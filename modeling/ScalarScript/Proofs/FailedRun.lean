import ScalarScript.Proofs.Plan

/-!
# Runs that fail

A run stops at the first statement that fails. What it has done by then is what the statements
before it do on their own.

* `FailsAt`: where a run fails, and with what.

Results:
* `executeAll_append`: a list of statements is executed part by part.
* `executeAll_error_iff`: a run fails exactly where some first statements succeed and the next one
  fails in the state that they leave.
* `executeAll_output`: the output of a successful run is what was handed to the sink.
* `executeAll_of_step`: what two runs have in common from statement to statement.
* **`failed_run_leaves_completed_part`**: a failing statement leaves no trace, and the lines of a
  failing run are the output of the statements before it.
-/

namespace ScalarScript.Engine

variable {engine : Engine} {name : Datum}

/-! ## One statement -/

theorem result_executeReported (engine : Engine) (name : Datum) (state : State) (s : Statement) :
    (engine.executeReported name state s).result =
      (engine.perform s state).result.map fun _ => (engine.perform s state).state := by
  show _ = (engine.executeStatement state s).result
  unfold executeReported
  simp only
  split
  · rfl
  · next h => exact h.symm

theorem linesOf_failureReport (name : Datum) (f : Failure) :
    Effect.linesOf (failureReport name f) = [] := by
  cases f <;> rfl

theorem echoesOf_failureReport (name : Datum) (f : Failure) :
    Effect.echoesOf (failureReport name f) = [] := by
  cases f <;> rfl

theorem linesOf_executeReported (engine : Engine) (name : Datum) (state : State) (s : Statement) :
    Effect.linesOf (engine.executeReported name state s).effects =
      Effect.linesOf (engine.perform s state).effects := by
  unfold executeReported
  simp only
  split
  · rfl
  · rw [Effect.linesOf_append, linesOf_failureReport, List.append_nil]
    rfl

theorem executeReported_eq_error_iff {state : State} {s : Statement} {f : Failure} :
    (engine.executeReported name state s).result = .error f ↔
      (engine.perform s state).result = .error f := by
  rw [result_executeReported, Except.map_eq_error_iff]

theorem executeReported_eq_ok_iff {state next : State} {s : Statement} :
    (engine.executeReported name state s).result = .ok next ↔
      (engine.perform s state).result = .ok () ∧ (engine.perform s state).state = next := by
  rw [result_executeReported, Except.map_eq_ok_iff]
  constructor
  · rintro ⟨⟨⟩, hs, hnext⟩
    exact ⟨hs, hnext⟩
  · rintro ⟨hs, hnext⟩
    exact ⟨(), hs, hnext⟩

/-! ## Lists of statements -/

theorem executeAll_append (engine : Engine) (name : Datum) (state : State)
    (before after : List Statement) :
    engine.executeAll name state (before ++ after) =
      engine.executeAll name state before >>= fun next => engine.executeAll name next after := by
  induction before generalizing state with
  | nil => rfl
  | cons s before ih =>
    rw [List.cons_append, executeAll_cons, executeAll_cons, bind_assoc]
    exact congrArg _ (funext ih)

/-- A run fails exactly at a statement that fails in the state its predecessors leave. -/
theorem executeAll_error_iff {state : State} {ss : List Statement} {f : Failure} :
    (engine.executeAll name state ss).result = .error f ↔
      ∃ before s after mid, ss = before ++ s :: after ∧
        (engine.executeAll name state before).result = .ok mid ∧
        (engine.perform s mid).result = .error f := by
  constructor
  · intro h
    induction ss generalizing state with
    | nil => cases h
    | cons s ss ih =>
      rw [executeAll_cons, Traced.result_bind_eq_error_iff] at h
      rcases h with h | ⟨next, hs, h⟩
      · exact ⟨[], s, ss, state, rfl, rfl, executeReported_eq_error_iff.mp h⟩
      · obtain ⟨before, t, after, mid, rfl, hb, ht⟩ := ih h
        refine ⟨s :: before, t, after, mid, rfl, ?_, ht⟩
        rw [executeAll_cons, Traced.result_bind_eq_ok_iff]
        exact ⟨next, hs, hb⟩
  · rintro ⟨before, s, after, mid, rfl, hb, hs⟩
    rw [executeAll_append, Traced.result_bind_eq_error_iff]
    refine .inr ⟨mid, hb, ?_⟩
    rw [executeAll_cons, Traced.result_bind_eq_error_iff]
    exact .inl (executeReported_eq_error_iff.mpr hs)

/-- Behind a successful prefix, a statement that fails hands nothing to the sink. -/
theorem linesOf_executeAll_error {state mid : State} {before after : List Statement}
    {s : Statement} {f : Failure} (hb : (engine.executeAll name state before).result = .ok mid)
    (hs : (engine.perform s mid).result = .error f) :
    Effect.linesOf (engine.executeAll name state (before ++ s :: after)).effects =
      Effect.linesOf (engine.executeAll name state before).effects := by
  rw [executeAll_append, Traced.effects_bind_ok hb, Effect.linesOf_append, executeAll_cons,
    Traced.effects_bind_error (executeReported_eq_error_iff.mpr hs), linesOf_executeReported,
    (perform_error hs).2.1, List.append_nil]

/-- The output of a successful run grows by what was handed to the sink. -/
theorem executeAll_output {state final : State} {ss : List Statement}
    (h : (engine.executeAll name state ss).result = .ok final) :
    final.output = state.output ++ Effect.linesOf (engine.executeAll name state ss).effects := by
  induction ss generalizing state with
  | nil =>
    cases h
    exact (List.append_nil _).symm
  | cons s ss ih =>
    rw [executeAll_cons, Traced.result_bind_eq_ok_iff] at h
    obtain ⟨next, hs, h⟩ := h
    rw [executeAll_cons, Traced.effects_bind_ok hs, Effect.linesOf_append,
      linesOf_executeReported, ih h, ← (executeReported_eq_ok_iff.mp hs).2, perform_output,
      List.append_assoc]

/-! ## Where a run fails -/

variable {state : State} {s : Statement} {ss : List Statement}

/-- A run whose first statement succeeds. -/
theorem executeAll_cons_of_ok (name : Datum) (h : (engine.perform s state).result = .ok ()) :
    engine.executeAll name state (s :: ss) =
      ⟨(engine.perform s state).effects ++
          (engine.executeAll name (engine.perform s state).state ss).effects,
        (engine.executeAll name (engine.perform s state).state ss).result⟩ := by
  rw [executeAll_cons]
  unfold executeReported executeStatement Action.outcome
  rw [h]
  rfl

/-- A run whose first statement fails. -/
theorem executeAll_cons_of_error (name : Datum) {f : Failure}
    (h : (engine.perform s state).result = .error f) :
    engine.executeAll name state (s :: ss) =
      ⟨(engine.perform s state).effects ++ failureReport name f, .error f⟩ := by
  rw [executeAll_cons]
  unfold executeReported executeStatement Action.outcome
  rw [h]
  rfl

/-- **Runs in step.** A relation of states that is kept by each statement that succeeds in the
first state, and does the same in the second one, is kept by a run that succeeds, and the run does
the same. -/
theorem executeAll_of_step (name name' : Datum) {R : State → State → Prop}
    (hstep : ∀ s a b, R a b → (engine.perform s a).result = .ok () →
      (engine.perform s b).result = .ok () ∧
        (engine.perform s b).effects = (engine.perform s a).effects ∧
        R (engine.perform s a).state (engine.perform s b).state)
    {a b final : State} (h : R a b) (hrun : (engine.executeAll name a ss).result = .ok final) :
    ∃ final', (engine.executeAll name' b ss).result = .ok final' ∧
      (engine.executeAll name' b ss).effects = (engine.executeAll name a ss).effects ∧
      R final final' := by
  induction ss generalizing a b with
  | nil =>
    cases hrun
    exact ⟨b, rfl, rfl, h⟩
  | cons s ss ih =>
    obtain ⟨next, hs, -⟩ := Traced.result_bind_eq_ok_iff.mp hrun
    obtain ⟨hs, -⟩ := executeReported_eq_ok_iff.mp hs
    obtain ⟨hs', heffects, hnext⟩ := hstep s a b h hs
    rw [executeAll_cons_of_ok name hs] at hrun ⊢
    rw [executeAll_cons_of_ok name' hs']
    obtain ⟨final', hrun', hrest, hfinal⟩ := ih hnext hrun
    exact ⟨final', hrun', by rw [heffects, hrest], hfinal⟩

/-- A run of statements fails at the one behind `n` others, which succeed and leave `mid`. -/
structure FailsAt (engine : Engine) (name : Datum) (state : State) (ss : List Statement) (n : Nat)
    (mid : State) (f : Failure) : Prop where
  result : (engine.executeAll name state ss).result = .error f
  statement : ∃ before s after, ss = before ++ s :: after ∧ before.length = n ∧
    (engine.executeAll name state before).result = .ok mid ∧
    (engine.perform s mid).result = .error f

namespace FailsAt

variable {n : Nat} {mid : State} {f : Failure}

theorem head (name : Datum) (h : (engine.perform s state).result = .error f) :
    engine.FailsAt name state (s :: ss) 0 state f where
  result := by rw [executeAll_cons_of_error name h]
  statement := ⟨[], s, ss, rfl, rfl, rfl, h⟩

theorem cons (hs : (engine.perform s state).result = .ok ())
    (h : engine.FailsAt name (engine.perform s state).state ss n mid f) :
    engine.FailsAt name state (s :: ss) (n + 1) mid f where
  result := by
    rw [executeAll_cons_of_ok name hs]
    exact h.result
  statement := by
    obtain ⟨before, t, after, rfl, rfl, hbefore, ht⟩ := h.statement
    refine ⟨s :: before, t, after, rfl, rfl, ?_, ht⟩
    rw [executeAll_cons_of_ok name hs]
    exact hbefore

end FailsAt

/-! ## Scripts -/

theorem result_execute (engine : Engine) (script : Script) (scope : Scope) :
    (engine.execute script scope).result =
      (engine.executeAll script.name (State.start scope) script.statements).result := rfl

theorem linesOf_execute (engine : Engine) (script : Script) (scope : Scope) :
    Effect.linesOf (engine.execute script scope).effects =
      Effect.linesOf
        (engine.executeAll script.name (State.start scope) script.statements).effects := rfl

theorem echoesOf_execute (engine : Engine) (script : Script) (scope : Scope) :
    Effect.echoesOf (engine.execute script scope).effects =
      Effect.echoesOf
        (engine.executeAll script.name (State.start scope) script.statements).effects := rfl

/-- **A failing run is its successful prefix.** A statement that fails leaves scope, constants and
output as they were, and has handed out no line. A script that fails does so at a statement whose
predecessors succeed on their own, in the state that they leave, and its lines are their output.
The lines of a script that succeeds are its output.

Host functions are arbitrary within `HostFunction`: they evaluate text and report to the log, but
print nothing, run no scripts and keep no state. What other host code does while a statement is
evaluated is not spoken of here. -/
theorem failed_run_leaves_completed_part (engine : Engine) :
    (∀ (s : Statement) (state : State) (f : Failure), (engine.perform s state).result = .error f →
      (engine.perform s state).state = state ∧
        Effect.linesOf (engine.perform s state).effects = [] ∧
        Effect.echoesOf (engine.perform s state).effects = []) ∧
    (∀ (script : Script) (scope : Scope) (f : Failure),
      (engine.execute script scope).result = .error f →
      ∃ before s after state, script.statements = before ++ s :: after ∧
        (engine.execute ⟨before, script.name⟩ scope).result = .ok state ∧
        (engine.perform s state).result = .error f ∧
        Effect.linesOf (engine.execute script scope).effects = state.output ∧
        Effect.linesOf (engine.execute ⟨before, script.name⟩ scope).effects = state.output) ∧
    (∀ (script : Script) (scope : Scope) (state : State),
      (engine.execute script scope).result = .ok state →
      Effect.linesOf (engine.execute script scope).effects = state.output) := by
  have hsuccess : ∀ (script : Script) (scope : Scope) (state : State),
      (engine.execute script scope).result = .ok state →
      Effect.linesOf (engine.execute script scope).effects = state.output :=
    fun script scope state h => (executeAll_output h).symm
  refine ⟨fun s state f h => perform_error h, fun script scope f h => ?_, hsuccess⟩
  rw [result_execute, executeAll_error_iff] at h
  obtain ⟨before, s, after, state, hss, hb, hs⟩ := h
  have hbefore := hsuccess ⟨before, script.name⟩ scope state hb
  refine ⟨before, s, after, state, hss, hb, hs, ?_, hbefore⟩
  rw [← hbefore, linesOf_execute, linesOf_execute, hss]
  exact linesOf_executeAll_error hb hs

/-- A statement that prints a number. -/
def printOne : Statement := .print (.int (.int 1) none) none

/-- A statement that reads a name. -/
def readName : Statement := .expression (.var (.text (Text.of "x")) none) none

/-- A line, then a name that is not bound, then a line that is not reached. -/
theorem failed_run_of_unbound_name :
    ((new {}).perform readName (State.start Scope.empty)).state = State.start Scope.empty ∧
    (∃ before s after state, [printOne, readName, printOne] = before ++ s :: after ∧
      ((new {}).execute ⟨before, .null⟩ Scope.empty).result = .ok state ∧
      Effect.linesOf ((new {}).execute ⟨[printOne, readName, printOne], .null⟩
        Scope.empty).effects = state.output) ∧
    Effect.linesOf ((new {}).execute ⟨[printOne], .null⟩ Scope.empty).effects = [Text.of "1"] := by
  obtain ⟨hstep, hfail, hsuccess⟩ := failed_run_leaves_completed_part (new {})
  obtain ⟨before, s, after, state, hss, hb, -, hlines, -⟩ :=
    hfail ⟨[printOne, readName, printOne], .null⟩ Scope.empty
      (.at_ (.unbound (.text (Text.of "x"))) none) rfl
  exact ⟨(hstep readName _ (.at_ (.unbound (.text (Text.of "x"))) none) rfl).1,
    ⟨before, s, after, state, hss, hb, hlines⟩,
    hsuccess ⟨[printOne], .null⟩ Scope.empty ⟨Scope.empty, [], [Text.of "1"]⟩ rfl⟩

end ScalarScript.Engine
