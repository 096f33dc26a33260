import ScalarScript.Proofs.Steps

/-!
# Resuming an execution

A script is executed in two parts: the first part in a scope, and the second one afresh in the scope
that the first has left. The second run starts without the lines and the constants of the first, so
it is not in the state in which the whole script goes on.

Nothing is computed from the lines, and a constant does one thing, which is to refuse an assignment.
A host function is given its arguments and no state, so a call does the same in both runs.
So the second run is in step with the rest of the whole one, as long as that one succeeds: it has
the same scope, fewer constants, and the lines that come after those of the first part.

* `State.ResumedBy earlier state fresh`: the states of two such runs.

Results:
* `ResumedBy.apply`: every change keeps two states in step.
* `plan_of_resumedBy`, `perform_of_resumedBy`: a statement that succeeds in one state does the same
  in the other; `executeAll_of_resumedBy`: so does a whole run.
* **`execution_resumes`**: what a script does in one run, it does in two.
-/

namespace ScalarScript

/-! ## States in step -/

/-- A fresh execution has come as far as one that had printed some lines before: it has the same
scope, no other constants, and the lines behind the earlier ones. -/
structure State.ResumedBy (earlier : List Text) (state fresh : State) : Prop where
  scope : fresh.scope = state.scope
  constants : ∀ key ∈ fresh.constants, key ∈ state.constants
  output : state.output = earlier ++ fresh.output

namespace State.ResumedBy

variable {earlier : List Text} {state fresh : State}

theorem refl (state : State) : ResumedBy [] state state where
  scope := rfl
  constants := fun _ => id
  output := rfl

/-- An execution that has come as far is resumed in its scope. -/
theorem start (h : ResumedBy [] state fresh) :
    ResumedBy fresh.output state (.start fresh.scope) where
  scope := h.scope
  constants := nofun
  output := h.output.trans (List.append_nil _).symm

/-- **Every change keeps two states in step.** -/
theorem apply (h : ResumedBy earlier state fresh) (c : Change) :
    ResumedBy earlier (c.apply state) (c.apply fresh) where
  scope := by
    cases c with
    | declare _ key v | fix _ key v | assign key v => exact congrArg (Scope.set · key v) h.scope
    | replace _ key _ t => exact congrArg (Scope.set · key (.string t)) h.scope
    | print | nothing => exact h.scope
  constants := by
    intro key hkey
    rw [Change.mem_constants_apply_iff] at hkey ⊢
    exact hkey.imp id (And.imp_left (h.constants key))
  output := by
    cases c with
    | print line =>
      show state.output ++ [line] = earlier ++ (fresh.output ++ [line])
      rw [h.output, List.append_assoc]
    | declare | fix | assign | replace | nothing => exact h.output

/-- A name that may be assigned to may be assigned to in the fresh state. -/
theorem assignable (h : ResumedBy earlier state fresh) {name : Datum} {pos : Option Position}
    {target : Name × Value} (ht : assignable state name pos = .ok target) :
    ScalarScript.assignable fresh name pos = .ok target := by
  obtain ⟨key, v⟩ := target
  obtain ⟨hk, hv, hc⟩ := assignable_eq_ok_iff.mp ht
  exact assignable_eq_ok_iff.mpr ⟨hk, h.scope ▸ hv, fun hmem => hc (h.constants key hmem)⟩

end State.ResumedBy

/-! ## One statement -/

section Statement

variable {earlier : List Text} {state fresh : State} {s : Statement}

/-- A plan that succeeds is the same in the fresh state. -/
theorem plan_of_resumedBy {value : Expr → Traced Log.Record Value} {c : Change}
    (h : State.ResumedBy earlier state fresh) (hc : (plan value state s).result = .ok c) :
    plan value fresh s = plan value state s := by
  cases s with
  | declare | constant | print | expression => rfl
  | assign name e pos | indexAssign name i e pos =>
    obtain ⟨target, ht, -⟩ := Traced.result_bind_eq_ok_iff.mp hc
    simp only [Traced.result_ofExcept] at ht
    simp only [plan, ht, h.assignable ht]

namespace Engine

variable {engine : Engine}

/-- **A statement that succeeds does the same in the fresh state.** -/
theorem perform_of_resumedBy (h : State.ResumedBy earlier state fresh)
    (hs : (engine.perform s state).result = .ok ()) :
    (engine.perform s fresh).result = .ok () ∧
      (engine.perform s fresh).effects = (engine.perform s state).effects ∧
      State.ResumedBy earlier (engine.perform s state).state (engine.perform s fresh).state := by
  obtain ⟨c, hc⟩ := perform_eq_ok_iff.mp hs
  have hplan : engine.plan fresh s = engine.plan state s := by
    unfold plan
    rw [h.scope, plan_of_resumedBy h (plan_eq_ok_iff.mpr hc)]
  obtain ⟨hs', heffects, hstate⟩ := perform_of_plan_eq hc hplan
  rw [(perform_of_planned hc).2, hstate]
  exact ⟨hs', heffects, h.apply c⟩

/-! ## Runs -/

/-- **A run that succeeds does the same from the fresh state.** -/
theorem executeAll_of_resumedBy {name : Datum} (name' : Datum) {ss : List Statement}
    {final : State} (h : State.ResumedBy earlier state fresh)
    (hrun : (engine.executeAll name state ss).result = .ok final) :
    ∃ final', (engine.executeAll name' fresh ss).result = .ok final' ∧
      (engine.executeAll name' fresh ss).effects = (engine.executeAll name state ss).effects ∧
      State.ResumedBy earlier final final' :=
  executeAll_of_step name name' (fun _ _ _ h hs => perform_of_resumedBy h hs) h hrun

/-! ## Scripts -/

/-- **An execution can be resumed from a result.** Where a script succeeds, its first statements
succeed on their own, and the others succeed as a script executed in the scope that those leave,
without any of their constants. They end with the scope in which the whole script ends, and its
output is that of the two runs, one behind the other; so are the lines handed out and the lines
echoed. -/
theorem execution_resumes (engine : Engine) (before after : List Statement) (scope : Scope)
    (name nameBefore nameAfter : Datum) {final : State}
    (h : (engine.execute ⟨before ++ after, name⟩ scope).result = .ok final) :
    ∃ mid final',
      (engine.execute ⟨before, nameBefore⟩ scope).result = .ok mid ∧
      (engine.execute ⟨after, nameAfter⟩ mid.scope).result = .ok final' ∧
      final'.scope = final.scope ∧
      final.output = mid.output ++ final'.output ∧
      Effect.linesOf (engine.execute ⟨before ++ after, name⟩ scope).effects =
        Effect.linesOf (engine.execute ⟨before, nameBefore⟩ scope).effects ++
          Effect.linesOf (engine.execute ⟨after, nameAfter⟩ mid.scope).effects ∧
      Effect.echoesOf (engine.execute ⟨before ++ after, name⟩ scope).effects =
        Effect.echoesOf (engine.execute ⟨before, nameBefore⟩ scope).effects ++
          Effect.echoesOf (engine.execute ⟨after, nameAfter⟩ mid.scope).effects := by
  rw [result_execute, executeAll_append, Traced.result_bind_eq_ok_iff] at h
  obtain ⟨mid, hbefore, hafter⟩ := h
  obtain ⟨mid', hbefore', heffects, hmid⟩ :=
    executeAll_of_resumedBy nameBefore (.refl _) hbefore
  obtain ⟨final', hafter', heffects', hfinal⟩ :=
    executeAll_of_resumedBy nameAfter hmid.start hafter
  refine ⟨mid', final', hbefore', hafter', hfinal.scope, hfinal.output, ?_, ?_⟩
  · rw [linesOf_execute, linesOf_execute, linesOf_execute, heffects, heffects',
      executeAll_append, Traced.effects_bind_ok hbefore, Effect.linesOf_append]
  · rw [echoesOf_execute, echoesOf_execute, echoesOf_execute, heffects, heffects',
      executeAll_append, Traced.effects_bind_ok hbefore, Effect.echoesOf_append]

/-! ### A constant that the second part declares again -/

/-- The name `limit`. -/
def limitName : Datum := .text (Text.of "limit")

/-- `const limit = 5; print(limit)`. -/
def fixesLimit : List Statement :=
  [.constant limitName (.int (.int 5) none) none, .print (.var limitName none) none]

/-- `print(limit); let limit = 6; limit = 7`. -/
def liftsLimit : List Statement :=
  [.print (.var limitName none) none, .declare limitName (.int (.int 6) none) none,
    .assign limitName (.int (.int 7) none) none]

/-- What is a constant behind the first part is a plain variable at the start of the second, which
ends with the same value. -/
theorem execution_resumes_behind_constant :
    ((new {}).execute ⟨fixesLimit ++ liftsLimit, .null⟩ .empty).result =
      .ok ⟨⟨[(.text (Text.of "limit"), .int 7)]⟩, [], [Text.of "5", Text.of "5"]⟩ ∧
    ∃ mid final', ((new {}).execute ⟨fixesLimit, .null⟩ .empty).result = .ok mid ∧
      ((new {}).execute ⟨liftsLimit, .null⟩ mid.scope).result = .ok final' ∧
      final'.scope = ⟨[(.text (Text.of "limit"), .int 7)]⟩ ∧
      [Text.of "5", Text.of "5"] = mid.output ++ final'.output := by
  have hrun : ((new {}).execute ⟨fixesLimit ++ liftsLimit, .null⟩ .empty).result =
      .ok ⟨⟨[(.text (Text.of "limit"), .int 7)]⟩, [], [Text.of "5", Text.of "5"]⟩ := rfl
  obtain ⟨mid, final', hbefore, hafter, hscope, houtput, -⟩ :=
    execution_resumes (new {}) fixesLimit liftsLimit .empty .null .null .null hrun
  exact ⟨hrun, mid, final', hbefore, hafter, hscope, houtput⟩

end Engine

end Statement

end ScalarScript
