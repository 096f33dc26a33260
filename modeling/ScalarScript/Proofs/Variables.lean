import ScalarScript.Proofs.Constants

/-!
# Scripts without constants

The mark of a constant does one thing: it refuses assignments. A script and the script with `let`
for `const` are therefore executed in step, in states that differ in their marks and in nothing
else, for as long as no assignment meets a constant.

* `Statement.asVariable`, `Script.asVariables`: `let` for `const`.
* `State.unmarked`: the state with all marks taken off. Without `const`, there never are any.
* `Engine.SameOutcome`: two runs come to the same, marks left out.
* `Engine.Blocked`: a run fails at an assignment to a constant, which is reached without constants
  in the same scope and with the same output.

Results:
* `assignable_unmarked`: taking the marks off changes the answer for constants only.
* `plan_asVariable`, `perform_asVariable`: one statement; `executeAll_asVariable`: a whole run.
* **`constants_only_block`**: a script and the script without constants come to the same, or the
  first is blocked. One that succeeds succeeds without constants too.
-/

namespace ScalarScript

/-! ## `let` for `const` -/

/-- The statement that declares a variable in place of a constant. -/
def Statement.asVariable : Statement → Statement
  | constant name value pos => declare name value pos
  | s => s

/-- The script that declares variables in place of constants. -/
def Script.asVariables (script : Script) : Script :=
  { script with statements := script.statements.map Statement.asVariable }

/-- The change that binds a variable in place of a constant. -/
def Change.asVariable : Change → Change
  | fix name key v => declare name key v
  | c => c

/-- The state with the marks of all constants taken off. -/
def State.unmarked (state : State) : State := { state with constants := [] }

theorem Statement.position_asVariable (s : Statement) : s.asVariable.position = s.position := by
  cases s <;> rfl

namespace Change

/-- A change leaves states that differ in marks as states that differ in marks. -/
theorem apply_asVariable (c : Change) (state : State) :
    c.asVariable.apply state.unmarked = (c.apply state).unmarked := by
  cases c <;> rfl

theorem linesOf_effects_asVariable (settings : Settings) (c : Change) :
    Effect.linesOf (c.asVariable.effects settings) = Effect.linesOf (c.effects settings) := by
  cases c <;> rfl

theorem echoesOf_effects_asVariable (settings : Settings) (c : Change) :
    Effect.echoesOf (c.asVariable.effects settings) = Effect.echoesOf (c.effects settings) := by
  cases c <;> rfl

end Change

/-! ## One statement -/

/-- Taking the marks off changes the answer for constants only. -/
theorem assignable_unmarked (state : State) (name : Datum) :
    (∃ key v, Name.ofDatum? name = some key ∧ state.Constant key v) ∨
      ∀ pos, assignable state.unmarked name pos = assignable state name pos := by
  cases hk : Name.ofDatum? name with
  | none =>
    refine .inr fun pos => ?_
    simp only [assignable, hk]
  | some key =>
    cases hv : state.scope.get? key with
    | none =>
      have hv' : state.unmarked.scope.get? key = none := hv
      refine .inr fun pos => ?_
      simp only [assignable, hk, hv, hv']
    | some v =>
      by_cases hc : key ∈ state.constants
      · exact .inl ⟨key, v, rfl, hc, hv⟩
      · refine .inr fun pos => ?_
        rw [assignable_eq_ok_iff.mpr ⟨hk, hv, hc⟩]
        exact assignable_eq_ok_iff.mpr ⟨hk, hv, List.not_mem_nil⟩

/-- A statement assigns to a constant, or it comes to the same change without marks. -/
theorem plan_asVariable (value : Expr → Traced Log.Record Value) (state : State) (s : Statement) :
    (∃ name key v, s.assigned? = some name ∧ Name.ofDatum? name = some key ∧
      state.Constant key v) ∨
      plan value state.unmarked s.asVariable = Change.asVariable <$> plan value state s := by
  cases s with
  | declare name e pos | constant name e pos =>
    right
    simp only [Statement.asVariable, plan, map_bind, map_pure]
    rfl
  | assign name e pos =>
    rcases assignable_unmarked state name with ⟨key, v, hk, hc⟩ | h
    · exact .inl ⟨name, key, v, rfl, hk, hc⟩
    · right
      simp only [Statement.asVariable, plan, map_bind, map_pure, h]
      rfl
  | indexAssign name i e pos =>
    rcases assignable_unmarked state name with ⟨key, v, hk, hc⟩ | h
    · exact .inl ⟨name, key, v, rfl, hk, hc⟩
    · right
      simp only [Statement.asVariable, plan, map_bind, map_pure, h]
      rfl
  | print e pos | expression e pos =>
    right
    simp only [Statement.asVariable, plan, map_bind, map_pure]
    rfl

/-- What a statement comes to, and what it comes to in a state without marks. -/
structure Performed.InStep (p q : Performed Unit) : Prop where
  state : q.state = p.state.unmarked
  result : q.result = p.result
  lines : Effect.linesOf q.effects = Effect.linesOf p.effects
  echoes : Effect.echoesOf q.effects = Effect.echoesOf p.effects

theorem commit_asVariable (settings : Settings) (state : State) (t : Traced Log.Record Change) :
    (commit settings state t).InStep
      (commit settings state.unmarked (Change.asVariable <$> t)) := by
  obtain ⟨records, result⟩ := t
  cases result with
  | error f => exact ⟨rfl, rfl, rfl, rfl⟩
  | ok c =>
    have hmap : Change.asVariable <$> (⟨records, .ok c⟩ : Traced Log.Record Change) =
        ⟨records, .ok c.asVariable⟩ := congrArg (Traced.mk · _) (List.append_nil records)
    rw [hmap]
    refine ⟨c.apply_asVariable state, rfl, ?_, ?_⟩
    · show Effect.linesOf (_ ++ _) = Effect.linesOf (_ ++ _)
      rw [Effect.linesOf_append, Effect.linesOf_append, c.linesOf_effects_asVariable]
      rfl
    · show Effect.echoesOf (_ ++ _) = Effect.echoesOf (_ ++ _)
      rw [Effect.echoesOf_append, Effect.echoesOf_append, c.echoesOf_effects_asVariable]
      rfl

theorem mapFailure_map_asVariable (f : Failure → Failure) (t : Traced Log.Record Change) :
    (Change.asVariable <$> t).mapFailure f = Change.asVariable <$> t.mapFailure f := by
  obtain ⟨records, result⟩ := t
  cases result <;> rfl

namespace Engine

/-- **One step without marks**: a statement assigns to a constant, which is refused, or it comes to
the same. -/
theorem perform_asVariable (engine : Engine) (state : State) (s : Statement) :
    (∃ name, s.assigned? = some name ∧ engine.Refuses state s name) ∨
      (engine.perform s state).InStep (engine.perform s.asVariable state.unmarked) := by
  rcases plan_asVariable (evaluate engine depth state.scope) state s with
    ⟨name, key, v, hs, hk, hc⟩ | h
  · exact .inl ⟨name, hs, refuses_of_constant hs hk hc⟩
  · right
    have hplan : engine.plan state.unmarked s.asVariable =
        Change.asVariable <$> engine.plan state s := by
      rw [plan, plan, s.position_asVariable, ← mapFailure_map_asVariable]
      exact congrArg (Traced.mapFailure _) h
    rw [perform_eq, perform_eq, hplan]
    exact commit_asVariable engine.settings state _

/-! ## Runs -/

/-- A run fails behind `n` statements, which leave `mid`, at an assignment to a constant; without
constants, those statements leave the same scope and output. -/
structure BlockedAt (engine : Engine) (name : Datum) (state : State) (ss : List Statement) (n : Nat)
    (mid : State) (s : Statement) (constant : Datum) : Prop where
  statement : ss[n]? = some s
  assigned : s.assigned? = some constant
  fails : engine.FailsAt name state ss n mid (.at_ (.constant constant) s.position)
  reached : (engine.executeAll name state.unmarked ((ss.map Statement.asVariable).take n)).result =
    .ok mid.unmarked

variable {engine : Engine} {name : Datum} {state : State} {s : Statement} {ss : List Statement}

namespace BlockedAt

theorem head {constant : Datum} (name : Datum) (ss : List Statement)
    (hs : s.assigned? = some constant) (h : engine.Refuses state s constant) :
    engine.BlockedAt name state (s :: ss) 0 state s constant where
  statement := rfl
  assigned := hs
  fails := .head name (by rw [h.1])
  reached := rfl

theorem cons {n : Nat} {mid : State} {t : Statement} {constant : Datum}
    (hs : (engine.perform s state).result = .ok ())
    (hstep : (engine.perform s state).InStep (engine.perform s.asVariable state.unmarked))
    (h : engine.BlockedAt name (engine.perform s state).state ss n mid t constant) :
    engine.BlockedAt name state (s :: ss) (n + 1) mid t constant where
  statement := h.statement
  assigned := h.assigned
  fails := h.fails.cons hs
  reached := by
    rw [List.map_cons, List.take_succ_cons,
      executeAll_cons_of_ok name (hstep.result.trans hs), hstep.state]
    exact h.reached

end BlockedAt

/-- **Two runs in step.** A list of statements is blocked, or without constants it prints the same
and comes to the same: to the same state without marks, or to the same failure at the same
statement. -/
theorem executeAll_asVariable (engine : Engine) (name : Datum) (state : State)
    (ss : List Statement) :
    (Effect.linesOf (engine.executeAll name state.unmarked (ss.map Statement.asVariable)).effects =
        Effect.linesOf (engine.executeAll name state ss).effects ∧
      Effect.echoesOf (engine.executeAll name state.unmarked
          (ss.map Statement.asVariable)).effects =
        Effect.echoesOf (engine.executeAll name state ss).effects ∧
      ((∃ final, (engine.executeAll name state ss).result = .ok final ∧
          (engine.executeAll name state.unmarked (ss.map Statement.asVariable)).result =
            .ok final.unmarked) ∨
        ∃ n mid f, engine.FailsAt name state ss n mid f ∧
          engine.FailsAt name state.unmarked (ss.map Statement.asVariable) n mid.unmarked f)) ∨
      ∃ n mid s constant, engine.BlockedAt name state ss n mid s constant := by
  induction ss generalizing state with
  | nil => exact .inl ⟨rfl, rfl, .inl ⟨state, rfl, rfl⟩⟩
  | cons s ss ih =>
    rw [List.map_cons]
    rcases perform_asVariable engine state s with ⟨constant, hs, hrefused⟩ | hstep
    · exact .inr ⟨0, state, s, constant, .head name ss hs hrefused⟩
    · cases hs : (engine.perform s state).result with
      | error f =>
        have hs' := hstep.result.trans hs
        refine .inl ⟨?_, ?_, .inr ⟨0, state, f, .head name hs, .head name hs'⟩⟩
        · rw [executeAll_cons_of_error name hs, executeAll_cons_of_error name hs',
            Effect.linesOf_append, Effect.linesOf_append, hstep.lines]
        · rw [executeAll_cons_of_error name hs, executeAll_cons_of_error name hs',
            Effect.echoesOf_append, Effect.echoesOf_append, hstep.echoes]
      | ok u =>
        have hs' := hstep.result.trans hs
        rcases ih (engine.perform s state).state with
          ⟨hlines, hechoes, hrest⟩ | ⟨n, mid, t, constant, hblocked⟩
        · rw [← hstep.state] at hlines hechoes hrest
          rw [executeAll_cons_of_ok name hs, executeAll_cons_of_ok name hs']
          refine .inl ⟨?_, ?_, ?_⟩
          · rw [Effect.linesOf_append, Effect.linesOf_append, hstep.lines, hlines]
          · rw [Effect.echoesOf_append, Effect.echoesOf_append, hstep.echoes, hechoes]
          · exact hrest.imp_right fun ⟨n, mid, f, hf, hf'⟩ =>
              ⟨n + 1, mid, f, hf.cons hs, hf'.cons hs'⟩
        · exact .inr ⟨n + 1, mid, t, constant, hblocked.cons hs hstep⟩

/-! ## Scripts -/

/-- Two runs of scripts come to the same, marks of constants left out: they print the same, and they
end with the same scope and output, or fail at the same statement with the same failure, in states
of the same scope and output. -/
structure SameOutcome (engine : Engine) (a b : Script) (scope : Scope) : Prop where
  lines : Effect.linesOf (engine.execute b scope).effects =
    Effect.linesOf (engine.execute a scope).effects
  echoes : Effect.echoesOf (engine.execute b scope).effects =
    Effect.echoesOf (engine.execute a scope).effects
  outcome : (∃ final final', (engine.execute a scope).result = .ok final ∧
      (engine.execute b scope).result = .ok final' ∧ final'.unmarked = final.unmarked) ∨
    ∃ n mid mid' f, engine.FailsAt a.name (.start scope) a.statements n mid f ∧
      engine.FailsAt b.name (.start scope) b.statements n mid' f ∧ mid'.unmarked = mid.unmarked

/-- A script fails at an assignment to a constant. -/
def Blocked (engine : Engine) (script : Script) (scope : Scope) : Prop :=
  ∃ n mid s constant,
    engine.BlockedAt script.name (.start scope) script.statements n mid s constant

theorem sameOutcome_or_blocked (engine : Engine) (script : Script) (scope : Scope) :
    engine.SameOutcome script script.asVariables scope ∨ engine.Blocked script scope := by
  refine (executeAll_asVariable engine script.name (.start scope) script.statements).imp ?_ id
  rintro ⟨hlines, hechoes, hrest⟩
  refine ⟨hlines, hechoes, hrest.imp ?_ ?_⟩
  · rintro ⟨final, hfinal, hfinal'⟩
    exact ⟨final, final.unmarked, hfinal, hfinal', rfl⟩
  · rintro ⟨n, mid, f, hf, hf'⟩
    exact ⟨n, mid, mid.unmarked, f, hf, hf', rfl⟩

/-- A script that succeeds is not blocked. -/
theorem not_blocked_of_execute {script : Script} {scope : Scope} {final : State}
    (h : (engine.execute script scope).result = .ok final) : ¬ engine.Blocked script scope := by
  rintro ⟨n, mid, s, constant, hblocked⟩
  rw [result_execute, hblocked.fails.result] at h
  cases h

/-- **Constants only ever block.** A script and the script without constants have the same outcome,
or the script fails at an assignment to a constant, which the script without constants reaches with
the same scope and output. So a script that succeeds does the same without constants. -/
theorem constants_only_block (engine : Engine) (script : Script) (scope : Scope) :
    (engine.SameOutcome script script.asVariables scope ∨ engine.Blocked script scope) ∧
    (∀ final, (engine.execute script scope).result = .ok final →
      ∃ final', (engine.execute script.asVariables scope).result = .ok final' ∧
        final'.scope = final.scope ∧ final'.output = final.output ∧
        Effect.linesOf (engine.execute script.asVariables scope).effects =
          Effect.linesOf (engine.execute script scope).effects ∧
        Effect.echoesOf (engine.execute script.asVariables scope).effects =
          Effect.echoesOf (engine.execute script scope).effects) ∧
    ∀ name, EvalFault.text (.constant name) =
      Text.of "Cannot assign to constant: " ++ name.plain := by
  have hsame := sameOutcome_or_blocked engine script scope
  refine ⟨hsame, fun final h => ?_, fun name => rfl⟩
  have hrun := hsame.resolve_right (not_blocked_of_execute h)
  rcases hrun.outcome with ⟨last, final', hlast, hfinal', hmarks⟩ | ⟨n, mid, mid', f, hf, -, -⟩
  · cases h.symm.trans hlast
    have hstates := State.mk.inj hmarks
    exact ⟨final', hfinal', hstates.1, hstates.2.2, hrun.lines, hrun.echoes⟩
  · rw [result_execute, hf.result] at h
    cases h

/-! ### A constant that is declared again, and one that is assigned to -/

/-- `print(x)`. -/
def printX : Statement := .print (.var letterX none) none

/-- `const x = "ab"; print(x); let x = 1; x = 1`. -/
def declaredAgain : Script :=
  ⟨[fixString, printX, declareOne, assignOne], .text Script.defaultName⟩

/-- `const x = "ab"; print(x); x = 1`. -/
def assignedTo : Script := ⟨[fixString, printX, assignOne], .text Script.defaultName⟩

/-- The first script ends the same without constants; the second is blocked behind its line. -/
theorem constants_only_block_of_assignment :
    (∃ final', ((new {}).execute declaredAgain.asVariables .empty).result = .ok final' ∧
      final'.output = [Text.of "ab"]) ∧
    (new {}).Blocked assignedTo .empty := by
  constructor
  · obtain ⟨final', h, -, houtput, -⟩ := (constants_only_block (new {}) declaredAgain .empty).2.1
      ⟨⟨[(.text (Text.of "x"), .int 1)]⟩, [], [Text.of "ab"]⟩ rfl
    exact ⟨final', h, houtput⟩
  · refine (constants_only_block (new {}) assignedTo .empty).1.resolve_left fun h => ?_
    have hfails : ((new {}).execute assignedTo .empty).result =
        .error (.at_ (.constant letterX) none) := rfl
    have hruns : ((new {}).execute assignedTo.asVariables .empty).result =
        .ok ⟨⟨[(.text (Text.of "x"), .int 1)]⟩, [], [Text.of "ab"]⟩ := rfl
    rcases h.outcome with ⟨final, -, hok, -⟩ | ⟨n, mid, mid', f, -, hf, -⟩
    · cases hfails.symm.trans hok
    · cases hruns.symm.trans hf.result

end Engine

end ScalarScript
