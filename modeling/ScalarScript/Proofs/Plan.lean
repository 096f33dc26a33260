import ScalarScript.Engine.Execute

/-!
# Statements as plans

A statement is performed by actions that may fail between changes of the state. This module shows
that none does: `plan` computes, without touching anything, what a statement comes to, and `commit`
carries it out, which cannot fail.

Results:
* `performWith_eq`, `perform_eq`: performing a statement is planning it and committing the plan.
* `perform_error`: a statement that fails leaves the state as it was, and has handed nothing to the
  sink.
* `perform_output`: the output grows by exactly the lines that were handed to the sink.
-/

namespace ScalarScript

/-! ## Changes -/

/-- What a statement comes to, with everything computed. -/
inductive Change where
  | declare (name : Datum) (key : Name) (v : Value)
  | fix (name : Datum) (key : Name) (v : Value)
  | assign (key : Name) (v : Value)
  | replace (name : Datum) (key : Name) (i : Int) (t : ScalarString)
  | print (line : Text)
  | nothing

namespace Change

/-- The state after a change. -/
def apply (state : State) : Change → State
  | declare _ key v => state.declare key v
  | fix _ key v => state.fix key v
  | assign key v => state.rebind key v
  | replace _ key _ t => state.rebind key (.string t)
  | print line => state.print line
  | nothing => state

/-- The effects of a change. -/
def effects (settings : Settings) : Change → List Effect
  | declare name _ _ => [.log (Log.engine (Text.of "let " ++ name.plain))]
  | fix name _ _ => [.log (Log.engine (Text.of "const " ++ name.plain))]
  | assign _ _ => []
  | replace name _ i _ =>
    [.log (Log.engine (name.plain ++ Text.of "[" ++ Text.ofInt i ++ Text.of "] replaced"))]
  | print line => .line line :: if settings.echoPrints then [.echo line] else []
  | nothing => []

/-- The output grows by the lines that a change hands to the sink. -/
theorem output_apply (settings : Settings) (c : Change) (state : State) :
    (c.apply state).output = state.output ++ Effect.linesOf (c.effects settings) := by
  cases c with
  | print line =>
    have hlines : Effect.linesOf (effects settings (.print line)) = [line] := by
      cases h : settings.echoPrints <;> simp [effects, h, Effect.linesOf]
    rw [hlines]
    rfl
  | _ => exact (List.append_nil _).symm

end Change

/-! ## Planning and committing -/

/-- What a statement comes to in a state, where `value` evaluates its expressions. -/
def plan (value : Expr → Traced Log.Record Value) (state : State) :
    Statement → Traced Log.Record Change
  | .declare name e _ => do
    let v ← value e
    let key ← .ofExcept (declarable name)
    return .declare name key v
  | .constant name e _ => do
    let v ← value e
    let key ← .ofExcept (declarable name)
    return .fix name key v
  | .assign name e pos => do
    let target ← .ofExcept (assignable state name pos)
    let v ← value e
    return .assign target.1 v
  | .indexAssign name i e pos => do
    let target ← .ofExcept (assignable state name pos)
    let s ← .ofExcept (indexable target.2 pos)
    let index ← value i
    let n ← .ofExcept (indexNumber index pos)
    let scalar ← value e
    let c ← .ofExcept (singleScalar scalar pos)
    let t ← .ofExcept (replaceScalar s n c pos)
    return .replace name target.1 n t
  | .print e pos => do
    let v ← value e
    let line ← .ofExcept (printedLine v pos)
    return .print line
  | .expression e _ => do
    let _ ← value e
    return .nothing

/-- Carries out a plan in a state; a plan that failed changes nothing. -/
def commit (settings : Settings) (state : State) (t : Traced Log.Record Change) : Performed Unit :=
  match t.result with
  | .error f => ⟨t.reported.effects, state, .error f⟩
  | .ok c => ⟨t.reported.effects ++ c.effects settings, c.apply state, .ok ()⟩

theorem commit_of_error {settings : Settings} {state : State} {t : Traced Log.Record Change}
    {f : Failure} (h : t.result = .error f) :
    commit settings state t = ⟨t.reported.effects, state, .error f⟩ := by
  simp only [commit, h]

/-- A commit cannot fail. -/
theorem result_commit (settings : Settings) (state : State) (t : Traced Log.Record Change) :
    (commit settings state t).result = t.result.map fun _ => () := by
  unfold commit
  cases t.result <;> rfl

/-- A computation before a plan is part of the plan. -/
theorem compute_bind_apply {α : Type} {settings : Settings} {state : State}
    {f : State → Traced Log.Record α} {g : α → Traced Log.Record Change} {k : α → Action Unit}
    (h : ∀ a, k a state = commit settings state (g a)) :
    (Action.compute f >>= k) state = commit settings state (f state >>= g) := by
  cases hf : (f state).result with
  | error e =>
    have hx : (Action.compute f state).result = .error e := hf
    have hy : (f state >>= g).result = .error e := by rw [Traced.result_bind, hf]; rfl
    rw [Action.bind_apply_error hx]
    simp only [commit, hy, Traced.effects_reported, Traced.effects_bind_error hf]
    rfl
  | ok a =>
    have hx : (Action.compute f state).result = .ok a := hf
    have hy : (f state >>= g).result = (g a).result := by rw [Traced.result_bind, hf]; rfl
    rw [Action.bind_apply_ok hx]
    show Performed.mk (_ ++ (k a state).effects) (k a state).state (k a state).result = _
    rw [h a]
    simp only [commit, hy, Traced.effects_reported, Traced.effects_bind_ok hf, List.map_append]
    cases (g a).result with
    | error e => rfl
    | ok c =>
      simp only [List.append_assoc]
      rfl

/-- **Performing a statement is planning it and committing the plan.** -/
theorem performWith_eq (settings : Settings) (value : Scope → Expr → Traced Log.Record Value)
    (s : Statement) (state : State) :
    performWith settings value s state =
      commit settings state (plan (value state.scope) state s) := by
  cases s with
  | declare name e pos =>
    exact compute_bind_apply fun v => compute_bind_apply fun key => rfl
  | constant name e pos =>
    exact compute_bind_apply fun v => compute_bind_apply fun key => rfl
  | assign name e pos =>
    exact compute_bind_apply fun target => compute_bind_apply fun v => rfl
  | indexAssign name i e pos =>
    refine compute_bind_apply fun target => compute_bind_apply fun s => ?_
    refine compute_bind_apply fun index => compute_bind_apply fun n => ?_
    refine compute_bind_apply fun scalar => compute_bind_apply fun c => ?_
    exact compute_bind_apply fun t => rfl
  | print e pos =>
    exact compute_bind_apply fun v => compute_bind_apply fun line => rfl
  | expression e pos =>
    exact compute_bind_apply fun v => rfl

/-! ## What a step does to the state -/

/-- A plan with its failure placed is committed in the same way. -/
theorem commit_mapFailure (settings : Settings) (state : State) (f : Failure → Failure)
    (t : Traced Log.Record Change) :
    commit settings state (t.mapFailure f) =
      ⟨(commit settings state t).effects, (commit settings state t).state,
        (commit settings state t).result.mapError f⟩ := by
  obtain ⟨effects, result⟩ := t
  cases result <;> rfl

namespace Engine

/-- The plan of a statement on an engine; the end of the depth is placed at the statement. -/
def plan (engine : Engine) (state : State) (s : Statement) : Traced Log.Record Change :=
  (ScalarScript.plan (evaluate engine depth state.scope) state s).mapFailure
    (Failure.placed s.position)

theorem perform_eq (engine : Engine) (s : Statement) (state : State) :
    engine.perform s state = commit engine.settings state (engine.plan state s) := by
  rw [plan, commit_mapFailure, ← performWith_eq]
  rfl

/-- A statement that fails leaves the state as it was, and hands out no line and no echo. -/
theorem perform_error {engine : Engine} {s : Statement} {state : State} {f : Failure}
    (h : (engine.perform s state).result = .error f) :
    (engine.perform s state).state = state ∧
      Effect.linesOf (engine.perform s state).effects = [] ∧
      Effect.echoesOf (engine.perform s state).effects = [] := by
  rw [perform_eq, result_commit, Except.map_eq_error_iff] at h
  rw [perform_eq, commit_of_error h]
  exact ⟨rfl, Effect.linesOf_reported _, Effect.echoesOf_reported _⟩

/-- The output grows by the lines that a statement hands to the sink. -/
theorem perform_output (engine : Engine) (s : Statement) (state : State) :
    (engine.perform s state).state.output =
      state.output ++ Effect.linesOf (engine.perform s state).effects := by
  rw [perform_eq, commit]
  cases (engine.plan state s).result with
  | error e =>
    simp only [Effect.linesOf_reported]
    exact (List.append_nil _).symm
  | ok c =>
    simp only [Effect.linesOf_append, Effect.linesOf_reported, List.nil_append]
    exact c.output_apply engine.settings state

end Engine

end ScalarScript
