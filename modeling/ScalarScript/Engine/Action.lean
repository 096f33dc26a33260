import ScalarScript.Engine.State
import ScalarScript.Engine.Traced

/-!
# Actions on a state

Model of how the statement handlers of `Engine` change an `ExecutionState` in place.

A statement is executed by actions, one after another: it computes, changes the state of the
execution, and hands out effects. Where an action fails, the ones before it have happened, and
nothing takes them back: `Performed` has the state that is left beside the outcome, also of a
failure.

Results: `bind_apply_ok`, `bind_apply_error` (an action after another starts in the state that it
left, and does not start behind a failure).
-/

namespace ScalarScript

/-- What an action came to: its effects, the state it left, and its outcome. -/
structure Performed (α : Type) where
  effects : List Effect
  state : State
  result : Except Failure α

/-- A part of an execution, which may change its state. -/
def Action (α : Type) : Type := State → Performed α

namespace Action

variable {α β : Type}

/-- First `x`, then what its value leads to. -/
def bind (x : Action α) (f : α → Action β) : Action β := fun state =>
  match (x state).result with
  | .error e => ⟨(x state).effects, (x state).state, .error e⟩
  | .ok a =>
    let y := f a (x state).state
    ⟨(x state).effects ++ y.effects, y.state, y.result⟩

instance : Monad Action where
  pure a := fun state => ⟨[], state, .ok a⟩
  bind := bind

/-- Computes from the state, and reports to the log alone. -/
def compute (f : State → Traced Log.Record α) : Action α := fun state =>
  ⟨(f state).reported.effects, state, (f state).result⟩

/-- Computes from the state without effects. -/
def check (f : State → Except Failure α) : Action α := compute fun state => .ofExcept (f state)

/-- Changes the state. -/
def modify (f : State → State) : Action Unit := fun state => ⟨[], f state, .ok ()⟩

/-- Hands out effects. -/
def emit (effects : List Effect) : Action Unit := fun state => ⟨effects, state, .ok ()⟩

/-- Reports to the log that something was done. -/
def report (message : Text) : Action Unit := emit [.log (Log.engine message)]

/-- The same action with its failure changed. -/
def mapFailure (f : Failure → Failure) (x : Action α) : Action α := fun state =>
  ⟨(x state).effects, (x state).state, (x state).result.mapError f⟩

/-- The state that an action ends in, where it succeeds. -/
def outcome (x : Action Unit) (state : State) : Traced Effect State :=
  ⟨(x state).effects, (x state).result.map fun _ => (x state).state⟩

theorem pure_apply (a : α) (state : State) : (pure a : Action α) state = ⟨[], state, .ok a⟩ := rfl

theorem bind_apply_ok {x : Action α} {state : State} {a : α} (h : (x state).result = .ok a)
    (f : α → Action β) :
    (x >>= f) state =
      ⟨(x state).effects ++ (f a (x state).state).effects, (f a (x state).state).state,
        (f a (x state).state).result⟩ := by
  show bind x f state = _
  simp only [bind, h]

theorem bind_apply_error {x : Action α} {state : State} {e : Failure}
    (h : (x state).result = .error e) (f : α → Action β) :
    (x >>= f) state = ⟨(x state).effects, (x state).state, .error e⟩ := by
  show bind x f state = _
  simp only [bind, h]

end Action

end ScalarScript
