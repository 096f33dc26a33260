import ScalarScript.Proofs.Steps
import ScalarScript.Proofs.Evaluation.Order

/-!
# Properties of values

A property of values that every node keeps is kept by whole runs. What a node makes of the values
of its operands is looked at once, where they are combined: variables are read there too, so no
induction on the tree is left, and the operands need not have the property themselves.

* `Scope.All P`: all bound values have the property.
* `Expr.Yields engine P`: in such a scope the expression evaluates to values with the property
  alone.
* `Value.Computed`: what operators make besides strings.

Results:
* `isString_of_characterValue`, `isString_of_readIndex`: what makes strings alone.
* `string_or_computed_of_applyBinary`, `computed_of_applyUnary`: what the operators make.
* `yields_of_combine`: an expression yields what its node makes.
* **`all_stateAfter`**: a run of statements whose expressions yield the property keeps it in the
  scope.
-/

namespace ScalarScript

/-- All bound values have a property. -/
def Scope.All (P : Value → Prop) (scope : Scope) : Prop :=
  ∀ name v, scope.get? name = some v → P v

/-- In a scope whose values have a property, an expression has no other values. -/
def Expr.Yields (engine : Engine) (P : Value → Prop) (e : Expr) : Prop :=
  ∀ depth scope v, scope.All P → (evaluate engine depth scope e).result = .ok v → P v

variable {engine : Engine} {P : Value → Prop} {state : State} {ss : List Statement}

theorem Scope.all_empty (P : Value → Prop) : Scope.empty.All P := nofun

theorem Scope.All.set {scope : Scope} {name : Name} {v : Value} (h : scope.All P) (hv : P v) :
    (scope.set name v).All P := by
  intro other w hw
  rw [get?_set] at hw
  split at hw
  · cases hw
    exact hv
  · exact h other w hw

/-! ## Operators -/

/-- A value that an operator makes, if it is no string: a truth value or a script integer. -/
inductive Value.Computed : Value → Prop
  | bool (b : Bool) : Computed (.bool b)
  | int {n : Int} (h : Integer.inRange n = true) : Computed (.int n)

section Operators

variable {pos : Option Position} {v : Value}

theorem isString_of_checkLength {limit : Option Nat} {s : ScalarString}
    (h : checkLength limit s pos = .ok v) : v.isString = true := by
  unfold checkLength at h
  split at h
  · cases h
    rfl
  · split at h <;> cases h
    rfl

theorem isString_of_joinResult {limit : Option Nat} {r : Except StringFault ScalarString}
    (h : joinResult limit pos r = .ok v) : v.isString = true := by
  unfold joinResult at h
  split at h
  · exact isString_of_checkLength h
  · cases h
  · cases h

theorem isString_of_characterValue {limit : Option Nat} {d : Datum}
    (h : characterValue limit d pos = .ok v) : v.isString = true := by
  unfold characterValue at h
  split at h
  · cases h
  · exact isString_of_checkLength h

theorem isString_of_readIndex {limit : Option Nat} {target index : Value}
    (h : readIndex limit target index pos = .ok v) : v.isString = true := by
  unfold readIndex at h
  split at h
  · split at h
    · split at h
      · cases h
      · exact isString_of_checkLength h
    · cases h
  · cases h

theorem checkRange_eq_ok_iff {n : Int} {operation : Overflow} :
    checkRange n operation pos = .ok v ↔ Integer.inRange n = true ∧ .int n = v := by
  unfold checkRange
  split
  · next h => simp [h]
  · next h => simp [h]

theorem computed_of_checkRange {n : Int} {operation : Overflow}
    (h : checkRange n operation pos = .ok v) : v.Computed := by
  obtain ⟨hn, rfl⟩ := checkRange_eq_ok_iff.mp h
  exact .int hn

/-- Adding makes a string or an integer in range. -/
theorem string_or_computed_of_applyAdd {limit : Option Nat} {a b : Value}
    (h : applyAdd limit a b pos = .ok v) : v.isString = true ∨ v.Computed := by
  unfold applyAdd at h
  split at h
  · exact .inl (isString_of_joinResult h)
  · exact .inl (isString_of_joinResult h)
  · exact .inr (computed_of_checkRange h)
  · cases h

theorem computed_of_applySubtract {a b : Value} (h : applySubtract a b pos = .ok v) :
    v.Computed := by
  unfold applySubtract at h
  split at h
  · exact computed_of_checkRange h
  · cases h

theorem computed_of_applyComparison {c : Comparison} {a b : Value}
    (h : applyComparison c a b pos = .ok v) : v.Computed := by
  unfold applyComparison at h
  split at h
  · cases h
    exact .bool _
  · cases h
    exact .bool _
  · split at h <;> cases h <;> exact .bool _
  · cases h

theorem string_or_computed_of_applyBinary {limit : Option Nat} {op : BinaryOperator} {a b : Value}
    (h : applyBinary limit op a b pos = .ok v) : v.isString = true ∨ v.Computed := by
  cases op with
  | add => exact string_or_computed_of_applyAdd h
  | subtract => exact .inr (computed_of_applySubtract h)
  | compare c => exact .inr (computed_of_applyComparison h)

theorem computed_of_applyUnary {op : UnaryOperator} {a : Value} (h : applyUnary op a pos = .ok v) :
    v.Computed := by
  unfold applyUnary at h
  split at h
  · exact computed_of_checkRange h
  · cases h
    exact .bool _
  · cases h

end Operators

/-! ## Expressions -/

theorem readVariable_eq_ok_iff {scope : Scope} {name : Datum} {pos : Option Position} {v : Value} :
    readVariable scope name pos = .ok v ↔
      ∃ key, Name.ofDatum? name = some key ∧ scope.get? key = some v := by
  unfold readVariable
  split
  · next h => simp [h]
  · next key h =>
    split
    · next hv => simp [h, hv]
    · next hv => simp [h, hv]

/-- A variable has the value that is bound to its name. -/
theorem evaluate_var {engine : Engine} {scope : Scope} {x : Text} {pos : Option Position}
    {v : Value} (depth : Nat) (hx : scope.get? (.text x) = some v) :
    (evaluate engine (depth + 1) scope (.var (.text x) pos)).result = .ok v := by
  show readVariable scope (.text x) pos = .ok v
  exact readVariable_eq_ok_iff.mpr ⟨_, rfl, hx⟩

theorem yields_of_combine {e : Expr}
    (h : ∀ text scope vs v, scope.All P → (combine engine text scope e vs).result = .ok v → P v) :
    e.Yields engine P := by
  intro depth scope v hscope hv
  cases depth with
  | zero => cases hv
  | succ depth =>
    rw [evaluate_succ, Traced.result_bind_eq_ok_iff] at hv
    obtain ⟨vs, -, hv⟩ := hv
    exact h _ scope vs v hscope hv

/-! ## Runs -/

/-- A planned change binds a value of an expression, or a string with one scalar replaced. -/
theorem Planned.property_of_binding {s : Statement} {c : Change} {key : Name} {v : Value}
    (h : Planned (evaluate engine Engine.depth state.scope) state s c)
    (hb : c.binding? = some (key, v)) (hscope : state.scope.All P)
    (hvalue : ∀ e ∈ s.expressions, e.Yields engine P)
    (hreplace : ∀ s t i c, P (.string s) → s.replacedAt i c = .ok t → P (.string t)) : P v := by
  cases h with
  | declare hv | constant hv | assign _ hv =>
    cases hb
    exact hvalue _ List.mem_cons_self _ _ _ hscope hv
  | indexAssign ht _ _ _ hr =>
    cases hb
    exact hreplace _ _ _ _ (hscope _ _ (assignable_eq_ok_iff.mp ht).2.1) hr
  | print | expression => cases hb

namespace Engine

/-- **A run keeps in the scope what its expressions yield**, whether or not statements fail. -/
theorem all_stateAfter (hstart : state.scope.All P)
    (hvalue : ∀ s ∈ ss, ∀ e ∈ s.expressions, e.Yields engine P)
    (hreplace : ∀ s t i c, P (.string s) → s.replacedAt i c = .ok t → P (.string t)) :
    (engine.stateAfter state ss).scope.All P := by
  refine stateAfter_induction (I := fun state => state.scope.All P) hstart
    (engine.along_mem state ss) fun state s c hscope hs hc name v hv => ?_
  cases hb : c.binding? with
  | none =>
    rw [Change.scope_apply_of_none hb] at hv
    exact hscope name v hv
  | some b =>
    rw [Change.get?_apply hb] at hv
    split at hv
    · cases hv
      exact hc.property_of_binding hb hscope (hvalue s hs) hreplace
    · exact hscope name v hv

theorem all_execute {script : Script} {scope : Scope} {final : State} (hstart : scope.All P)
    (hvalue : ∀ s ∈ script.statements, ∀ e ∈ s.expressions, e.Yields engine P)
    (hreplace : ∀ s t i c, P (.string s) → s.replacedAt i c = .ok t → P (.string t))
    (h : (engine.execute script scope).result = .ok final) : final.scope.All P := by
  rw [result_execute] at h
  rw [← stateAfter_of_executeAll h]
  exact all_stateAfter hstart hvalue hreplace

/-- A value of an expression that is given as text. -/
theorem evaluateText_eq_ok_iff {source : Text} {scope : Scope} {v : Value} :
    (engine.evaluateText source scope).result = .ok v ↔
      ∃ e, Expr.parse source = .ok e ∧ (evaluate engine depth scope e).result = .ok v := by
  simp only [evaluateText, evaluateSource, Traced.result_bind_eq_ok_iff, Expr.traced_eq_ok_iff,
    Traced.result_mapFailure, Except.mapError_eq_ok_iff]

end Engine

end ScalarScript
