import ScalarScript.Engine.Evaluate

/-!
# The order of evaluation

A node is evaluated by evaluating its operands, from left to right, and combining their values. So
an evaluation fails either at its first operand that fails, with the failure of that one, or at the
node, when all operands have values.

`Expr.operands` lists the operands of a node, and `combine` is what the node makes of their values.

Results:
* `result_mapM_eq_ok_iff`, `result_mapM_eq_error_iff`: a list is evaluated up to its first failure.
* `findFunction_eq_ok`: a call goes to a registered function that accepts its arguments.
* `evaluate_succ`: evaluating is evaluating the operands and combining; `result_evaluate_binary`,
  `evaluate_binary` and `evaluate_unary` for operators.
* **`evaluate_error_iff`**: where an evaluation fails.
-/

namespace ScalarScript

/-- The operands of a node, in the order of evaluation. -/
def Expr.operands : Expr → List Expr
  | string _ _ | char _ _ | int _ _ | bool _ _ | var _ _ => []
  | binary _ left right _ => [left, right]
  | unary _ operand _ => [operand]
  | method target _ arguments _ => target :: arguments
  | call _ arguments _ => arguments
  | index target i _ => [target, i]

/-- What a node makes of the values of its operands, where `text` evaluates text for functions. -/
def combine (engine : Engine) (text : Text → Traced Log.Record Value) (scope : Scope) :
    Expr → List Value → Traced Log.Record Value
  | .string s pos, _ => .ofExcept (checkLength engine.settings.maxStringLength s pos)
  | .char d pos, _ => .ofExcept (characterValue engine.settings.maxStringLength d pos)
  | .int d _, _ | .bool d _, _ => pure d.toValue
  | .var name pos, _ => .ofExcept (readVariable scope name pos)
  | .binary op _ _ pos, [a, b] =>
    .ofExcept (applyBinary engine.settings.maxStringLength op a b pos)
  | .unary op _ pos, [v] => .ofExcept (applyUnary op v pos)
  | .method _ name _ pos, vs | .call name _ pos, vs => callFunction engine text name vs pos
  | .index _ _ pos, [v, w] => .ofExcept (readIndex engine.settings.maxStringLength v w pos)
  -- No node has any other number of operands.
  | .binary _ _ _ _, _ | .unary _ _ _, _ | .index _ _ _, _ => .fail .tooDeep

/-! ## Lists -/

section Lists

variable {ε α β : Type} {f : α → Traced ε β}

theorem mapM_congr {g : α → Traced ε β} {xs : List α} (h : ∀ x ∈ xs, f x = g x) :
    xs.mapM f = xs.mapM g := by
  induction xs with
  | nil => rfl
  | cons x xs ih =>
    obtain ⟨hx, hxs⟩ := List.forall_mem_cons.mp h
    rw [List.mapM_cons, List.mapM_cons, hx, ih hxs]

theorem result_mapM {xs : List α} : (xs.mapM f).result = xs.mapM fun x => (f x).result := by
  induction xs with
  | nil => rfl
  | cons x xs ih =>
    rw [List.mapM_cons, List.mapM_cons, Traced.result_bind]
    simp only [Traced.result_bind, Traced.result_pure, ih]
    rfl

theorem result_mapM_eq_ok_iff {xs : List α} {bs : List β} :
    (xs.mapM f).result = .ok bs ↔ xs.map (fun x => (f x).result) = bs.map .ok := by
  rw [result_mapM, Except.mapM_eq_ok_iff]

theorem result_mapM_eq_error_iff {xs : List α} {e : Failure} :
    (xs.mapM f).result = .error e ↔
      ∃ before x after, xs = before ++ x :: after ∧
        (∀ y ∈ before, ∃ b, (f y).result = .ok b) ∧ (f x).result = .error e := by
  rw [result_mapM, Except.mapM_eq_error_iff]

end Lists

/-! ## Calls -/

/-- A call goes to a registered function that accepts its arguments. -/
theorem findFunction_eq_ok {engine : Engine} {name : Datum} {arguments : List Value}
    {pos : Option Position} {function : HostFunction}
    (h : findFunction engine name arguments pos = .ok function) :
    ∃ r ∈ engine.functions.registrations, r.accepts arguments = true ∧ r.body = function := by
  unfold findFunction at h
  split at h
  · cases h
  · simp only at h
    split at h
    · cases h
    · next r hr =>
      cases h
      split at hr
      · have haccepts := List.find?_some hr
        rw [Bool.and_eq_true] at haccepts
        exact ⟨r, List.mem_of_find?_eq_some hr, haccepts.2, rfl⟩
      · cases hr

/-! ## Nodes -/

/-- Evaluating a node is evaluating its operands and combining their values. -/
theorem evaluate_succ (engine : Engine) (depth : Nat) (scope : Scope) (e : Expr) :
    evaluate engine (depth + 1) scope e =
      e.operands.mapM (evaluate engine depth scope) >>=
        combine engine (evaluateSource (evaluate engine depth) Scope.empty) scope e := by
  cases e with
  | string s pos => simp [evaluate, Expr.operands, combine]
  | char d pos => simp [evaluate, Expr.operands, combine]
  | int d pos => simp [evaluate, Expr.operands, combine]
  | bool d pos => simp [evaluate, Expr.operands, combine]
  | var name pos => simp [evaluate, Expr.operands, combine]
  | binary op left right pos => simp [evaluate, Expr.operands, combine]
  | unary op operand pos => simp [evaluate, Expr.operands, combine]
  | method target name arguments pos => simp [evaluate, Expr.operands, combine]
  | call name arguments pos => rfl
  | index target i pos => simp [evaluate, Expr.operands, combine]

/-- The result of an operator is that of its left side, of its right side, or of the operator. -/
theorem result_evaluate_binary {engine : Engine} {depth : Nat} {scope : Scope}
    {op : BinaryOperator} {left right : Expr} {pos : Option Position} :
    (evaluate engine (depth + 1) scope (.binary op left right pos)).result =
      (evaluate engine depth scope left).result >>= fun a =>
        (evaluate engine depth scope right).result >>= fun b =>
          applyBinary engine.settings.maxStringLength op a b pos := by
  simp only [evaluate, Traced.result_bind]
  rfl

theorem evaluate_binary {engine : Engine} {depth : Nat} {scope : Scope} {op : BinaryOperator}
    {left right : Expr} {pos : Option Position} {a b : Value}
    (ha : (evaluate engine depth scope left).result = .ok a)
    (hb : (evaluate engine depth scope right).result = .ok b) :
    (evaluate engine (depth + 1) scope (.binary op left right pos)).result =
      applyBinary engine.settings.maxStringLength op a b pos := by
  rw [result_evaluate_binary, ha, hb]
  rfl

theorem evaluate_unary {engine : Engine} {depth : Nat} {scope : Scope} {op : UnaryOperator}
    {operand : Expr} {pos : Option Position} {v : Value}
    (hv : (evaluate engine depth scope operand).result = .ok v) :
    (evaluate engine (depth + 1) scope (.unary op operand pos)).result = applyUnary op v pos := by
  simp only [evaluate, Traced.result_bind, hv]
  rfl

/-- **Where an evaluation fails**: at the first operand that does, or at the node. -/
theorem evaluate_error_iff {engine : Engine} {depth : Nat} {scope : Scope} {e : Expr}
    {f : Failure} :
    (evaluate engine (depth + 1) scope e).result = .error f ↔
      (∃ before operand after, e.operands = before ++ operand :: after ∧
        (∀ x ∈ before, ∃ v, (evaluate engine depth scope x).result = .ok v) ∧
        (evaluate engine depth scope operand).result = .error f) ∨
      ∃ vs, e.operands.map (fun x => (evaluate engine depth scope x).result) = vs.map .ok ∧
        (combine engine (evaluateSource (evaluate engine depth) Scope.empty) scope e vs).result =
          .error f := by
  rw [evaluate_succ, Traced.result_bind_eq_error_iff, result_mapM_eq_error_iff]
  simp only [result_mapM_eq_ok_iff]

end ScalarScript
