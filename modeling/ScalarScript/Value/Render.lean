import ScalarScript.Value.StringFault

/-!
# Values as text

Model of `render_value`.

The text that `+` and `print` make of a value: a string or host text as it is, a truth value in
lower case, an integer in decimal, a double in its shortest form. Nothing else has a text.

Results:
* `render_eq_ok_iff`: a value renders exactly if `plainText?` gives its text.
* `render_operator`: the operator is only named in the fault.
-/

namespace ScalarScript.Value

/-- The text of a value, for the kinds that have one. -/
def plainText? : Value → Option Text
  | string s => some s.text
  | text t => some t
  | bool b => some (Text.of (if b then "true" else "false"))
  | int n => some (Text.ofInt n)
  | float x => some x.text
  | none | list _ | object _ => Option.none

/-- The text of a value as an operand of `operator` (`render_value`). -/
def render (operator : Text) (v : Value) : Except StringFault Text :=
  match v.plainText? with
  | some t => .ok t
  | Option.none => .error (.unsupportedOperand operator v.hostName)

theorem render_eq_ok_iff {operator : Text} {v : Value} {t : Text} :
    v.render operator = .ok t ↔ v.plainText? = some t := by
  unfold render
  split <;> simp_all

theorem render_eq_error_iff {operator : Text} {v : Value} {e : StringFault} :
    v.render operator = .error e ↔
      v.plainText? = Option.none ∧ e = .unsupportedOperand operator v.hostName := by
  unfold render
  split
  · next h => simp [h]
  · next h => simp [h, eq_comm]

theorem render_operator {p q : Text} {v : Value} {t : Text} (h : v.render p = .ok t) :
    v.render q = .ok t := render_eq_ok_iff.mpr (render_eq_ok_iff.mp h)

end ScalarScript.Value
