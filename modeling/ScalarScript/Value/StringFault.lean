import ScalarScript.Value.Basic

/-!
# Faults of string operations

Model of `InvalidScalarError`, `IndexOutOfRangeError` and `UnsupportedOperandError`.

What can go wrong between values and strings, by cause: something is no scalar value, an index is
out of range, or an operand means nothing to an operator. `message` words each.
-/

namespace ScalarScript

/-- Why a string operation has no result. -/
inductive StringFault where
  | notScalar (value : Value)
  | indexOutOfRange (index : Int) (length : Nat)
  | unsupportedOperand (operator : Text) (operand : String)

namespace StringFault

/-- A value that is no scalar: numbers in hexadecimal, a truth value as a number. -/
def shownScalar : Value → Text
  | .int n => Text.ofIntHex n
  | .bool b => Text.ofIntHex (if b then 1 else 0)
  | v => v.shown

/-- The wording of a fault. -/
def message : StringFault → Text
  | notScalar value => Text.of "Not a Unicode scalar value: " ++ shownScalar value
  | indexOutOfRange index length =>
    Text.of "String index " ++ Text.ofInt index ++ Text.of " out of range for length " ++
      Text.ofNat length
  | unsupportedOperand operator operand =>
    Text.of "Unsupported operand type for '" ++ operator ++ Text.of "': " ++ Text.of operand

end StringFault

end ScalarScript
