import ScalarScript.Text.Number

/-!
# Script integers

Model of `in_int_range` and `parse_int_literal`, with `INT_MIN`, `INT_MAX` and `MAX_DIGITS`.

Integers in a script are those of 64 bits with a sign. Nothing wraps: a result outside the range is
an error where it arises, and a literal outside the range is no number.

* `Integer.inRange` is the range.
* `Integer.ofDigits?` reads the digits of a literal. Leading zeros are dropped first, and a run of
  more significant digits than the greatest integer has is refused before it is read.

Results: `inRange_iff`; `mostDigits_eq`.
-/

namespace ScalarScript.Integer

/-- The least script integer (`INT_MIN`). -/
def least : Int := -0x8000000000000000

/-- The greatest script integer (`INT_MAX`). -/
def greatest : Int := 0x7fffffffffffffff

/-- The number of digits of the greatest script integer (`MAX_DIGITS`). -/
def mostDigits : Nat := (Text.ofInt greatest).length

/-- Whether a number is a script integer (`in_int_range`). -/
def inRange (n : Int) : Bool := least ≤ n && n ≤ greatest

/-- The digits of a run from its first nonzero digit on. -/
def significant (digits : Text) : Text := digits.dropWhile (·.is '0')

/-- The script integer that a run of decimal digits writes (`parse_int_literal`); the empty run
writes zero. -/
def ofDigits? (digits : Text) : Option Nat :=
  if mostDigits < (significant digits).length then none
  else if (Text.decimalValue (significant digits) : Int) ≤ greatest then
    some (Text.decimalValue (significant digits))
  else none

theorem inRange_iff {n : Int} : inRange n = true ↔ least ≤ n ∧ n ≤ greatest := by
  simp [inRange]

theorem mostDigits_eq : mostDigits = 19 := by decide

end ScalarScript.Integer
