import ScalarScript.Text.CodePoint

/-!
# Numbers as text

Model of numbers as `render_value` and the messages of `InvalidScalarError` write them.

Whole numbers in decimal and in fixed-width hexadecimal, written and read.

* `Text.ofNat` and `Text.ofInt` write decimal digits without grouping or leading zeros.
* `Text.hex` pads with zeros to a least width; `Text.hexValue?` reads digits of either case.

Results: `decimalValue?_ofNat` reads back what was written; `all_isDigit_ofNat` says it is digits.
-/

namespace ScalarScript

namespace CodePoint

/-- An ASCII decimal digit. -/
def isDigit (p : CodePoint) : Bool := p.char?.any Char.isDigit

theorem bounds_of_isDigit {p : CodePoint} (h : p.isDigit = true) :
    48 ≤ p.toNat ∧ p.toNat ≤ 57 := by
  cases p with
  | surrogate i => cases h
  | scalar c =>
    simp only [isDigit, char?, Option.any_some, Char.isDigit, Bool.and_eq_true,
      decide_eq_true_eq] at h
    exact h

/-- The value of a hexadecimal digit of either case. -/
def hexDigit? (p : CodePoint) : Option Nat :=
  match p.char? with
  | none => none
  | some c =>
    if '0' ≤ c ∧ c ≤ '9' then some (c.toNat - '0'.toNat)
    else if 'a' ≤ c ∧ c ≤ 'f' then some (c.toNat - 'a'.toNat + 10)
    else if 'A' ≤ c ∧ c ≤ 'F' then some (c.toNat - 'A'.toNat + 10)
    else none

end CodePoint

namespace Text

/-- The decimal digits of `n`. -/
def ofNat (n : Nat) : Text := ofChars (Nat.toDigits 10 n)

/-- The decimal text of `n`, with a minus sign for a negative number. -/
def ofInt : Int → Text
  | .ofNat n => ofNat n
  | .negSucc n => .scalar '-' :: ofNat (n + 1)

/-- The lower-case hexadecimal digits of `n`, with zeros in front up to `width` digits. -/
def hex (width n : Nat) : Text := ofChars ((Nat.toDigits 16 n).leftpad width '0')

/-- The upper-case form of `hex`. -/
def upperHex (width n : Nat) : Text :=
  ofChars (((Nat.toDigits 16 n).map Char.toUpper).leftpad width '0')

/-- `n` in hexadecimal after `0x`, with a minus sign for a negative number. -/
def ofIntHex : Int → Text
  | .ofNat n => of "0x" ++ hex 1 n
  | .negSucc n => of "-0x" ++ hex 1 (n + 1)

/-- The value of a run of hexadecimal digits, if it holds nothing else. -/
def hexValue? (t : Text) : Option Nat :=
  t.foldl (fun value? p => do return (← value?) * 16 + (← p.hexDigit?)) (some 0)

/-- The value of a run of decimal digits; the empty run is zero. -/
def decimalValue (t : Text) : Nat := Nat.ofDigitChars 10 t.chars 0

/-- The value of a nonempty run of decimal digits, if it holds nothing else. -/
def decimalValue? (t : Text) : Option Nat :=
  if !t.isEmpty && t.all CodePoint.isDigit then some t.decimalValue else none

/-- The integer a text writes in decimal after at most one sign. -/
def intValue? (t : Text) : Option Int :=
  match t with
  | .scalar '-' :: digits => (decimalValue? digits).map fun n => -(n : Int)
  | .scalar '+' :: digits => (decimalValue? digits).map Int.ofNat
  | digits => (decimalValue? digits).map Int.ofNat

theorem all_isDigit_ofNat (n : Nat) : (ofNat n).all CodePoint.isDigit = true := by
  rw [List.all_eq_true]
  intro p hp
  obtain ⟨c, hc, rfl⟩ := List.mem_map.mp hp
  simpa [CodePoint.isDigit, CodePoint.char?] using
    Nat.isDigit_of_mem_toDigits (by decide) (by decide) hc

theorem decimalValue_ofNat (n : Nat) : (ofNat n).decimalValue = n := by
  rw [decimalValue, ofNat, chars_ofChars, Nat.ofDigitChars_toDigits (by decide) (by decide)]

theorem ofNat_ne_nil (n : Nat) : ofNat n ≠ [] := by
  simp [ofNat, ofChars, Nat.toDigits_ne_nil]

theorem decimalValue?_ofNat (n : Nat) : decimalValue? (ofNat n) = some n := by
  simp [decimalValue?, all_isDigit_ofNat, decimalValue_ofNat, ofNat_ne_nil]

end Text

end ScalarScript
