import ScalarScript.Text.Number
import ScalarScript.Text.Printable

/-!
# Quoted text

Model of text as the messages of `DecodeError`, `LexError` and `ParseError` show it.

How a text is shown inside a message: between quotes, with a backslash before the quote and before
a backslash, short escapes for line feed, carriage return and tab, and hexadecimal escapes for all
that is not printable.

* The quotes are single, unless the text holds a single quote and no double quote.
* A hexadecimal escape has two, four or eight lower-case digits, the fewest that hold the number.

Result: `quoteMark_eq` says when the quotes are double.
-/

namespace ScalarScript.Text

/-- The quotes put around a text. -/
def quoteMark (t : Text) : Char :=
  if t.contains (.scalar '\'') && !t.contains (.scalar '"') then '"' else '\''

/-- A code point by its number: `\xHH`, `\uHHHH` or `\UHHHHHHHH`. -/
def numericEscape (n : Nat) : Text :=
  if n < 0x100 then of "\\x" ++ hex 2 n
  else if n < 0x10000 then of "\\u" ++ hex 4 n
  else of "\\U" ++ hex 8 n

/-- One code point inside quotes `mark`. -/
def quotedUnit (mark : Char) (p : CodePoint) : Text :=
  if p.is mark || p.is '\\' then [.scalar '\\', p]
  else if p.is '\n' then of "\\n"
  else if p.is '\r' then of "\\r"
  else if p.is '\t' then of "\\t"
  else if p.isPrintable then [p]
  else numericEscape p.toNat

/-- A text as messages show it. -/
def quoted (t : Text) : Text :=
  .scalar t.quoteMark :: (t.flatMap (quotedUnit t.quoteMark) ++ [.scalar t.quoteMark])

theorem quoteMark_eq (t : Text) :
    t.quoteMark = '"' ↔ .scalar '\'' ∈ t ∧ .scalar '"' ∉ t := by
  unfold quoteMark
  split <;> simp_all

end ScalarScript.Text
