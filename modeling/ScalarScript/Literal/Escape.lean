import ScalarScript.Text.Quoted

/-!
# Escapes

Model of `ESCAPE_TABLE`, `EscapeDirective`, `DecodeErrorKind` and `DecodeError`.

The escapes a literal may hold, as a table from the character after the backslash to what it
stands for: a fixed scalar, or so many hexadecimal digits of a scalar's number. The active quote
after a backslash stands for itself and is no part of the table.

`DecodeError` says why a literal is no literal, where in it, and which part of its text is at
fault.

Results: `directive?_eq_some_iff` reads the table: no key stands in it twice.
-/

namespace ScalarScript.Literal

/-- What follows a backslash and its key (`EscapeDirective`). -/
inductive Directive where
  | scalar (c : Char)
  | hex (digits : Nat)
deriving DecidableEq, Repr

/-- One row of the table of escapes. -/
structure Escape where
  key : Char
  name : String
  directive : Directive
deriving DecidableEq, Repr

/-- The table of escapes (`ESCAPE_TABLE`). -/
def escapes : List Escape :=
  [⟨'\\', "backslash", .scalar '\\'⟩,
   ⟨'n', "line feed", .scalar '\n'⟩,
   ⟨'t', "tab", .scalar '\t'⟩,
   ⟨'r', "carriage return", .scalar '\r'⟩,
   ⟨'0', "null", .scalar '\x00'⟩,
   ⟨'x', "8-bit hex", .hex 2⟩,
   ⟨'u', "16-bit hex", .hex 4⟩,
   ⟨'U', "32-bit hex", .hex 8⟩]

/-- What the key after a backslash means. -/
def directive? (key : CodePoint) : Option Directive :=
  (escapes.find? fun e => key.is e.key).map Escape.directive

/-- Why a literal fails to decode (`DecodeErrorKind`). -/
inductive DecodeError.Kind where
  | malformedEscape
  | truncatedEscape
  | invalidCodePoint
  | unescapedDelimiter
  | malformedChar
deriving DecidableEq, Repr

/-- The kinds of failure in the order in which they are listed. -/
def DecodeError.Kind.all : List DecodeError.Kind :=
  [.malformedEscape, .truncatedEscape, .invalidCodePoint, .unescapedDelimiter, .malformedChar]

/-- The wording of a kind of failure. -/
def DecodeError.Kind.description : DecodeError.Kind → String
  | malformedEscape => "malformed escape"
  | truncatedEscape => "truncated escape"
  | invalidCodePoint => "invalid code point"
  | unescapedDelimiter => "unescaped delimiter"
  | malformedChar => "malformed character literal"

/-- A literal that fails to decode: the kind of failure, the offset at which it starts in the
literal, and the text at fault. -/
structure DecodeError where
  kind : DecodeError.Kind
  offset : Nat
  sequence : Text
deriving DecidableEq, Repr

/-- The wording of a failure; an empty text at fault is not mentioned. -/
def DecodeError.message (e : DecodeError) : Text :=
  Text.of e.kind.description ++ Text.of " at offset " ++ Text.ofNat e.offset ++
    if e.sequence.isEmpty then [] else Text.of ": " ++ e.sequence.quoted

theorem directive?_eq_some_iff {key : CodePoint} {d : Directive} :
    directive? key = some d ↔ ∃ e ∈ escapes, key = .scalar e.key ∧ e.directive = d := by
  constructor
  · intro h
    obtain ⟨e, he, rfl⟩ := Option.map_eq_some_iff.mp h
    exact ⟨e, List.mem_of_find?_eq_some he, by simpa [CodePoint.is] using List.find?_some he, rfl⟩
  · rintro ⟨e, he, rfl, rfl⟩
    simp only [escapes, List.mem_cons, List.not_mem_nil, or_false] at he
    rcases he with rfl | rfl | rfl | rfl | rfl | rfl | rfl | rfl <;> decide

end ScalarScript.Literal
