import ScalarScript.Token.Basic

/-!
# Scanning

Model of `tokenize`, with `_scan_literal`, `_is_valid_identifier` and `_decode_error_to_lex`, and of
`LexError`.

A source is scanned line by line. Spaces, tabs and carriage returns separate tokens; two slashes
outside a literal end the line. A literal reaches to the first quote of its kind that no backslash
precedes, on the same line, and its content is decoded at once.

* `lexeme` reads the first token of a text: its kind, or why there is none.
* `scanLine` reads the tokens of a line from a column on.
* `LexError` carries the kind of failure, the text at fault, its place, and the failed literal that
  caused it.

Results: `splitLiteral_append` says that splitting a literal loses nothing but its closing quote.
-/

namespace ScalarScript

/-- Why a source has no tokens (`LexErrorKind`). -/
inductive LexError.Kind where
  | unexpectedChar
  | unterminatedString
  | malformedEscape
  | malformedNumber
  | malformedChar
  | malformedIdentifier
deriving DecidableEq, Repr

namespace LexError.Kind

/-- The kinds of failure in the order in which they are listed. -/
def all : List LexError.Kind :=
  [.unexpectedChar, .unterminatedString, .malformedEscape, .malformedNumber, .malformedChar,
    .malformedIdentifier]

/-- The wording of a kind of failure. -/
def description : LexError.Kind → String
  | unexpectedChar => "Unexpected character"
  | unterminatedString => "Open string is not terminated"
  | malformedEscape => "Invalid escape sequence"
  | malformedNumber => "Invalid number"
  | malformedChar => "Invalid character"
  | malformedIdentifier => "Variable name is not proper"

end LexError.Kind

/-- A source without tokens: the kind of failure, the text at fault and its place. -/
structure LexError where
  kind : LexError.Kind
  detail : Text
  position : Position
  cause : Option Literal.DecodeError
deriving DecidableEq, Repr

/-- The wording of a failure; an empty text at fault is not mentioned. -/
def LexError.message (e : LexError) : Text :=
  Text.of e.kind.description ++
    (if e.detail.isEmpty then [] else Text.of ": " ++ e.detail.quoted) ++
    Text.of " (" ++ e.position.message ++ Text.of ")"

namespace CodePoint

/-- Whether a code point separates tokens within a line. -/
def isBlank (p : CodePoint) : Bool := p.is ' ' || p.is '\t' || p.is '\r'

/-- Whether a code point is an ASCII letter. -/
def isLetter (p : CodePoint) : Bool := p.char?.any Char.isAlpha

/-- Whether a code point may start a name. -/
def startsName (p : CodePoint) : Bool := p.isLetter || p.is '_'

/-- Whether a code point may continue a name or a number. -/
def continuesName (p : CodePoint) : Bool := p.startsName || p.isDigit

end CodePoint

/-- Splits the text behind an opening quote at the closing one (`_scan_literal`). A backslash always
takes the next code point with it. -/
def splitLiteral (quote : Char) : Text → Option (Text × Text)
  | [] => none
  | p :: rest =>
    if p.is '\\' then
      match rest with
      | [] => none
      | q :: rest => (splitLiteral quote rest).map fun parts => (p :: q :: parts.1, parts.2)
    else if p.is quote then some ([], rest)
    else (splitLiteral quote rest).map fun parts => (p :: parts.1, parts.2)

/-- Whether a word is a name (`_is_valid_identifier`): underscores, and then a letter first. -/
def isName (word : Text) : Bool :=
  ((word.dropWhile (·.is '_')).head?.map CodePoint.isLetter).getD false

/-- Why a text does not start with a token. The offset counts from the start of the text. -/
structure BadLexeme where
  kind : LexError.Kind
  detail : Text
  offset : Nat
  cause : Option Literal.DecodeError

/-- A literal that fails to decode, as a failure of the scanner (`_decode_error_to_lex`). -/
def BadLexeme.ofDecode (e : Literal.DecodeError) : BadLexeme where
  kind := if e.kind = .malformedChar then .malformedChar else .malformedEscape
  detail := e.sequence
  offset := e.offset + 1
  cause := some e

/-- The literal that follows an opening quote. -/
def literalLexeme (quote : Char) (decode : Text → Except Literal.DecodeError Token.Kind)
    (behind : Text) : Except BadLexeme (Token.Kind × Text) :=
  match splitLiteral quote behind with
  | none => .error ⟨.unterminatedString, [], 0, none⟩
  | some (raw, _) =>
    match decode raw with
    | .error e => .error (BadLexeme.ofDecode e)
    | .ok kind => .ok (kind, .scalar quote :: (raw ++ [.scalar quote]))

/-- The number at the start of a text, which letters must not follow directly. -/
def numberLexeme (t : Text) : Except BadLexeme (Token.Kind × Text) :=
  let word := t.takeWhile CodePoint.continuesName
  match if word.all CodePoint.isDigit then Integer.ofDigits? word else none with
  | none => .error ⟨.malformedNumber, word, 0, none⟩
  | some n => .ok (.number n, word)

/-- The keyword or name at the start of a text. -/
def wordLexeme (t : Text) : Except BadLexeme (Token.Kind × Text) :=
  let word := t.takeWhile CodePoint.continuesName
  if !isName word then .error ⟨.malformedIdentifier, word, 0, none⟩
  else .ok (((Keyword.ofText? word).map Token.Kind.keyword).getD .identifier, word)

/-- The mark or sign at the start of a text. -/
def signLexeme (p : CodePoint) (t : Text) : Except BadLexeme (Token.Kind × Text) :=
  match Mark.ofCodePoint? p with
  | some m => .ok (.mark m, [p])
  | none =>
    match Symbol.startOf? t with
    | some s => .ok (.symbol s, Text.of s.spelling)
    | none => .error ⟨.unexpectedChar, [p], 0, none⟩

/-- The first token of the text `p :: rest`, which starts with no blank and no comment: its kind
and its text. -/
def lexeme (p : CodePoint) (rest : Text) : Except BadLexeme (Token.Kind × Text) :=
  if p.is '"' then
    literalLexeme '"' (fun raw => (Literal.decodeString raw).map .string) rest
  else if p.is '\'' then
    literalLexeme '\'' (fun raw => (Literal.decodeChar raw).map .char) rest
  else if p.isDigit then numberLexeme (p :: rest)
  else if p.startsName then wordLexeme (p :: rest)
  else signLexeme p (p :: rest)

/-- The tokens of a line, from the text that starts at `column` on. -/
def scanLine (line column : Nat) : Text → Except LexError (List Token)
  | [] => .ok []
  | p :: rest =>
    if p.isBlank then scanLine line (column + 1) rest
    else if Text.startsWith (p :: rest) "//" then .ok []
    else match lexeme p rest with
      | .error bad => .error ⟨bad.kind, bad.detail, ⟨line, column + bad.offset⟩, bad.cause⟩
      | .ok (kind, text) =>
        (scanLine line (column + text.length) (rest.drop (text.length - 1))).map
          (⟨kind, text, ⟨line, column⟩⟩ :: ·)
termination_by text => text.length
decreasing_by
  · simp
  · simp only [List.length_drop, List.length_cons]
    omega

/-- The tokens of lines that are counted from `line` on. -/
def scanLines (line : Nat) : List Text → Except LexError (List Token)
  | [] => .ok []
  | text :: rest => do
    let tokens ← scanLine line 1 text
    return tokens ++ (← scanLines (line + 1) rest)

/-- The place just past the last line. -/
def stopOf (lines : List Text) : Position :=
  ⟨lines.length, (lines.getLast?.getD []).length + 1⟩

/-- The tokens of a source (`tokenize`). -/
def Tokens.scan (source : Text) : Except LexError Tokens :=
  (scanLines 1 source.lines).map fun tokens => ⟨tokens, stopOf source.lines⟩

theorem splitLiteral_append {quote : Char} {t raw rest : Text}
    (h : splitLiteral quote t = some (raw, rest)) : t = raw ++ .scalar quote :: rest := by
  fun_induction splitLiteral quote t generalizing raw with
  | case1 => cases h
  | case2 => cases h
  | case3 p hp q t ih =>
    obtain ⟨⟨a, b⟩, hs, heq⟩ := Option.map_eq_some_iff.mp h
    cases heq
    rw [ih hs]
    rfl
  | case4 p t hp hq =>
    cases h
    simp only [CodePoint.is, beq_iff_eq] at hq
    rw [hq]
    rfl
  | case5 p t hp hq ih =>
    obtain ⟨⟨a, b⟩, hs, heq⟩ := Option.map_eq_some_iff.mp h
    cases heq
    rw [ih hs]
    rfl

end ScalarScript
