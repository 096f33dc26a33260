import ScalarScript.Integer
import ScalarScript.Literal.Decode

/-!
# Tokens

Model of `Token`, `TokenType`, `Position` and the tables `KEYWORDS`, `PUNCTUATION` and `OPERATORS`.

A token is a piece of a source line with the place where it starts. Its kind says what it is and,
for a literal, carries the decoded value, so nothing after the scanner sees an escape.

* `Symbol` lists the operator signs, longest first, which is the order they are matched in.
* `Tokens` is the outcome of scanning a source: the tokens, and where the source ends.

Results: `Symbol.spelling_injective`; `Keyword.ofText?_eq_some_iff`.
-/

namespace ScalarScript

/-- A place in a source: line and column, both counted from one. -/
structure Position where
  line : Nat
  column : Nat
deriving DecidableEq, Repr

/-- The wording of a place. -/
def Position.message (p : Position) : Text :=
  Text.of "line " ++ Text.ofNat p.line ++ Text.of ", position " ++ Text.ofNat p.column

/-- The words with a meaning of their own (`KEYWORDS`). -/
inductive Keyword where
  | let_
  | const
  | true_
  | false_
deriving DecidableEq, Repr

namespace Keyword

def all : List Keyword := [.let_, .const, .true_, .false_]

def spelling : Keyword → String
  | let_ => "let"
  | const => "const"
  | true_ => "true"
  | false_ => "false"

/-- The keyword that a word spells. -/
def ofText? (word : Text) : Option Keyword := all.find? fun k => word == Text.of k.spelling

end Keyword

/-- The signs of operators and assignment (`OPERATORS`). -/
inductive Symbol where
  | equal
  | notEqual
  | lessEqual
  | greaterEqual
  | less
  | greater
  | assign
  | plus
  | minus
  | not
deriving DecidableEq, Repr

namespace Symbol

/-- All signs, longer ones before their beginnings. -/
def all : List Symbol :=
  [.equal, .notEqual, .lessEqual, .greaterEqual, .less, .greater, .assign, .plus, .minus, .not]

def spelling : Symbol → String
  | equal => "=="
  | notEqual => "!="
  | lessEqual => "<="
  | greaterEqual => ">="
  | less => "<"
  | greater => ">"
  | assign => "="
  | plus => "+"
  | minus => "-"
  | not => "!"

/-- The first sign in the list that a text starts with. -/
def startOf? (t : Text) : Option Symbol := all.find? fun s => t.startsWith s.spelling

theorem spelling_injective {a b : Symbol} (h : a.spelling = b.spelling) : a = b := by
  revert h
  cases a <;> cases b <;> decide

end Symbol

/-- The marks that stand alone (`PUNCTUATION`). -/
inductive Mark where
  | openParen
  | closeParen
  | openBracket
  | closeBracket
  | dot
  | comma
  | semicolon
deriving DecidableEq, Repr

namespace Mark

def all : List Mark :=
  [.openParen, .closeParen, .openBracket, .closeBracket, .dot, .comma, .semicolon]

def spelling : Mark → Char
  | openParen => '('
  | closeParen => ')'
  | openBracket => '['
  | closeBracket => ']'
  | dot => '.'
  | comma => ','
  | semicolon => ';'

/-- The mark that a code point is. -/
def ofCodePoint? (p : CodePoint) : Option Mark := all.find? fun m => p.is m.spelling

end Mark

/-- What a token is, with the value of a literal (`TokenType`). -/
inductive Token.Kind where
  | string (value : ScalarString)
  | char (value : Char)
  | number (value : Nat)
  | identifier
  | keyword (k : Keyword)
  | symbol (s : Symbol)
  | mark (m : Mark)
deriving DecidableEq

/-- A piece of a source line: its kind, its text and where it starts. -/
structure Token where
  kind : Token.Kind
  text : Text
  position : Position
deriving DecidableEq

/-- The tokens of a source, and the place just past its last line. -/
structure Tokens where
  tokens : List Token
  stop : Position
deriving DecidableEq

theorem Keyword.ofText?_eq_some_iff {word : Text} {k : Keyword} :
    Keyword.ofText? word = some k ↔ word = Text.of k.spelling := by
  constructor
  · intro h
    simpa using List.find?_some h
  · rintro rfl
    cases k <;> decide

end ScalarScript
