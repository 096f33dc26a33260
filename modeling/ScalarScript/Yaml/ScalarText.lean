import ScalarScript.Text.Number
import ScalarScript.Yaml.Character

/-!
# Reading scalars

Part of the model of how `script_from_yaml` reads its text.

A scalar is read to its closing quote, or, without quotes, to where something else begins.
Line breaks inside a scalar are folded: blanks around them do not count, a single line feed is a
space, and of several breaks all but a leading line feed are kept.

* A `Gap` is what has been passed since the last character of the scalar: blanks, or line breaks
  with the column reached behind them, or breaks behind an escaped one, which itself counts for
  nothing.
* `quotedFrom` reads behind an opening quote, `plainFrom` reads a plain scalar on. A plain scalar
  goes on in the next line as long as its column is not below a least one, which does not matter
  between the brackets of a flow collection.
-/

namespace ScalarScript.Yaml

/-- What has been passed since the last character of a scalar. -/
inductive Gap where
  | blanks (t : Text)
  | lines (first : CodePoint) (more : Text) (column : Nat)
  | joined (more : Text) (column : Nat)

namespace Gap

def none : Gap := blanks []

/-- Whether a line has ended. -/
def crossed : Gap → Bool
  | blanks _ => false
  | lines _ _ _ | joined _ _ => true

/-- The column reached in a later line. -/
def column? : Gap → Option Nat
  | blanks _ => Option.none
  | lines _ _ column | joined _ column => some column

/-- Passes a blank. -/
def blank (p : CodePoint) : Gap → Gap
  | blanks t => blanks (t ++ [p])
  | lines first more column => lines first more (column + 1)
  | joined more column => joined more (column + 1)

/-- Passes a line break. -/
def lineBreak (p : CodePoint) : Gap → Gap
  | blanks _ => lines p [] 0
  | lines first more _ => lines first (more ++ [p]) 0
  | joined more _ => joined (more ++ [p]) 0

/-- What the gap stands for in front of a further character. -/
def text : Gap → Text
  | blanks t => t
  | lines first more _ =>
    if !first.is '\n' then first :: more else if more.isEmpty then [.scalar ' '] else more
  | joined more _ => more

end Gap

/-- A place in YAML text. `column?` is the column, where a block collection may begin here. -/
structure Cursor where
  rest : Text
  column? : Option Nat

/-- A text that a scalar holds, whether it crosses a line, how many code points were passed to
read it, and what is behind it. -/
structure Scanned where
  text : Text
  crossed : Bool
  size : Nat
  cursor : Cursor

namespace Scanned

/-- What is left where a scalar ends, `n` code points passed. -/
def ending (gap : Gap) (n : Nat) (cursor : Cursor) : Scanned :=
  ⟨gap.text, gap.crossed, n, cursor⟩

/-- More code points passed. -/
def passing (n : Nat) (s : Scanned) : Scanned := { s with size := n + s.size }

/-- The text `t` in front of a scanned one, read from `n` code points. -/
def after (gap : Gap) (t : Text) (n : Nat) (s : Scanned) : Scanned :=
  ⟨gap.text ++ t ++ s.text, gap.crossed || s.crossed, n + s.size, s.cursor⟩

end Scanned

/-- What the letter of a short escape stands for. -/
def shortEscape? (p : CodePoint) : Option Char :=
  match p with
  | .scalar '0' => some '\x00'
  | .scalar 'a' => some '\x07'
  | .scalar 'b' => some '\x08'
  | .scalar 't' => some '\t'
  | .scalar '\t' => some '\t'
  | .scalar 'n' => some '\n'
  | .scalar 'v' => some '\x0b'
  | .scalar 'f' => some '\x0c'
  | .scalar 'r' => some '\r'
  | .scalar 'e' => some '\x1b'
  | .scalar ' ' => some ' '
  | .scalar '"' => some '"'
  | .scalar '\\' => some '\\'
  | .scalar '/' => some '/'
  | .scalar 'N' => some '\u0085'
  | .scalar '_' => some '\u00a0'
  | .scalar 'L' => some '\u2028'
  | .scalar 'P' => some '\u2029'
  | _ => none

/-- The code point that hexadecimal digits number. -/
def numbered? (digits : Text) : Option CodePoint :=
  (Text.hexValue? digits).bind CodePoint.ofNat?

/-- A code point by the digits of an escape, in front of what is scanned behind them. -/
def numberedAfter (gap : Gap) (digits : Text) (behind : Option Scanned) : Option Scanned :=
  match numbered? digits with
  | none => none
  | some p => behind.map fun s => s.after gap [p] (digits.length + 2)

/-- Reads behind an opening quote, in double quotes if `double`, with `gap` passed last. -/
def quotedFrom (double : Bool) (gap : Gap) : Text → Option Scanned
  | [] => none
  | p :: rest =>
    if isBlank p then (quotedFrom double (gap.blank p) rest).map (Scanned.passing 1)
    else if gap.column? == some 0 && startsWithMarker (p :: rest) then none
    else if isBreak p then (quotedFrom double (gap.lineBreak p) rest).map (Scanned.passing 1)
    else if p.is '\'' && !double then
      match rest with
      | .scalar '\'' :: rest => (quotedFrom double .none rest).map fun s => s.after gap [p] 2
      | rest => some (Scanned.ending gap 1 ⟨rest, none⟩)
    else if p.is '"' && double then some (Scanned.ending gap 1 ⟨rest, none⟩)
    else if p.is '\\' && double then
      match rest with
      | [] => none
      | .scalar 'x' :: a :: b :: rest =>
        numberedAfter gap [a, b] (quotedFrom double .none rest)
      | .scalar 'u' :: a :: b :: c :: d :: rest =>
        numberedAfter gap [a, b, c, d] (quotedFrom double .none rest)
      | .scalar 'U' :: a :: b :: c :: d :: e :: f :: g :: h :: rest =>
        numberedAfter gap [a, b, c, d, e, f, g, h] (quotedFrom double .none rest)
      | q :: rest =>
        if isBreak q then
          (quotedFrom double (.joined [] 0) rest).map fun s => s.after gap [] 2
        else match shortEscape? q with
          | none => none
          | some c => (quotedFrom double .none rest).map fun s => s.after gap [.scalar c] 2
    else (quotedFrom double .none rest).map fun s => s.after gap [p] 1

/-- The marks of flow collections at which a plain scalar between brackets ends. -/
def isFlowMark (p : CodePoint) : Bool := isOneOf ",?[]\x7b\x7d" p

/-- Whether the scalar before it ends at `p`. -/
def endsPlain (flow : Bool) (p : CodePoint) (rest : Text) : Bool :=
  isSpace p ||
    (p.is ':' && (startsWithSpace rest || (flow && rest.head?.any (isOneOf ",[]\x7b\x7d")))) ||
    (flow && isFlowMark p)

/-- Whether a plain scalar with `gap` passed last goes on at `p`. -/
def goesOn (flow : Bool) (least : Nat) (gap : Gap) (p : CodePoint) (rest : Text) : Bool :=
  !endsPlain flow p rest &&
    match gap with
    | .blanks [] => true
    | .blanks _ => !p.is '#'
    | .lines _ _ column | .joined _ column =>
      !p.is '#' && (flow || least ≤ column) && !(column = 0 && startsWithMarker (p :: rest))

/-- Reads a plain scalar on, with `gap` passed last. -/
def plainFrom (flow : Bool) (least : Nat) (gap : Gap) : Text → Scanned
  | [] => Scanned.ending .none 0 ⟨[], gap.column?⟩
  | p :: rest =>
    if p.is ' ' then (plainFrom flow least (gap.blank p) rest).passing 1
    else if isBreak p then (plainFrom flow least (gap.lineBreak p) rest).passing 1
    else if goesOn flow least gap p rest then (plainFrom flow least .none rest).after gap [p] 1
    else Scanned.ending .none 0 ⟨p :: rest, gap.column?⟩

/-- Whether a plain scalar may begin at `p`. -/
def startsPlain (flow : Bool) (p : CodePoint) (rest : Text) : Bool :=
  if p.is '-' then !startsWithSpace rest
  else if p.is '?' || p.is ':' then !flow && !startsWithSpace rest
  else !isSpace p && !isOneOf ",[]\x7b\x7d#&*!|>'\"%@\x60" p

end ScalarScript.Yaml
