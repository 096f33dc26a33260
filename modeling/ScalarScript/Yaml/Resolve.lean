import ScalarScript.Datum
import ScalarScript.Yaml.Character

/-!
# What a plain scalar stands for

Part of the model of how `script_from_yaml` reads its text.

A scalar without quotes stands for nothing, a truth value, a number or a date where it is spelled
like one, and for its own text otherwise.

* Integers may be binary (`0b`), octal (a leading zero), hexadecimal (`0x`) or in base 60 with
  colons; floating-point numbers need a point, and a sign in their exponent. Underscores between
  digits do not count.
* A date is recognised, but is not plain data. Some words are reserved and stand for nothing at
  all.
-/

namespace ScalarScript.Yaml

/-- What a plain scalar stands for. -/
inductive Resolution where
  | text
  | datum (d : Datum)
  | date
  | reserved

/-- The words that stand for a truth value or for nothing. -/
def words : List (String × Datum) :=
  (["~", "null", "Null", "NULL", ""].map fun w => (w, .null)) ++
    (["yes", "Yes", "YES", "true", "True", "TRUE", "on", "On", "ON"].map fun w =>
      (w, .bool true)) ++
    ["no", "No", "NO", "false", "False", "FALSE", "off", "Off", "OFF"].map fun w =>
      (w, .bool false)

/-- The words that may not stand on their own. -/
def reservedWords : List String := ["=", "<<", "!", "&", "*"]

/-- A sign at the start of a text, as whether it is a minus, and what is behind it. -/
def splitSign (t : Text) : Bool × Text :=
  match t with
  | .scalar '-' :: rest => (true, rest)
  | .scalar '+' :: rest => (false, rest)
  | _ => (false, t)

/-- The parts of a text between the places where `c` stands. -/
def splitAt (c : Char) : Text → List Text
  | [] => [[]]
  | p :: rest =>
    if p.is c then [] :: splitAt c rest
    else match splitAt c rest with
      | [] => [[p]]
      | part :: parts => (p :: part) :: parts

/-- Whether a code point is a digit below `base`. -/
def isDigitBelow (base : Nat) (p : CodePoint) : Bool := p.hexDigit?.any (· < base)

/-- Whether a text holds nothing but digits below `base` and underscores. -/
def isDigits (base : Nat) (t : Text) : Bool := t.all fun p => p.is '_' || isDigitBelow base p

/-- The number that digits write, underscores left out. -/
def digitsValue (base : Nat) (t : Text) : Nat :=
  t.foldl (fun n p => match p.hexDigit? with
    | some d => n * base + d
    | none => n) 0

/-- Whether a text is one or two digits that write a number below 60. -/
def isSixtieth : Text → Bool
  | [p] => p.isDigit
  | [p, q] => isDigitBelow 6 p && q.isDigit
  | _ => false

/-- The number that parts in base 60 write. -/
def sixtiethsValue (parts : List Text) : Nat :=
  parts.foldl (fun n part => n * 60 + digitsValue 10 part) 0

/-- A whole number without its sign. -/
def natural? (t : Text) : Option Nat :=
  match t with
  | .scalar '0' :: .scalar 'b' :: rest =>
    if !rest.isEmpty && isDigits 2 rest then some (digitsValue 2 rest) else none
  | .scalar '0' :: .scalar 'x' :: rest =>
    if !rest.isEmpty && isDigits 16 rest then some (digitsValue 16 rest) else none
  | .scalar '0' :: rest => if isDigits 8 rest then some (digitsValue 8 rest) else none
  | p :: rest =>
    if !p.isDigit then none
    else if isDigits 10 rest then some (digitsValue 10 t)
    else match splitAt ':' t with
      | first :: next :: more =>
        if isDigits 10 first && (next :: more).all isSixtieth then
          some (sixtiethsValue (first :: next :: more))
        else none
      | _ => none
  | [] => none

/-- A whole number. -/
def int? (t : Text) : Option Int :=
  (natural? (splitSign t).2).map fun n => if (splitSign t).1 then -(n : Int) else n

/-- An exponent with its sign, to the end of the text. -/
def exponent? (t : Text) : Option Int :=
  match t with
  | [] => some 0
  | p :: .scalar '-' :: digits =>
    if p.is 'e' || p.is 'E' then (Text.decimalValue? digits).map fun n => -(n : Int) else none
  | p :: .scalar '+' :: digits =>
    if p.is 'e' || p.is 'E' then (Text.decimalValue? digits).map Int.ofNat else none
  | _ => none

/-- Whether a code point is a decimal digit or an underscore. -/
def isDecimalOrUnderscore (p : CodePoint) : Bool := p.is '_' || p.isDigit

/-- The double with a whole part, the digits behind the point, and an exponent. -/
def doubleOf (negative : Bool) (whole : Nat) (fraction : Text) (exponent : Int) : Binary64 :=
  let places := fraction.countP CodePoint.isDigit
  Binary64.ofDecimal negative (whole * Nat.pow 10 places + digitsValue 10 fraction)
    (exponent - places)

/-- The whole part of a double: digits, perhaps in base 60. -/
def wholePart? (t : Text) : Option (Nat × Bool) :=
  match splitAt ':' t with
  | first :: parts =>
    if first.head?.any CodePoint.isDigit && isDigits 10 first && parts.all isSixtieth then
      some (sixtiethsValue (first :: parts), !parts.isEmpty)
    else none
  | [] => none

/-- A double. One without a whole part has no sign, and one in base 60 has no exponent. -/
def float? (t : Text) : Option Binary64 :=
  let (negative, u) := splitSign t
  if [".inf", ".Inf", ".INF"].any fun w => u == Text.of w then some (Binary64.infinity negative)
  else if [".nan", ".NaN", ".NAN"].any fun w => t == Text.of w then some Binary64.nan
  else
    let whole := u.takeWhile fun p => !p.is '.'
    match u.dropWhile fun p => !p.is '.' with
    | [] => none
    | _ :: behind =>
      let fraction := behind.takeWhile isDecimalOrUnderscore
      match exponent? (behind.dropWhile isDecimalOrUnderscore) with
      | none => none
      | some e =>
        if t.head?.any (·.is '.') then
          if fraction.head?.any CodePoint.isDigit then some (doubleOf false 0 fraction e) else none
        else match wholePart? whole with
          | none => none
          | some (n, sixtieths) =>
            if sixtieths && fraction.length ≠ behind.length then none
            else some (doubleOf negative n fraction e)

/-- What is behind `least` to `most` digits. -/
def afterDigits? (least most : Nat) (t : Text) : Option Text :=
  let count := ((t.take most).takeWhile CodePoint.isDigit).length
  if least ≤ count then some (t.drop count) else none

/-- What is behind a character. -/
def after? (c : Char) (t : Text) : Option Text :=
  match t with
  | [] => none
  | p :: rest => if p.is c then some rest else none

/-- Whether a text is nothing or the distance of a time from Greenwich. -/
def isZone (t : Text) : Bool :=
  t.isEmpty ||
    match t.dropWhile isBlank with
    | [.scalar 'Z'] => true
    | p :: rest =>
      (p.is '-' || p.is '+') &&
        match afterDigits? 1 2 rest with
        | some [] => true
        | some (.scalar ':' :: rest) => afterDigits? 2 2 rest == some []
        | _ => false
    | [] => false

/-- What is behind the separator of a date and a time. -/
def afterDateSeparator? (t : Text) : Option Text :=
  match t with
  | [] => none
  | p :: rest =>
    if p.is 'T' || p.is 't' then some rest
    else if isBlank p then some (rest.dropWhile isBlank)
    else none

/-- Whether a text is a time of a day. -/
def isTime (t : Text) : Bool :=
  match (do
    let t ← after? ':' (← afterDigits? 1 2 t)
    let t ← after? ':' (← afterDigits? 2 2 t)
    afterDigits? 2 2 t) with
  | none => false
  | some (.scalar '.' :: rest) => isZone (rest.dropWhile CodePoint.isDigit)
  | some rest => isZone rest

/-- Whether a text is a date of ten characters, or a date with a time. -/
def isDate (t : Text) : Bool :=
  let full := do
    let t ← after? '-' (← afterDigits? 4 4 t)
    let t ← after? '-' (← afterDigits? 2 2 t)
    afterDigits? 2 2 t
  let timed := do
    let t ← after? '-' (← afterDigits? 4 4 t)
    let t ← after? '-' (← afterDigits? 1 2 t)
    afterDateSeparator? (← afterDigits? 1 2 t)
  full == some [] || timed.any isTime

/-- What a plain scalar stands for. -/
def resolve (t : Text) : Resolution :=
  match words.find? fun w => t == Text.of w.1 with
  | some w => .datum w.2
  | none =>
    if reservedWords.any fun w => t == Text.of w then .reserved
    else match int? t with
      | some n => .datum (.int n)
      | none =>
        match float? t with
        | some x => .datum (.float x)
        | none => if isDate t then .date else .text

end ScalarScript.Yaml
