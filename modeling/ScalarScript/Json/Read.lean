import ScalarScript.Datum

/-!
# Reading JSON

Model of how `script_from_json` reads its text.

A JSON text is one value with blanks around it. Beyond the standard, `NaN`, `Infinity` and
`-Infinity` are numbers, an escape may stand for a lone surrogate, and of two fields with one name
the later value counts. Characters below U+0020 must be escaped.

* `stringUnits` reads a string as units; two escapes that form a surrogate pair are joined by
  `joinUnits`, and nothing else is.
* `value` reads a value with a bound on the number of steps, which the length of the text settles.

Results: `joinUnits_plain`.
-/

namespace ScalarScript.Json

/-- A part of a string: a code point as it stands, or the number of an escape. -/
inductive StringUnit where
  | plain (p : CodePoint)
  | code (n : Nat)

/-- What the letter of a short escape stands for. -/
def shortEscape? (p : CodePoint) : Option Char :=
  match p with
  | .scalar '"' => some '"'
  | .scalar '\\' => some '\\'
  | .scalar '/' => some '/'
  | .scalar 'b' => some '\x08'
  | .scalar 'f' => some '\x0c'
  | .scalar 'n' => some '\n'
  | .scalar 'r' => some '\r'
  | .scalar 't' => some '\t'
  | _ => none

/-- The units up to the closing quote, and what is behind it. -/
def stringUnits : Text → Option (List StringUnit × Text)
  | [] => none
  | p :: rest =>
    if p.is '"' then some ([], rest)
    else if p.is '\\' then
      match rest with
      | [] => none
      | q :: rest =>
        if q.is 'u' then
          match rest with
          | a :: b :: c :: d :: rest =>
            match Text.hexValue? [a, b, c, d] with
            | none => none
            | some n => (stringUnits rest).map fun r => (.code n :: r.1, r.2)
          | _ => none
        else match shortEscape? q with
          | none => none
          | some c => (stringUnits rest).map fun r => (.plain (.scalar c) :: r.1, r.2)
    else if p.toNat < 0x20 then none
    else (stringUnits rest).map fun r => (.plain p :: r.1, r.2)

/-- The character of a surrogate pair. -/
def pair? (high low : Nat) : Option CodePoint :=
  if 0xD800 ≤ high ∧ high < 0xDC00 ∧ 0xDC00 ≤ low ∧ low < 0xE000 then
    CodePoint.ofNat? (0x10000 + (high - 0xD800) * 0x400 + (low - 0xDC00))
  else none

/-- The text that units stand for. -/
def joinUnits : List StringUnit → Text
  | [] => []
  | .plain p :: rest => p :: joinUnits rest
  | .code high :: .code low :: rest =>
    match pair? high low with
    | some p => p :: joinUnits rest
    | none => (CodePoint.ofNat? high).toList ++ joinUnits (.code low :: rest)
  | .code n :: rest => (CodePoint.ofNat? n).toList ++ joinUnits rest

/-- A string behind its opening quote. -/
def string? (t : Text) : Option (Text × Text) :=
  (stringUnits t).map fun r => (joinUnits r.1, r.2)

/-- Whether a code point may stand between the parts of a JSON text. -/
def isBlank (p : CodePoint) : Bool := p.is ' ' || p.is '\t' || p.is '\n' || p.is '\r'

/-- A text without the blanks it starts with. -/
def skipBlanks (t : Text) : Text := t.dropWhile isBlank

/-- What is behind a word at the start of a text. -/
def afterWord? (word : String) (t : Text) : Option Text :=
  if t.startsWith word then some (t.drop word.length) else none

/-- The digits at the start of a text. -/
def digits (t : Text) : Text := t.takeWhile CodePoint.isDigit

/-- The whole part of a number: one zero, or digits that do not start with it. -/
def wholePart? (t : Text) : Option (Text × Text) :=
  match t with
  | [] => none
  | p :: rest =>
    if p.is '0' then some ([p], rest)
    else if p.isDigit then some (digits t, t.drop (digits t).length)
    else none

/-- The digits behind a point, if there are any. -/
def fractionPart (t : Text) : Text × Text :=
  match t with
  | .scalar '.' :: rest =>
    if (digits rest).isEmpty then ([], t) else (digits rest, rest.drop (digits rest).length)
  | _ => ([], t)

/-- The exponent at the start of a text, if there is one. -/
def exponentPart (t : Text) : Option Int × Text :=
  match t with
  | [] => (none, t)
  | p :: rest =>
    if !(p.is 'e' || p.is 'E') then (none, t)
    else
      let (negative, rest) := match rest with
        | .scalar '-' :: rest => (true, rest)
        | .scalar '+' :: rest => (false, rest)
        | rest => (false, rest)
      if (digits rest).isEmpty then (none, t)
      else
        let n : Int := Text.decimalValue (digits rest)
        (some (if negative then -n else n), rest.drop (digits rest).length)

/-- A number without its sign: an integer, unless it has a fraction or an exponent. -/
def unsigned? (negative : Bool) (t : Text) : Option (Datum × Text) := do
  let (whole, rest) ← wholePart? t
  let (fraction, rest) := fractionPart rest
  let (exponent?, rest) := exponentPart rest
  let datum : Datum :=
    if fraction.isEmpty && exponent?.isNone then
      let n : Int := Text.decimalValue whole
      .int (if negative then -n else n)
    else
      .float (Binary64.ofDecimal negative (Text.decimalValue (whole ++ fraction))
        (exponent?.getD 0 - fraction.length))
  return (datum, rest)

/-- A number. -/
def number? (t : Text) : Option (Datum × Text) :=
  match t with
  | .scalar '-' :: rest =>
    match afterWord? "Infinity" rest with
    | some rest => some (.float (Binary64.infinity true), rest)
    | none => unsigned? true rest
  | _ => unsigned? false t

/-- The words that are values. -/
def words : List (String × Datum) :=
  [("null", .null), ("true", .bool true), ("false", .bool false), ("NaN", .float Binary64.nan),
    ("Infinity", .float (Binary64.infinity false))]

/-- A value that is neither a string nor has parts. -/
def atom? (t : Text) : Option (Datum × Text) :=
  match words.findSome? fun w => (afterWord? w.1 t).map fun rest => (w.2, rest) with
  | some r => some r
  | none => number? t

mutual

/-- The value at the start of a text, in at most `bound` steps. -/
def value : (bound : Nat) → Text → Option (Datum × Text)
  | 0, _ => none
  | _ + 1, [] => none
  | bound + 1, p :: rest =>
    if p.is '"' then (string? rest).map fun r => (.text r.1, r.2)
    else if p.is '[' then
      match skipBlanks rest with
      | [] => none
      | q :: behind =>
        if q.is ']' then some (.array [], behind)
        else (items bound (q :: behind)).map fun r => (.array r.1, r.2)
    else if p.is '\x7b' then
      match skipBlanks rest with
      | [] => none
      | q :: behind =>
        if q.is '\x7d' then some (.object [], behind)
        else (fields bound [] (q :: behind)).map fun r => (.object r.1, r.2)
    else atom? (p :: rest)

/-- The items of an array from the first one on. -/
def items : (bound : Nat) → Text → Option (List Datum × Text)
  | 0, _ => none
  | bound + 1, t =>
    match value bound t with
    | none => none
    | some (d, rest) =>
      match skipBlanks rest with
      | [] => none
      | q :: behind =>
        if q.is ']' then some ([d], behind)
        else if q.is ',' then
          (items bound (skipBlanks behind)).map fun r => (d :: r.1, r.2)
        else none

/-- The fields of an object from the next one on, after those already read. -/
def fields : (bound : Nat) → List (Text × Datum) → Text → Option (List (Text × Datum) × Text)
  | 0, _, _ => none
  | _ + 1, _, [] => none
  | bound + 1, seen, p :: rest =>
    if !p.is '"' then none
    else match string? rest with
      | none => none
      | some (name, rest) =>
        match skipBlanks rest with
        | [] => none
        | q :: behind =>
          if !q.is ':' then none
          else match value bound (skipBlanks behind) with
            | none => none
            | some (d, rest) =>
              match skipBlanks rest with
              | [] => none
              | q :: behind =>
                if q.is '\x7d' then some (Datum.setField seen name d, behind)
                else if q.is ',' then
                  fields bound (Datum.setField seen name d) (skipBlanks behind)
                else none

end

/-- The data that a JSON text writes, if it is one. -/
def read (t : Text) : Option Datum :=
  match value (t.length + 1) (skipBlanks t) with
  | some (d, rest) => if (skipBlanks rest).isEmpty then some d else none
  | none => none

theorem joinUnits_plain (t : Text) : joinUnits (t.map .plain) = t := by
  induction t with
  | nil => rfl
  | cons p t ih => rw [List.map_cons, joinUnits, ih]

end ScalarScript.Json
