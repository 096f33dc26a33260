import ScalarScript.Json.Write
import ScalarScript.Yaml.Style

/-!
# Writing YAML

Model of how `script_to_yaml` writes a document.

Plain data in block layout: the fields of an object one to a line, sorted by name, what they hold
two columns further in; the dashes of an array in the column of the key it belongs to.

Long scalars are folded. A line past column 80 goes on in the next one, two columns inside the keys
around it:

* without quotes and in single quotes, a space that stands alone becomes the line break;
* in double quotes, the line ends in a backslash, and so begins a line that goes on with a space.
-/

namespace ScalarScript.Yaml

/-- The column after which a line is folded. -/
def width : Nat := 80

/-- Spaces up to a column. -/
def pad (column : Nat) : Text := List.replicate column (.scalar ' ')

/-- A new line that begins in a column. -/
def newLine (column : Nat) : Text := .scalar '\n' :: pad column

/-- A text without quotes, or between single quotes if `quoting`, after `previous` and from
`column` on. Of line breaks in a row, a leading line feed is written twice, for one of the two is
folded away. -/
def foldFrom (quoting : Bool) (indent : Nat) (previous : Option CodePoint) (column : Nat) :
    Text → Text
  | [] => []
  | p :: rest =>
    if isBreak p then
      (if p.is '\n' && !previous.any isBreak then [p] else []) ++ p ::
        if rest.head?.any isBreak then foldFrom quoting indent (some p) 0 rest
        else pad indent ++ foldFrom quoting indent (some p) indent rest
    else if p.is ' ' && previous.any (!·.is ' ') && rest.head?.any (!·.is ' ') &&
        width < column then
      newLine indent ++ foldFrom quoting indent (some p) indent rest
    else if p.is '\'' && quoting then
      p :: p :: foldFrom quoting indent (some p) (column + 2) rest
    else p :: foldFrom quoting indent (some p) (column + 1) rest

/-- The escapes that have a letter. -/
def shortEscapes : List (Char × Char) :=
  [('\x00', '0'), ('\x07', 'a'), ('\x08', 'b'), ('\t', 't'), ('\n', 'n'), ('\x0b', 'v'),
    ('\x0c', 'f'), ('\r', 'r'), ('\x1b', 'e'), ('"', '"'), ('\\', '\\'), ('\u0085', 'N'),
    ('\u2028', 'L'), ('\u2029', 'P')]

/-- The escape of a code point between double quotes, if it needs one. -/
def escape? (p : CodePoint) : Option Text :=
  match shortEscapes.find? fun e => p.is e.1 with
  | some e => some [.scalar '\\', .scalar e.2]
  | none =>
    let n := p.toNat
    if (0x20 ≤ n && n ≤ 0x7E) || (0xA0 ≤ n && n ≤ 0xD7FF) ||
        (0xE000 ≤ n && n ≤ 0xFFFD && n ≠ 0xFEFF) then none
    else if n ≤ 0xFF then some (Text.of "\\x" ++ Text.upperHex 2 n)
    else if n ≤ 0xFFFF then some (Text.of "\\u" ++ Text.upperHex 4 n)
    else some (Text.of "\\U" ++ Text.upperHex 8 n)

/-- A text between double quotes from `column` on. A line is broken at a space and behind an
escape, but neither at the first nor at the last code point; `pending` says that something stands
between the last escape or break and here. -/
def doubleFrom (indent : Nat) (first pending : Bool) (column : Nat) : Text → Text
  | [] => []
  | p :: rest =>
    match escape? p with
    | some e =>
      if !first && !rest.isEmpty && width + 1 < column + e.length then
        e ++ .scalar '\\' :: newLine indent ++
          if rest.head?.any (·.is ' ') then
            .scalar '\\' :: doubleFrom indent false false (indent + 1) rest
          else doubleFrom indent false false indent rest
      else e ++ doubleFrom indent false false (column + e.length) rest
    | none =>
      if !first && !rest.isEmpty && (p.is ' ' || !pending) && width < column then
        .scalar '\\' :: newLine indent ++
          if p.is ' ' then .scalar '\\' :: p :: doubleFrom indent false true (indent + 2) rest
          else p :: doubleFrom indent false true (indent + 1) rest
      else p :: doubleFrom indent false true (column + 1) rest

/-- A text as a scalar that begins in `column` and goes on in `indent`. -/
def textScalar (indent column : Nat) (t : Text) : Text :=
  match style t with
  | .plain => foldFrom false indent none column t
  | .single => .scalar '\'' :: (foldFrom true indent none (column + 1) t ++ [.scalar '\''])
  | .double => .scalar '"' :: (doubleFrom indent true false (column + 1) t ++ [.scalar '"'])

/-- The name of a field, within one line. -/
def keyText (name : Text) : Text :=
  match style name with
  | .plain => name
  | .single | .double =>
    .scalar '"' :: (name.flatMap (fun p => (escape? p).getD [p]) ++ [.scalar '"'])

/-- A double with a point in front of an exponent. -/
def floatText (x : Binary64) : Text :=
  let t := { Layout.plain with nan := ".nan", infinity := ".inf" : Layout }.text x
  if t.any (·.is '.') then t
  else t.takeWhile (!·.is 'e') ++ Text.of ".0" ++ t.dropWhile (!·.is 'e')

/-- A scalar, or a collection with nothing in it. -/
def scalar (indent column : Nat) : Datum → Text
  | .null => Text.of "null"
  | .bool b => Text.of (if b then "true" else "false")
  | .int n => Text.ofInt n
  | .float x => floatText x
  | .text t => textScalar indent column t
  | .array _ => Text.of "[]"
  | .object _ => Text.of "\x7b\x7d"

/-- Data behind the colon of a key in the column `indent`, the colon itself in front of `column`. -/
def fieldText (indent column : Nat) : Datum → Text
  | .array (d :: rest) =>
    newLine indent ++ Text.join (newLine indent) (itemTexts indent (d :: rest))
  | .object (f :: rest) =>
    newLine (indent + 2) ++ entries (indent + 2) (fieldTexts (indent + 2) (f :: rest))
  | d => .scalar ' ' :: scalar (indent + 2) (column + 1) d
where
  /-- The fields of an object as the lines of a mapping. -/
  entries (indent : Nat) (fields : List (Text × Text)) : Text :=
    Text.join (newLine indent)
      ((Json.sortFields fields).map fun f => keyText f.1 ++ .scalar ':' :: f.2)
  /-- Data behind the dash of an item in the column `indent`. -/
  itemText (indent : Nat) : Datum → Text
    | .array (d :: rest) =>
      .scalar ' ' :: Text.join (newLine (indent + 2)) (itemTexts (indent + 2) (d :: rest))
    | .object (f :: rest) =>
      .scalar ' ' :: entries (indent + 2) (fieldTexts (indent + 2) (f :: rest))
    | d => .scalar ' ' :: scalar (indent + 2) (indent + 2) d
  itemTexts (indent : Nat) : List Datum → List Text
    | [] => []
    | d :: rest => (.scalar '-' :: itemText indent d) :: itemTexts indent rest
  fieldTexts (indent : Nat) : List (Text × Datum) → List (Text × Text)
    | [] => []
    | (name, d) :: rest =>
      (name, fieldText indent (indent + (keyText name).length + 1) d) :: fieldTexts indent rest

/-- Data as YAML text. -/
def write (d : Datum) : Text :=
  (match d with
    | .array (d :: rest) => Text.join (newLine 0) (fieldText.itemTexts 0 (d :: rest))
    | .object (f :: rest) => fieldText.entries 0 (fieldText.fieldTexts 0 (f :: rest))
    | d => scalar 2 0 d) ++ newLine 0

end ScalarScript.Yaml
