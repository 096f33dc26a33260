import ScalarScript.Datum

/-!
# Writing JSON

Model of how `script_to_json` writes a document.

Data as JSON text in ASCII: fields sorted by name, a blank after every comma and colon. What is
not printable ASCII is escaped by the number of its UTF-16 units, so a character beyond U+FFFF
becomes two escapes and a lone surrogate one. Doubles that are not finite are `NaN`, `Infinity`
and `-Infinity`.

Results: `units16_of_lt`, `units16_of_le`.
-/

namespace ScalarScript.Json

/-- The UTF-16 units of a code point. -/
def units16 (p : CodePoint) : List Nat :=
  if p.toNat < 0x10000 then [p.toNat]
  else [0xD800 + (p.toNat - 0x10000) / 0x400, 0xDC00 + (p.toNat - 0x10000) % 0x400]

theorem units16_of_lt {p : CodePoint} (h : p.toNat < 0x10000) : units16 p = [p.toNat] := if_pos h

theorem units16_of_le {p : CodePoint} (h : 0x10000 ≤ p.toNat) :
    units16 p =
      [0xD800 + (p.toNat - 0x10000) / 0x400, 0xDC00 + (p.toNat - 0x10000) % 0x400] :=
  if_neg (by omega)

/-- The escapes that have a letter. -/
def shortEscapes : List (Char × Char) :=
  [('"', '"'), ('\\', '\\'), ('\n', 'n'), ('\r', 'r'), ('\t', 't'), ('\x0c', 'f'), ('\x08', 'b')]

/-- One code point between quotes. -/
def escaped (p : CodePoint) : Text :=
  match shortEscapes.find? fun e => p.is e.1 with
  | some e => [.scalar '\\', .scalar e.2]
  | none =>
    if 0x20 ≤ p.toNat ∧ p.toNat < 0x7F then [p]
    else (units16 p).flatMap fun n => Text.of "\\u" ++ Text.hex 4 n

/-- A text as a JSON string. -/
def string (t : Text) : Text := .scalar '"' :: (t.flatMap escaped ++ [.scalar '"'])

/-- Fields in the order of their names. -/
def sortFields {α : Type} (fields : List (Text × α)) : List (Text × α) :=
  fields.mergeSort fun a b => Text.compare a.1 b.1 != .gt

/-- Data as JSON text. -/
def write : Datum → Text
  | .null => Text.of "null"
  | .bool b => Text.of (if b then "true" else "false")
  | .int n => Text.ofInt n
  | .float x => Layout.document.text x
  | .text t => string t
  | .array items => Text.of "[" ++ Text.join (Text.of ", ") (itemTexts items) ++ Text.of "]"
  | .object fields =>
    Text.of "\x7b" ++
      Text.join (Text.of ", ")
        ((sortFields (fieldTexts fields)).map fun f => string f.1 ++ Text.of ": " ++ f.2) ++
      Text.of "\x7d"
where
  itemTexts : List Datum → List Text
    | [] => []
    | d :: rest => write d :: itemTexts rest
  fieldTexts : List (Text × Datum) → List (Text × Text)
    | [] => []
    | (name, d) :: rest => (name, write d) :: fieldTexts rest

end ScalarScript.Json
