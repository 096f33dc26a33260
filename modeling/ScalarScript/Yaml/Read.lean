import ScalarScript.Yaml.Node
import ScalarScript.Yaml.ScalarText

/-!
# Reading YAML

Model of how `script_from_yaml` reads its text.

A YAML text holds one document: a node in block layout, which columns give its shape, or between
brackets, where columns do not matter. Comments run from `#` to the end of the line.

* A block collection begins only where a line begins or behind the dash of an item. Its entries
  stand in one column; what is inside an entry stands further to the right, except that the items
  of a sequence may stand in the column of the key they belong to.
* A key is a scalar within one line, at most 1024 characters before its colon.
* Every function that reads a part stops where it cannot go on. What is left over is an error of
  the whole text, so no function has to look for it.
* Explicit keys, anchors, tags, directives and literal blocks are not read.
-/

namespace ScalarScript.Yaml

/-- A text behind blanks, comments and line breaks. `column?` is the column, where a block
collection may begin. -/
def skipFrom (comment : Bool) (column : Nat) (fresh : Bool) : Text → Cursor
  | [] => ⟨[], if fresh then some column else none⟩
  | p :: rest =>
    if isBreak p then skipFrom false 0 true rest
    else if comment then skipFrom true (column + 1) fresh rest
    else if p.is ' ' then skipFrom false (column + 1) fresh rest
    else if p.is '#' then skipFrom true (column + 1) fresh rest
    else ⟨p :: rest, if fresh then some column else none⟩

/-- The next place where there is something to read. -/
def Cursor.skip (c : Cursor) : Cursor := skipFrom false (c.column?.getD 0) c.column?.isSome c.rest

/-- What is behind the mark `c`, which stands before space. -/
def afterMark? (c : Char) (t : Text) : Option Text :=
  match t with
  | [] => none
  | p :: rest => if p.is c && startsWithSpace rest then some rest else none

/-- Whether a document marker stands here. -/
def Cursor.atMarker (c : Cursor) : Bool := c.column? == some 0 && startsWithMarker c.rest

/-- The scalar that begins here, if one does. -/
def scalar? (flow : Bool) (least : Nat) (c : Cursor) : Option (Scalar × Scanned) :=
  match c.rest with
  | [] => none
  | p :: rest =>
    if p.is '\'' || p.is '"' then
      (quotedFrom (p.is '"') .none rest).map fun s => (⟨true, s.text⟩, s.passing 1)
    else if startsPlain flow p rest then
      let s := plainFrom flow least .none (p :: rest)
      some (⟨false, s.text⟩, s)
    else none

/-- The most characters that may stand before the colon of a key. -/
def longestKey : Nat := 1024

/-- What is behind the colon that makes a key of a scalar. -/
def afterKey? (flow : Bool) (s : Scanned) : Option Text :=
  let spaces := s.cursor.rest.takeWhile (·.is ' ')
  if s.crossed || s.cursor.column?.isSome || longestKey < s.size + spaces.length then none
  else
    let t := s.cursor.rest.drop spaces.length
    if flow then after? ':' t else afterMark? ':' t

/-- The key that begins here, and what is behind its colon. -/
def key? (flow : Bool) (least : Nat) (c : Cursor) : Option (Scalar × Text) :=
  match scalar? flow least c with
  | none => none
  | some (key, s) => (afterKey? flow s).map fun rest => (key, rest)

/-! ## Between brackets -/

/-- A key between brackets without a colon. -/
def loneKey? (c : Cursor) : Option ((Scalar × Node) × Cursor) :=
  if c.atMarker then none
  else (scalar? true 0 c).map fun r => ((r.1, .empty), r.2.cursor)

mutual

/-- The node that begins here, between brackets. -/
def flowNode : (bound : Nat) → Cursor → Option (Node × Cursor)
  | 0, _ => none
  | bound + 1, c =>
    if c.atMarker then none
    else match after? '[' c.rest, after? '\x7b' c.rest with
      | some rest, _ =>
        (flowItems bound (Cursor.skip ⟨rest, none⟩)).map fun r => (.sequence r.1, r.2)
      | _, some rest =>
        (flowEntries bound (Cursor.skip ⟨rest, none⟩)).map fun r => (.mapping r.1, r.2)
      | none, none => (scalar? true 0 c).map fun r => (.scalar r.1, r.2.cursor)

/-- The value behind the colon of a key between brackets; it may be missing. -/
def flowValue : (bound : Nat) → Cursor → Option (Node × Cursor)
  | 0, _ => none
  | bound + 1, c =>
    if c.rest.head?.any (isOneOf ",]\x7d") then some (.empty, c) else flowNode bound c

/-- An entry between brackets: a key with its value. -/
def flowEntry : (bound : Nat) → Cursor → Option ((Scalar × Node) × Cursor)
  | 0, _ => none
  | bound + 1, c =>
    if c.atMarker then none
    else match key? true 0 c with
      | none => none
      | some (key, rest) =>
        (flowValue bound (Cursor.skip ⟨rest, none⟩)).map fun r => ((key, r.1), r.2)

/-- The items up to the closing bracket. An entry among them is a mapping of its own. -/
def flowItems : (bound : Nat) → Cursor → Option (List Node × Cursor)
  | 0, _ => none
  | bound + 1, c =>
    match after? ']' c.rest with
    | some rest => some ([], ⟨rest, none⟩)
    | none =>
      match ((flowEntry bound c).map fun r => (.mapping [r.1], r.2)) <|> flowNode bound c with
      | none => none
      | some (node, c) =>
        match after? ',' c.skip.rest, after? ']' c.skip.rest with
        | some rest, _ =>
          (flowItems bound (Cursor.skip ⟨rest, none⟩)).map fun r => (node :: r.1, r.2)
        | _, some rest => some ([node], ⟨rest, none⟩)
        | none, none => none

/-- The entries up to the closing brace. A key without a colon has no value. -/
def flowEntries : (bound : Nat) → Cursor → Option (List (Scalar × Node) × Cursor)
  | 0, _ => none
  | bound + 1, c =>
    match after? '\x7d' c.rest with
    | some rest => some ([], ⟨rest, none⟩)
    | none =>
      match flowEntry bound c <|> loneKey? c with
      | none => none
      | some (entry, c) =>
        match after? ',' c.skip.rest, after? '\x7d' c.skip.rest with
        | some rest, _ =>
          (flowEntries bound (Cursor.skip ⟨rest, none⟩)).map fun r => (entry :: r.1, r.2)
        | _, some rest => some ([entry], ⟨rest, none⟩)
        | none, none => none

end

/-- A scalar or a collection between brackets. -/
def leaf (bound least : Nat) (c : Cursor) : Option (Node × Cursor) :=
  if c.rest.head?.any (isOneOf "[\x7b") then
    flowNode bound c
  else (scalar? false least c).map fun r => (.scalar r.1, r.2.cursor)

/-! ## Block layout -/

mutual

/-- The node that begins here, in a column not below `least`, or one column before it if it is a
sequence and `behindKey`. There is an empty node where none begins. -/
def blockNode : (bound : Nat) → (least : Nat) → (behindKey : Bool) → Cursor →
    Option (Node × Cursor)
  | 0, _, _, _ => none
  | bound + 1, least, behindKey, c =>
    if c.rest.isEmpty || c.atMarker then some (.empty, c)
    else match c.column? with
      | none => leaf bound least c
      | some column =>
        match afterMark? '-' c.rest with
        | some rest =>
          if least ≤ column || (behindKey && column + 1 = least) then
            (blockItems bound column rest).map fun r => (.sequence r.1, r.2)
          else some (.empty, c)
        | none =>
          if column < least then some (.empty, c)
          else match key? false least c with
            | some (key, rest) =>
              (blockEntries bound column key rest).map fun r => (.mapping r.1, r.2)
            | none => leaf bound least c

/-- The items of a sequence in a column, the first dash taken already. -/
def blockItems : (bound : Nat) → (column : Nat) → Text → Option (List Node × Cursor)
  | 0, _, _ => none
  | bound + 1, column, t =>
    match blockNode bound (column + 1) false (Cursor.skip ⟨t, some (column + 1)⟩) with
    | none => none
    | some (node, c) =>
      let c := c.skip
      if c.column? = some column && !c.atMarker then
        match afterMark? '-' c.rest with
        | some rest => (blockItems bound column rest).map fun r => (node :: r.1, r.2)
        | none => some ([node], c)
      else some ([node], c)

/-- The entries of a mapping in a column, the first key and its colon taken already. -/
def blockEntries : (bound : Nat) → (column : Nat) → Scalar → Text →
    Option (List (Scalar × Node) × Cursor)
  | 0, _, _, _ => none
  | bound + 1, column, key, t =>
    match blockNode bound (column + 1) true (Cursor.skip ⟨t, none⟩) with
    | none => none
    | some (node, c) =>
      let c := c.skip
      if c.column? = some column && !c.rest.isEmpty && !c.atMarker then
        match key? false (column + 1) c with
        | none => none
        | some (next, rest) =>
          (blockEntries bound column next rest).map fun r => ((key, node) :: r.1, r.2)
      else some ([(key, node)], c)

end

/-! ## Documents -/

theorem length_skipFrom_le (comment : Bool) (column : Nat) (fresh : Bool) (t : Text) :
    (skipFrom comment column fresh t).rest.length ≤ t.length := by
  induction t generalizing comment column fresh with
  | nil => exact Nat.le_refl _
  | cons p t ih =>
    rw [skipFrom, List.length_cons]
    split
    · exact Nat.le_succ_of_le (ih ..)
    · split
      · exact Nat.le_succ_of_le (ih ..)
      · split
        · exact Nat.le_succ_of_le (ih ..)
        · split
          · exact Nat.le_succ_of_le (ih ..)
          · exact Nat.le_refl _

theorem Cursor.length_skip_le (c : Cursor) : c.skip.rest.length ≤ c.rest.length :=
  length_skipFrom_le ..

/-- Whether nothing but marks of the document's end follows. -/
def endsDocument (c : Cursor) : Bool :=
  match h : c.rest with
  | [] => true
  | [_] | [_, _] => false
  | _ :: _ :: _ :: rest =>
    have : (Cursor.skip ⟨rest, none⟩).rest.length < c.rest.length := by
      have := Cursor.length_skip_le ⟨rest, none⟩
      simp only [h, List.length_cons] at this ⊢
      omega
    c.atMarker && c.rest.startsWith "..." && endsDocument (Cursor.skip ⟨rest, none⟩)
termination_by c.rest.length

/-- The node of a document that begins here. -/
def document (c : Cursor) : Option Node :=
  match blockNode (3 * c.rest.length + 3) 0 false c with
  | none => none
  | some (node, c) => if endsDocument c.skip then some node else none

/-- The node that a YAML text spells. A text in which nothing is written spells an empty one. -/
def readNode (t : Text) : Option Node :=
  let c := Cursor.skip ⟨normalizeBreaks t, some 0⟩
  if c.atMarker then
    if c.rest.startsWith "---" then document (Cursor.skip ⟨c.rest.drop 3, none⟩) else none
  else document c

/-- The data that a YAML text writes. A byte order mark in front does not count. -/
def read (t : Text) : Except ReadError Datum :=
  if !t.all isPrintable then .error .malformed
  else
    let t := if t.head? = CodePoint.ofNat? 0xFEFF then t.drop 1 else t
    match readNode t with
    | none => .error .malformed
    | some node => node.toDatum

end ScalarScript.Yaml
