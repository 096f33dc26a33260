import Mathlib.Data.List.Basic
import ScalarScript.Proofs.Yaml.Blocks

/-!
# Data that is read back

Legible data is what a document of a script holds: no doubles, words for the names of fields, and
texts of which no line is broken twice in a row.

* `Legible` goes by the column of the key or dash that a datum stands behind.
* `exists_entries`: the fields of an object as the entries of a mapping.

Results:
* `nodeReads_valueText`: legible data is read back behind every key and dash.
* **`read_write`**: an object with legible fields is read back up to what single quotes lose.
-/

namespace ScalarScript.Yaml

/-- Data that is read back behind a key or a dash in a column: without doubles, the names of fields
distinct words, and texts whose lines are not broken twice in a row. -/
inductive Legible : (behindKey : Bool) → (column : Nat) → Datum → Prop
  | null (b : Bool) (c : Nat) : Legible b c .null
  | bool (b : Bool) (c : Nat) (a : Bool) : Legible b c (.bool a)
  | int (b : Bool) (c : Nat) (n : Int) : Legible b c (.int n)
  | text (b : Bool) {c : Nat} {t : Text} (h : style t = .double → BrokenOnce (c + 2) t) :
    Legible b c (.text t)
  | array {b : Bool} {c : Nat} {items : List Datum}
    (h : ∀ d ∈ items, Legible false (if b then c else c + 2) d) : Legible b c (.array items)
  | object (b : Bool) {c : Nat} {fields : List (Text × Datum)} (hd : (fields.map Prod.fst).Nodup)
    (hn : ∀ f ∈ fields, IsKey f.1) (h : ∀ f ∈ fields, Legible true (c + 2) f.2) :
    Legible b c (.object fields)

/-! ## What is written -/

section Writing

variable {behindKey : Bool} {column : Nat}

/-- Data as it is written behind a key or a dash in a column; `c` is where the line has got to
behind a key. -/
def writtenText (behindKey : Bool) (column c : Nat) (d : Datum) : Text :=
  if behindKey then fieldText column c d else fieldText.itemText column d

/-- The same as it is read. -/
def valueText (behindKey : Bool) (column c : Nat) (d : Datum) : Text :=
  (writtenText behindKey column c d).map lineFeed

/-- An item of a sequence with the datum it is read as. -/
def item (column : Nat) (d : Datum) : Text × Datum :=
  (valueText false column 0 d, d.restored restoredText)

/-- A field of a mapping with the datum it is read as. -/
def entry (column : Nat) (f : Text × Datum) : Entry where
  name := f.1
  text := valueText true column (column + (keyText f.1).length + 1) f.2
  datum := f.2.restored restoredText

theorem itemTexts_eq (column : Nat) (ds : List Datum) :
    fieldText.itemTexts column ds =
      ds.map fun d => .scalar '-' :: fieldText.itemText column d := by
  induction ds with
  | nil => rfl
  | cons d ds ih => rw [fieldText.itemTexts, ih, List.map_cons]

theorem fieldTexts_eq (column : Nat) (fs : List (Text × Datum)) :
    fieldText.fieldTexts column fs =
      fs.map fun f => (f.1, fieldText column (column + (keyText f.1).length + 1) f.2) := by
  induction fs with
  | nil => rfl
  | cons f fs ih => rw [fieldText.fieldTexts, ih, List.map_cons]

/-- The items of a sequence, one to a line. -/
theorem map_lineFeed_itemTexts (d : Datum) (ds : List Datum) :
    (Text.join (newLine column) (fieldText.itemTexts column (d :: ds))).map lineFeed =
      .scalar '-' :: ((item column d).1 ++ itemLines column (ds.map (item column))) := by
  have hdash : lineFeed (.scalar '-') = .scalar '-' := by decide
  rw [itemTexts_eq, List.map_cons, Text.join_cons, List.map_append, List.map_cons, hdash,
    List.cons_append, List.flatMap_map, List.map_flatMap, itemLines, List.flatMap_map]
  simp only [List.map_append, map_lineFeed_newLine, List.map_cons, hdash]
  rfl

/-- The fields of a mapping, one to a line and sorted. -/
theorem map_lineFeed_entries {f : Text × Datum} {fs gs : List (Text × Datum)}
    (hn : ∀ g ∈ f :: gs, IsKey g.1) (hs : Json.sortFields fs = f :: gs) :
    (fieldText.entries column (fieldText.fieldTexts column fs)).map lineFeed =
      f.1 ++ .scalar ':' ::
        ((entry column f).text ++ entryLines column (gs.map (entry column))) := by
  have hcolon : lineFeed (.scalar ':') = .scalar ':' := by decide
  have hname : ∀ g ∈ f :: gs, (keyText g.1).map lineFeed = g.1 := fun g hg => by
    rw [(hn g hg).keyText_eq]
    exact map_lineFeed_eq_self fun p hp =>
      isVerbatim_of_isWordCharacter ((hn g hg).isWordCharacter p hp)
  have hlines : (gs.flatMap fun g => newLine column ++ ((keyText g.1).map lineFeed ++
      .scalar ':' :: (entry column g).text)) = entryLines column (gs.map (entry column)) := by
    rw [entryLines, List.flatMap_map]
    refine List.flatMap_congr fun g hg => ?_
    rw [hname g (List.mem_cons_of_mem _ hg)]
    rfl
  rw [fieldText.entries, fieldTexts_eq, sortFields_map, hs, ← hlines]
  simp only [List.map_map, List.map_cons, Text.join_cons, List.map_append, List.map_flatMap,
    List.flatMap_map, map_lineFeed_newLine, Function.comp_apply, hcolon]
  rw [hname f List.mem_cons_self, List.append_assoc]
  rfl

theorem exists_valueText_item (column : Nat) (d : Datum) :
    ∃ t, (item column d).1 = .scalar ' ' :: t := by
  cases d with
  | array items => cases items <;> exact ⟨_, rfl⟩
  | object fields => cases fields <;> exact ⟨_, rfl⟩
  | _ => exact ⟨_, rfl⟩

theorem startsWithSpace_entry (column : Nat) (f : Text × Datum) (rest : Text) :
    startsWithSpace ((entry column f).text ++ rest) = true := by
  obtain ⟨name, d⟩ := f
  cases d with
  | array items => cases items <;> rfl
  | object fields => cases fields <;> rfl
  | _ => rfl

/-- What stands in one place behind a key or a dash is written behind a space. -/
theorem nodeReads_scalar {d : Datum} {c : Nat} (c' : Nat)
    (hw : valueText behindKey column c d = .scalar ' ' :: (scalar (column + 2) c' d).map lineFeed)
    (h : LeafReads (column + 1) ((scalar (column + 2) c' d).map lineFeed)
      (d.restored restoredText)) :
    NodeReads behindKey column (valueText behindKey column c d) (d.restored restoredText) := by
  rw [hw]
  exact nodeReads_leaf h

/-- The items of an array are read back if each of them is. -/
theorem nodeReads_items {inner c : Nat} {d : Datum} {ds : List Datum}
    (hinner : inner = if behindKey then column else column + 2)
    (h : ∀ e ∈ d :: ds,
      NodeReads false inner (valueText false inner 0 e) (e.restored restoredText)) :
    NodeReads behindKey column (valueText behindKey column c (.array (d :: ds)))
      ((Datum.array (d :: ds)).restored restoredText) := by
  have hreads : ∀ y ∈ (d :: ds).map (item inner), NodeReads false inner y.1 y.2 :=
    List.forall_mem_map.mpr h
  have hspace : ∀ y ∈ (d :: ds).map (item inner), ∃ t, y.1 = .scalar ' ' :: t :=
    List.forall_mem_map.mpr fun e _ => exists_valueText_item inner e
  have hmap : (d :: ds).map (Datum.restored restoredText) =
      ((d :: ds).map (item inner)).map Prod.snd := by
    rw [List.map_map]
    rfl
  have hw : valueText behindKey column c (.array (d :: ds)) = lead behindKey inner ++
      .scalar '-' :: ((item inner d).1 ++ itemLines inner (ds.map (item inner))) := by
    rw [← map_lineFeed_itemTexts, hinner]
    cases behindKey with
    | true =>
      show (newLine column ++ Text.join (newLine column) _).map lineFeed = _
      rw [List.map_append, map_lineFeed_newLine]
      rfl
    | false => rfl
  rw [hw, Datum.restored, Datum.restoredItems_eq, hmap]
  exact nodeReads_array hreads hspace hinner

/-- The fields of an object as entries, in the order in which they are written. -/
theorem exists_entries {fs : List (Text × Datum)} (hne : fs ≠ []) (hd : (fs.map Prod.fst).Nodup)
    (hn : ∀ f ∈ fs, IsKey f.1)
    (h : ∀ f ∈ fs, ∀ c, NodeReads true column (valueText true column c f.2)
      (f.2.restored restoredText)) :
    ∃ e es, (∀ g ∈ e :: es, g.Reads column) ∧ ((entryFields (e :: es)).map Prod.fst).Nodup ∧
      (fieldText.entries column (fieldText.fieldTexts column fs)).map lineFeed =
        e.name ++ .scalar ':' :: (e.text ++ entryLines column es) ∧
      (Datum.object fs).restored restoredText = .object (entryFields (e :: es)) := by
  have hperm := sortFields_perm fs
  cases hs : Json.sortFields fs with
  | nil =>
    rw [hs] at hperm
    exact absurd hperm.nil_eq.symm hne
  | cons f gs =>
    rw [hs] at hperm
    have hmem : ∀ g ∈ f :: gs, g ∈ fs := fun g hg => hperm.mem_iff.mp hg
    have hreads : ∀ g ∈ (f :: gs).map (entry column), g.Reads column :=
      List.forall_mem_map.mpr fun g hg =>
        ⟨hn g (hmem g hg), h g (hmem g hg) _, startsWithSpace_entry column g⟩
    have hnames : (entryFields ((f :: gs).map (entry column))).map Prod.fst =
        (f :: gs).map Prod.fst := by
      rw [entryFields, List.map_map, List.map_map]
      rfl
    have hfields : (Datum.object fs).restored restoredText =
        .object (entryFields ((f :: gs).map (entry column))) := by
      rw [Datum.restored, Datum.restoredFields_eq, sortFields_map, hs, entryFields, List.map_map]
      rfl
    refine ⟨entry column f, gs.map (entry column), hreads, ?_, ?_, hfields⟩
    · rw [← List.map_cons, hnames]
      exact (hperm.map Prod.fst).nodup_iff.mpr hd
    · exact map_lineFeed_entries (fun g hg => hn g (hmem g hg)) hs

/-- The fields of an object are read back if each of them is. -/
theorem nodeReads_fields {c : Nat} {fs : List (Text × Datum)} (hne : fs ≠ [])
    (hd : (fs.map Prod.fst).Nodup) (hn : ∀ f ∈ fs, IsKey f.1)
    (h : ∀ f ∈ fs, ∀ c, NodeReads true (column + 2) (valueText true (column + 2) c f.2)
      (f.2.restored restoredText)) :
    NodeReads behindKey column (valueText behindKey column c (.object fs))
      ((Datum.object fs).restored restoredText) := by
  obtain ⟨e, es, hreads, hnames, htext, hfields⟩ := exists_entries hne hd hn h
  have hw : valueText behindKey column c (.object fs) = lead behindKey (column + 2) ++
      (e.name ++ .scalar ':' :: (e.text ++ entryLines (column + 2) es)) := by
    rw [← htext]
    cases fs with
    | nil => exact absurd rfl hne
    | cons f fs =>
      cases behindKey with
      | true =>
        show (newLine (column + 2) ++ fieldText.entries (column + 2) _).map lineFeed = _
        rw [List.map_append, map_lineFeed_newLine]
        rfl
      | false => rfl
  rw [hw, hfields]
  exact nodeReads_object hreads hnames

/-- Legible data is read back behind a key or a dash. -/
theorem nodeReads_valueText {d : Datum} (h : Legible behindKey column d) (c : Nat) :
    NodeReads behindKey column (valueText behindKey column c d) (d.restored restoredText) := by
  induction h generalizing c with
  | null b column =>
    have hw : (Text.of "null").map lineFeed = Text.of "null" := by decide
    refine nodeReads_scalar 0 (by cases b <;> rfl) ?_
    rw [scalar, hw]
    exact leafReads_null
  | bool b column a =>
    have hw : (Text.of (if a then "true" else "false")).map lineFeed =
        Text.of (if a then "true" else "false") := by cases a <;> decide
    refine nodeReads_scalar 0 (by cases b <;> rfl) ?_
    rw [scalar, hw]
    exact leafReads_bool a
  | int b column n =>
    have hw : (Text.ofInt n).map lineFeed = Text.ofInt n := map_lineFeed_eq_self fun p hp =>
      isVerbatim_of_isWordCharacter (isWordCharacter_of_mem_ofInt hp)
    refine nodeReads_scalar 0 (by cases b <;> rfl) ?_
    rw [scalar, hw]
    exact leafReads_int n
  | @text b column t ht =>
    refine nodeReads_scalar (if b then c + 1 else column + 2) (by cases b <;> rfl) ?_
    exact leafReads_textScalar (Nat.succ_ne_zero _) (Nat.le_succ _) ht _
  | @array b column items hitems ih =>
    cases items with
    | nil =>
      have hw : (Text.of "[]").map lineFeed = Text.of "[]" := by decide
      refine nodeReads_scalar 0 (by cases b <;> rfl) ?_
      rw [scalar, hw]
      exact leafReads_emptyArray
    | cons d ds => exact nodeReads_items rfl fun e he => ih e he 0
  | @object b column fields hd hn hfields ih =>
    cases fields with
    | nil =>
      have hw : (Text.of "\x7b\x7d").map lineFeed = Text.of "\x7b\x7d" := by decide
      refine nodeReads_scalar 0 (by cases b <;> rfl) ?_
      rw [scalar, hw, Datum.restored, Datum.restored.restoredFields, Json.sortFields,
        List.mergeSort_nil]
      exact leafReads_emptyObject
    | cons f fs => exact nodeReads_fields (List.cons_ne_nil f fs) hd hn ih

end Writing

/-! ## What may be read -/

section Special

variable {behindKey : Bool} {column : Nat}

theorem not_isSpecial_of_isVerbatim {t : Text} (h : ∀ p ∈ t, isVerbatim p = true) :
    ∀ p ∈ t, isSpecial p = false := fun p hp => (isVerbatim_iff.mp (h p hp)).1

theorem not_isSpecial_newLine (k : Nat) : ∀ p ∈ newLine k, isSpecial p = false :=
  not_isSpecial_of_isVerbatim fun _ => isVerbatim_of_mem_newLine

theorem not_isSpecial_foldFrom {t : Text} (h : ∀ p ∈ t, isSpecial p = false) (quoting : Bool)
    (indent column : Nat) : ∀ p ∈ foldFrom quoting indent none column t, isSpecial p = false := by
  intro p hp
  rcases mem_foldFrom hp with hp | hp
  · exact h p hp
  · exact (isVerbatim_iff.mp hp).1

theorem not_isSpecial_textScalar (indent column : Nat) (t : Text) :
    ∀ p ∈ textScalar indent column t, isSpecial p = false := by
  have hsingle : isSpecial (.scalar '\'') = false := by decide
  have hdouble : isSpecial (.scalar '"') = false := by decide
  unfold textScalar
  cases h : style t with
  | plain => exact not_isSpecial_foldFrom (plainText_of_style h).special false indent column
  | single =>
    have ht := isSpecial_of_needsEscapes (not_needsEscapes_of_style h)
    exact List.forall_mem_cons.mpr ⟨hsingle, List.forall_mem_append.mpr
      ⟨not_isSpecial_foldFrom ht true indent _, List.forall_mem_singleton.mpr hsingle⟩⟩
  | double =>
    exact List.forall_mem_cons.mpr ⟨hdouble, List.forall_mem_append.mpr
      ⟨not_isSpecial_of_isVerbatim verbatim_doubleFrom, List.forall_mem_singleton.mpr hdouble⟩⟩

theorem not_isSpecial_join {separator : Text} {ts : List Text}
    (hs : ∀ p ∈ separator, isSpecial p = false) (h : ∀ t ∈ ts, ∀ p ∈ t, isSpecial p = false) :
    ∀ p ∈ Text.join separator ts, isSpecial p = false := by
  intro p hp
  rcases Text.mem_join hp with hp | ⟨t, ht, hp⟩
  · exact hs p hp
  · exact h t ht p hp

theorem not_isSpecial_items {d : Datum} {ds : List Datum}
    (h : ∀ e ∈ d :: ds, ∀ p ∈ writtenText false column 0 e, isSpecial p = false) :
    ∀ p ∈ Text.join (newLine column) (fieldText.itemTexts column (d :: ds)),
      isSpecial p = false := by
  rw [itemTexts_eq]
  refine not_isSpecial_join (not_isSpecial_newLine column) (List.forall_mem_map.mpr fun e he => ?_)
  exact List.forall_mem_cons.mpr ⟨by decide, h e he⟩

theorem not_isSpecial_entries {fs : List (Text × Datum)} (hn : ∀ f ∈ fs, IsKey f.1)
    (h : ∀ f ∈ fs, ∀ c, ∀ p ∈ writtenText true column c f.2, isSpecial p = false) :
    ∀ p ∈ fieldText.entries column (fieldText.fieldTexts column fs), isSpecial p = false := by
  rw [fieldText.entries, fieldTexts_eq, sortFields_map, List.map_map]
  refine not_isSpecial_join (not_isSpecial_newLine column) (List.forall_mem_map.mpr fun f hf => ?_)
  have hmem : f ∈ fs := (sortFields_perm fs).mem_iff.mp hf
  have hname : ∀ p ∈ keyText f.1, isSpecial p = false := by
    rw [(hn f hmem).keyText_eq]
    exact not_isSpecial_of_isVerbatim fun p hp =>
      isVerbatim_of_isWordCharacter ((hn f hmem).isWordCharacter p hp)
  exact List.forall_mem_append.mpr ⟨hname, List.forall_mem_cons.mpr ⟨by decide, h f hmem _⟩⟩

/-- Legible data is written without special code points. -/
theorem not_isSpecial_writtenText {d : Datum} (h : Legible behindKey column d) (c : Nat) :
    ∀ p ∈ writtenText behindKey column c d, isSpecial p = false := by
  have hspace : isSpecial (.scalar ' ') = false := by decide
  have hdash : isSpecial (.scalar '-') = false := by decide
  induction h generalizing c with
  | null b column =>
    have hnull : ∀ p ∈ Text.of " null", isSpecial p = false := by decide
    cases b <;> exact hnull
  | bool b column a =>
    have hbool : ∀ p ∈ .scalar ' ' :: Text.of (if a then "true" else "false"),
        isSpecial p = false := by cases a <;> decide
    cases b <;> exact hbool
  | int b column n =>
    have hint : ∀ p ∈ .scalar ' ' :: Text.ofInt n, isSpecial p = false :=
      List.forall_mem_cons.mpr ⟨hspace, not_isSpecial_of_isVerbatim fun p hp =>
        isVerbatim_of_isWordCharacter (isWordCharacter_of_mem_ofInt hp)⟩
    cases b <;> exact hint
  | text b _ =>
    cases b <;> exact List.forall_mem_cons.mpr ⟨hspace, not_isSpecial_textScalar _ _ _⟩
  | @array b column items _ ih =>
    cases items with
    | nil =>
      have hempty : ∀ p ∈ Text.of " []", isSpecial p = false := by decide
      cases b <;> exact hempty
    | cons d ds =>
      have hitems := not_isSpecial_items fun e he => ih e he 0
      cases b with
      | true => exact List.forall_mem_append.mpr ⟨not_isSpecial_newLine _, hitems⟩
      | false => exact List.forall_mem_cons.mpr ⟨hspace, hitems⟩
  | @object b column fields _ hn _ ih =>
    cases fields with
    | nil =>
      have hempty : ∀ p ∈ Text.of " \x7b\x7d", isSpecial p = false := by decide
      cases b <;> exact hempty
    | cons f fs =>
      have hfields := not_isSpecial_entries hn ih
      cases b with
      | true => exact List.forall_mem_append.mpr ⟨not_isSpecial_newLine _, hfields⟩
      | false => exact List.forall_mem_cons.mpr ⟨hspace, hfields⟩

end Special

/-! ## Documents -/

section Documents

variable {fs : List (Text × Datum)}

theorem write_object (hne : fs ≠ []) :
    write (.object fs) = fieldText.entries 0 (fieldText.fieldTexts 0 fs) ++ newLine 0 := by
  cases fs with
  | nil => exact absurd rfl hne
  | cons f fs => rfl

theorem endsDocument_nil (column? : Option Nat) : endsDocument ⟨[], column?⟩ = true := by
  rw [endsDocument]

theorem document_eq {c : Cursor} {node : Node} {column? : Option Nat}
    (h : blockNode (3 * c.rest.length + 3) 0 false c = some (node, ⟨[], column?⟩)) :
    document c = some node := by
  have hskip : Cursor.skip ⟨[], column?⟩ = ⟨[], column?⟩ :=
    skip_of_startsToken LineStart.nil.startsToken column?
  rw [document, h]
  simp only [hskip, endsDocument_nil, if_true]

/-- Entries from the first column on are read as a mapping. -/
theorem exists_document {e : Entry} {es : List Entry} (h : ∀ g ∈ e :: es, g.Reads 0)
    (hd : ((entryFields (e :: es)).map Prod.fst).Nodup) {x : Text}
    (hx : x = e.name ++ .scalar ':' :: (e.text ++ entryLines 0 es ++ newLine 0)) :
    ∃ node, node.toDatum = .ok (.object (entryFields (e :: es))) ∧
      document ⟨x, some 0⟩ = some node := by
  have he := h e List.mem_cons_self
  have hbound : (e.text ++ entryLines 0 es).length < 3 * x.length + 2 := by
    simp only [hx, List.length_append, List.length_cons]
    omega
  have hspace : startsWithSpace (e.text ++ entryLines 0 es ++ newLine 0) = true := by
    rw [List.append_assoc]
    exact he.space _
  obtain ⟨entries, hds, hreads⟩ := exists_blockEntries h .nil (Nat.le_refl 0) (fun _ => rfl)
    _ hbound
  have hkey := blockNode_key he.key (Nat.le_refl 0) hspace false (3 * x.length + 2)
  rw [List.append_nil] at hreads
  rw [hreads, ← hx] at hkey
  refine ⟨.mapping entries, ?_, document_eq hkey⟩
  rw [Node.toDatum, hds [] hd]
  rfl

/-- **Legible data is read back** up to what single quotes lose. -/
theorem read_write (hne : fs ≠ []) (hd : (fs.map Prod.fst).Nodup) (hn : ∀ f ∈ fs, IsKey f.1)
    (h : ∀ f ∈ fs, Legible true 0 f.2) :
    read (write (.object fs)) = .ok ((Datum.object fs).restored restoredText) := by
  have hspecial : ∀ p ∈ write (.object fs), isSpecial p = false := by
    rw [write_object hne]
    exact List.forall_mem_append.mpr
      ⟨not_isSpecial_entries hn fun f hf => not_isSpecial_writtenText (h f hf),
        not_isSpecial_newLine 0⟩
  have hprintable : (write (.object fs)).all isPrintable = true :=
    List.all_eq_true.mpr fun p hp => isPrintable_of_not_isSpecial (hspecial p hp)
  have hmark : (write (.object fs)).head? ≠ CodePoint.ofNat? 0xFEFF := by
    intro hhead
    have hp := hspecial _ (List.mem_of_head? hhead)
    cases hp
  obtain ⟨e, es, hreads, hnames, htext, hfields⟩ := exists_entries hne hd hn fun f hf =>
    nodeReads_valueText (h f hf)
  have hnormal : normalizeBreaks (write (.object fs)) =
      e.name ++ .scalar ':' :: (e.text ++ entryLines 0 es ++ newLine 0) := by
    rw [normalizeBreaks_eq_map hspecial, write_object hne, List.map_append, htext,
      map_lineFeed_newLine, List.append_assoc, List.cons_append]
  obtain ⟨node, hnode, hdocument⟩ := exists_document hreads hnames rfl
  have hline := (hreads e List.mem_cons_self).key.lineStart
    (.scalar ':' :: (e.text ++ entryLines 0 es ++ newLine 0))
  rw [read, hprintable, Bool.not_true, if_neg Bool.false_ne_true]
  simp only [if_neg hmark, readNode, hnormal, skip_of_startsToken hline.startsToken,
    Cursor.atMarker, hline.not_startsWithMarker, Bool.and_false, Bool.false_eq_true, if_false,
    hdocument, hnode, hfields]

end Documents

end ScalarScript.Yaml
