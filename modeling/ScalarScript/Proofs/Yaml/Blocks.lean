import ScalarScript.Proofs.Document.Restored
import ScalarScript.Proofs.Yaml.Words

/-!
# Block layout that is read back

The entries of a collection stand in one column. What is written behind a key or a dash ends where
a line begins that belongs to something around it, and so the column of that line is all that a
part has to know about what follows it.

* `NodeReads`: what a text behind a key or a dash is read as, wherever such a line follows.

Results:
* `exists_blockItems`, `exists_blockEntries`: the entries of a collection are read one by one.
* `nodeReads_leaf`, `nodeReads_array`, `nodeReads_object`: so are nodes of every kind.
-/

namespace ScalarScript.Yaml

/-- Whether the text `x` behind a key or a dash in a column is read as a datum, in as many steps as
it has code points. The line behind it does not begin further to the right; behind a key, the items
of a sequence may stand in the column of the key, so no dash may follow in that column. -/
def NodeReads (behindKey : Bool) (column : Nat) (x : Text) (d : Datum) : Prop :=
  ∀ (bound k : Nat) (u : Text), x.length ≤ bound → LineStart u → k ≤ column →
    (behindKey = true → k = column → afterMark? '-' u = none) →
    ∃ node c, blockNode bound (column + 1) behindKey
        (Cursor.skip ⟨x ++ (newLine k ++ u), if behindKey then none else some (column + 1)⟩) =
          some (node, c) ∧
      c.skip = ⟨u, some k⟩ ∧ node.toDatum = .ok d

theorem IsKey.lineStart {name : Text} (h : IsKey name) (rest : Text) :
    LineStart (name ++ rest) := by
  obtain ⟨p, t, rfl⟩ := List.exists_cons_of_ne_nil h.nonempty
  exact .key (h.letters p List.mem_cons_self) _

theorem IsKey.isEmpty_append {name : Text} (h : IsKey name) (rest : Text) :
    (name ++ rest).isEmpty = false := by
  obtain ⟨p, t, rfl⟩ := List.exists_cons_of_ne_nil h.nonempty
  rfl

theorem IsKey.afterMark?_eq {name : Text} (h : IsKey name) (rest : Text) :
    afterMark? '-' (name ++ rest) = none := by
  obtain ⟨p, t, rfl⟩ := List.exists_cons_of_ne_nil h.nonempty
  have hp : isKeyLetter p = true := h.letters p List.mem_cons_self
  rw [List.cons_append, afterMark?, is_eq_false_of_isKeyLetter hp (by decide), Bool.false_and,
    if_neg Bool.false_ne_true]

section Nodes

variable {behindKey : Bool} {column bound k : Nat} {x u : Text} {d : Datum}

/-- A scalar behind a key or a dash. -/
theorem nodeReads_leaf (h : LeafReads (column + 1) x d) :
    NodeReads behindKey column (.scalar ' ' :: x) d := by
  intro bound k u hbound hu hk _
  obtain ⟨bound, rfl⟩ : ∃ b, bound = b + 1 := ⟨bound - 1, by simp at hbound; omega⟩
  have hlength : x.length ≤ bound := Nat.le_of_succ_le_succ hbound
  have hne : (x ++ (newLine k ++ u)).isEmpty = false := by
    cases hx : x with
    | nil => exact absurd hx h.nonempty
    | cons p t => rfl
  have hlt : k < column + 1 := Nat.lt_succ_of_le hk
  rw [List.cons_append, skip_space (h.starts _)]
  cases behindKey with
  | true =>
    obtain ⟨node, c, hread, hskip, hd⟩ := h.read bound k u none hlength hu hlt
    refine ⟨node, c, ?_, hskip, hd⟩
    rw [blockNode]
    simp only [if_true, Option.map_none, hne, Cursor.atMarker, Bool.false_or]
    exact hread
  | false =>
    obtain ⟨node, c, hread, hskip, hd⟩ := h.read bound k u (some (column + 2)) hlength hu hlt
    refine ⟨node, c, ?_, hskip, hd⟩
    have hcolumn : (some (column + 2) == some 0) = false := rfl
    have hbelow : ¬ column + 2 < column + 1 := by omega
    rw [blockNode]
    simp only [Bool.false_eq_true, if_false, Option.map_some, hne, Cursor.atMarker, hcolumn,
      Bool.false_and, Bool.or_false, h.noItem, hbelow, h.noKey k u _ hu hlt]
    exact hread

/-- A sequence begins in a column from the least one on, or directly in front of it behind a
key. -/
theorem blockNode_dash {least : Nat} {t : Text}
    (hl : least ≤ column ∨ behindKey = true ∧ column + 1 = least) (bound : Nat) :
    blockNode (bound + 1) least behindKey ⟨.scalar '-' :: .scalar ' ' :: t, some column⟩ =
      (blockItems bound column (.scalar ' ' :: t)).map fun r => (.sequence r.1, r.2) := by
  have hmarker : startsWithMarker (.scalar '-' :: .scalar ' ' :: t) = false :=
    (LineStart.item t).not_startsWithMarker
  have hdash : afterMark? '-' (.scalar '-' :: .scalar ' ' :: t) = some (.scalar ' ' :: t) := rfl
  have hcolumn :
      (decide (least ≤ column) || (behindKey && decide (column + 1 = least))) = true := by
    rcases hl with hl | ⟨hb, hl⟩
    · rw [decide_eq_true hl, Bool.true_or]
    · rw [hb, decide_eq_true hl, Bool.true_and, Bool.or_true]
  rw [blockNode]
  simp only [List.isEmpty_cons, Cursor.atMarker, hmarker, Bool.and_false, Bool.or_false,
    Bool.false_eq_true, if_false, hdash, hcolumn, if_true]

/-- A mapping begins with a key in a column from the least one on. -/
theorem blockNode_key {least : Nat} {name t : Text} (hname : IsKey name) (hl : least ≤ column)
    (ht : startsWithSpace t = true) (behindKey : Bool) (bound : Nat) :
    blockNode (bound + 1) least behindKey ⟨name ++ .scalar ':' :: t, some column⟩ =
      (blockEntries bound column ⟨false, name⟩ t).map fun r => (.mapping r.1, r.2) := by
  have hmarker : startsWithMarker (name ++ .scalar ':' :: t) = false :=
    (hname.lineStart _).not_startsWithMarker
  have hbelow : ¬ column < least := Nat.not_lt.mpr hl
  rw [blockNode]
  simp only [hname.isEmpty_append, Cursor.atMarker, hmarker, Bool.and_false, Bool.or_false,
    Bool.false_eq_true, if_false, hname.afterMark?_eq, hbelow, hname.key?_eq ht]

end Nodes

/-! ## Sequences -/

/-- The items behind the first dash, which stand in a column. -/
def itemLines (column : Nat) (xs : List (Text × Datum)) : Text :=
  xs.flatMap fun y => newLine column ++ .scalar '-' :: y.1

section Items

variable {column k : Nat} {u : Text}

/-- An item, in front of another one. -/
theorem blockItems_cons {bound : Nat} {x : Text} {d : Datum} (h : NodeReads false column x d)
    (hbound : x.length ≤ bound) (t : Text) :
    ∃ node, node.toDatum = .ok d ∧
      blockItems (bound + 1) column
          (x ++ (newLine column ++ .scalar '-' :: .scalar ' ' :: t)) =
        (blockItems bound column (.scalar ' ' :: t)).map fun r => (node :: r.1, r.2) := by
  obtain ⟨node, c, hread, hskip, hd⟩ := h bound column (.scalar '-' :: .scalar ' ' :: t) hbound
    (.item t) (Nat.le_refl _) nofun
  refine ⟨node, hd, ?_⟩
  have hmarker : startsWithMarker (.scalar '-' :: .scalar ' ' :: t) = false :=
    (LineStart.item t).not_startsWithMarker
  have hdash : afterMark? '-' (.scalar '-' :: .scalar ' ' :: t) = some (.scalar ' ' :: t) := rfl
  simp only [Bool.false_eq_true, if_false] at hread
  rw [blockItems, hread]
  simp only [hskip, Cursor.atMarker, hmarker, Bool.and_false, Bool.not_false, Bool.and_true,
    decide_true, if_true, hdash]

/-- The last item: no dash follows in its column. -/
theorem blockItems_last {bound : Nat} {x : Text} {d : Datum} (h : NodeReads false column x d)
    (hbound : x.length ≤ bound) (hu : LineStart u) (hk : k ≤ column)
    (hlast : k = column → afterMark? '-' u = none) :
    ∃ node, node.toDatum = .ok d ∧
      blockItems (bound + 1) column (x ++ (newLine k ++ u)) = some ([node], ⟨u, some k⟩) := by
  obtain ⟨node, c, hread, hskip, hd⟩ := h bound k u hbound hu hk nofun
  refine ⟨node, hd, ?_⟩
  simp only [Bool.false_eq_true, if_false] at hread
  rw [blockItems, hread]
  simp only [hskip]
  split
  · next hcolumn =>
    simp only [Bool.and_eq_true, decide_eq_true_eq, Option.some.injEq] at hcolumn
    simp only [hlast hcolumn.1]
  · rfl

/-- The items of a sequence are read one by one. -/
theorem exists_blockItems {x : Text × Datum} {xs : List (Text × Datum)}
    (h : ∀ y ∈ x :: xs, NodeReads false column y.1 y.2)
    (hs : ∀ y ∈ x :: xs, ∃ t, y.1 = .scalar ' ' :: t) (hu : LineStart u) (hk : k ≤ column)
    (hlast : k = column → afterMark? '-' u = none) (bound : Nat)
    (hbound : (x.1 ++ itemLines column xs).length < bound) :
    ∃ nodes, Node.toDatum.itemData nodes = .ok ((x :: xs).map Prod.snd) ∧
      blockItems bound column (x.1 ++ itemLines column xs ++ (newLine k ++ u)) =
        some (nodes, ⟨u, some k⟩) := by
  induction xs generalizing x bound with
  | nil =>
    obtain ⟨bound, rfl⟩ : ∃ b, bound = b + 1 := ⟨bound - 1, by omega⟩
    rw [itemLines, List.flatMap_nil, List.append_nil] at hbound ⊢
    obtain ⟨node, hd, hread⟩ := blockItems_last (h x List.mem_cons_self)
      (Nat.le_of_lt_succ hbound) hu hk hlast
    refine ⟨[node], ?_, hread⟩
    rw [Node.toDatum.itemData, hd]
    rfl
  | cons y ys ih =>
    obtain ⟨bound, rfl⟩ : ∃ b, bound = b + 1 := ⟨bound - 1, by omega⟩
    obtain ⟨t, ht⟩ := hs y (by simp)
    have hlines : itemLines column (y :: ys) =
        newLine column ++ .scalar '-' :: (y.1 ++ itemLines column ys) := by
      rw [itemLines, List.flatMap_cons, List.append_assoc, List.cons_append]
      rfl
    rw [hlines] at hbound ⊢
    simp only [List.length_append, List.length_cons] at hbound
    obtain ⟨nodes, hds, hreads⟩ := ih (fun z hz => h z (List.mem_cons_of_mem _ hz))
      (fun z hz => hs z (List.mem_cons_of_mem _ hz)) bound
      (by rw [List.length_append]; omega)
    have hlength : x.1.length ≤ bound := by omega
    obtain ⟨node, hd, hread⟩ := blockItems_cons (h x List.mem_cons_self) hlength
      (t ++ itemLines column ys ++ (newLine k ++ u))
    refine ⟨node :: nodes, ?_, ?_⟩
    · rw [Node.toDatum.itemData, hd, hds]
      rfl
    · rw [ht] at hreads ⊢
      simp only [List.append_assoc, List.cons_append] at hread hreads ⊢
      rw [hread, hreads]
      rfl

end Items

/-! ## Mappings -/

/-- A field as it is written, and the datum that is read behind its name. -/
structure Entry where
  name : Text
  text : Text
  datum : Datum

/-- Whether a field is read as it should be from the entries of a mapping in a column. -/
structure Entry.Reads (column : Nat) (e : Entry) : Prop where
  key : IsKey e.name
  node : NodeReads true column e.text e.datum
  space : ∀ rest : Text, startsWithSpace (e.text ++ rest) = true

/-- The entries behind the first, which stand in a column. -/
def entryLines (column : Nat) (es : List Entry) : Text :=
  es.flatMap fun e => newLine column ++ (e.name ++ .scalar ':' :: e.text)

/-- The data of entries, as fields. -/
def entryFields (es : List Entry) : List (Text × Datum) := es.map fun e => (e.name, e.datum)

/-- A field adds its name and datum to those that have been read. -/
theorem fieldData_cons {seen : List (Text × Datum)} {name : Text} {node : Node} {d : Datum}
    {entries : List (Scalar × Node)} (hname : IsKey name) (hd : node.toDatum = .ok d)
    (hseen : name ∉ seen.map Prod.fst) :
    Node.toDatum.fieldData seen ((⟨false, name⟩, node) :: entries) =
      Node.toDatum.fieldData (seen ++ [(name, d)]) entries := by
  rw [Node.toDatum.fieldData, hname.toName_eq, hd, ← Datum.setField_of_notMem hseen d]
  rfl

section Entries

variable {column k : Nat} {u : Text}

/-- A field, in front of another one. -/
theorem blockEntries_cons {bound : Nat} {e : Entry} {name t : Text} (key : Scalar)
    (h : e.Reads column) (hbound : e.text.length ≤ bound) (hname : IsKey name)
    (ht : startsWithSpace t = true) :
    ∃ node, node.toDatum = .ok e.datum ∧
      blockEntries (bound + 1) column key
          (e.text ++ (newLine column ++ (name ++ .scalar ':' :: t))) =
        (blockEntries bound column ⟨false, name⟩ t).map fun r => ((key, node) :: r.1, r.2) := by
  obtain ⟨node, c, hread, hskip, hd⟩ := h.node bound column (name ++ .scalar ':' :: t) hbound
    (hname.lineStart _) (Nat.le_refl _) fun _ _ => hname.afterMark?_eq _
  refine ⟨node, hd, ?_⟩
  have hmarker : startsWithMarker (name ++ .scalar ':' :: t) = false :=
    (hname.lineStart _).not_startsWithMarker
  simp only [if_true] at hread
  rw [blockEntries, hread]
  simp only [hskip, Cursor.atMarker, hmarker, hname.isEmpty_append, Bool.and_false, Bool.not_false,
    Bool.and_true, decide_true, if_true, hname.key?_eq ht]

/-- The last field: what follows begins further to the left, or nothing follows. -/
theorem blockEntries_last {bound : Nat} {e : Entry} (key : Scalar) (h : e.Reads column)
    (hbound : e.text.length ≤ bound) (hu : LineStart u) (hk : k ≤ column)
    (hlast : k = column → u = []) :
    ∃ node, node.toDatum = .ok e.datum ∧
      blockEntries (bound + 1) column key (e.text ++ (newLine k ++ u)) =
        some ([(key, node)], ⟨u, some k⟩) := by
  have hdash : k = column → afterMark? '-' u = none := fun h => by
    rw [hlast h]
    rfl
  obtain ⟨node, c, hread, hskip, hd⟩ := h.node bound k u hbound hu hk fun _ => hdash
  refine ⟨node, hd, ?_⟩
  simp only [if_true] at hread
  rw [blockEntries, hread]
  simp only [hskip]
  split
  · next hcolumn =>
    simp only [Bool.and_eq_true, decide_eq_true_eq, Option.some.injEq] at hcolumn
    obtain ⟨⟨hcolumn, hne⟩, -⟩ := hcolumn
    rw [hlast hcolumn] at hne
    cases hne
  · rfl

/-- The entries of a mapping are read one by one. -/
theorem exists_blockEntries {e : Entry} {es : List Entry}
    (h : ∀ f ∈ e :: es, f.Reads column) (hu : LineStart u) (hk : k ≤ column)
    (hlast : k = column → u = []) (bound : Nat)
    (hbound : (e.text ++ entryLines column es).length < bound) :
    ∃ entries, (∀ seen : List (Text × Datum), ((seen ++ entryFields (e :: es)).map Prod.fst).Nodup →
        Node.toDatum.fieldData seen entries = .ok (seen ++ entryFields (e :: es))) ∧
      blockEntries bound column ⟨false, e.name⟩
          (e.text ++ entryLines column es ++ (newLine k ++ u)) =
        some (entries, ⟨u, some k⟩) := by
  induction es generalizing e bound with
  | nil =>
    obtain ⟨bound, rfl⟩ : ∃ b, bound = b + 1 := ⟨bound - 1, by omega⟩
    rw [entryLines, List.flatMap_nil, List.append_nil] at hbound ⊢
    have he := h e List.mem_cons_self
    obtain ⟨node, hd, hread⟩ :=
      blockEntries_last ⟨false, e.name⟩ he (Nat.le_of_lt_succ hbound) hu hk hlast
    refine ⟨_, fun seen hseen => ?_, hread⟩
    rw [fieldData_cons he.key hd (Datum.notMem_of_nodup hseen)]
    rfl
  | cons f fs ih =>
    obtain ⟨bound, rfl⟩ : ∃ b, bound = b + 1 := ⟨bound - 1, by omega⟩
    have he := h e List.mem_cons_self
    have hf := h f (by simp)
    have hlines : entryLines column (f :: fs) =
        newLine column ++ (f.name ++ .scalar ':' :: (f.text ++ entryLines column fs)) := by
      rw [entryLines, List.flatMap_cons, List.append_assoc, List.append_assoc, List.cons_append]
      rfl
    rw [hlines] at hbound ⊢
    simp only [List.length_append, List.length_cons] at hbound
    obtain ⟨entries, hds, hreads⟩ := ih (fun g hg => h g (List.mem_cons_of_mem _ hg)) bound
      (by rw [List.length_append]; omega)
    have hspace : startsWithSpace (f.text ++ entryLines column fs ++ (newLine k ++ u)) = true := by
      rw [List.append_assoc]
      exact hf.space _
    have hlength : e.text.length ≤ bound := by omega
    obtain ⟨node, hd, hread⟩ := blockEntries_cons ⟨false, e.name⟩ he hlength hf.key hspace
    refine ⟨(⟨false, e.name⟩, node) :: entries, fun seen hseen => ?_, ?_⟩
    · have hsplit : seen ++ entryFields (e :: f :: fs) =
          seen ++ [(e.name, e.datum)] ++ entryFields (f :: fs) := List.append_cons ..
      rw [fieldData_cons he.key hd (Datum.notMem_of_nodup hseen), hsplit]
      rw [hsplit] at hseen
      exact hds _ hseen
    · simp only [List.append_assoc, List.cons_append] at hread hreads ⊢
      rw [hread, hreads]
      rfl

end Entries

/-! ## Collections -/

/-- What is written in front of a collection: it begins in a line of its own behind a key, and in
the same line behind a dash. -/
def lead (behindKey : Bool) (inner : Nat) : Text :=
  if behindKey then newLine inner else [.scalar ' ']

section Collections

variable {behindKey : Bool} {column inner : Nat}

theorem skip_lead {u : Text} (hu : LineStart u) (h : behindKey = false → inner = column + 2) :
    Cursor.skip ⟨lead behindKey inner ++ u, if behindKey then none else some (column + 1)⟩ =
      ⟨u, some inner⟩ := by
  cases behindKey with
  | true => exact skip_newLine hu.startsToken none
  | false =>
    rw [h rfl]
    exact skip_space hu.startsToken (some (column + 1))

theorem length_lead (behindKey : Bool) (inner : Nat) : 0 < (lead behindKey inner).length := by
  cases behindKey <;> exact Nat.succ_pos _

/-- A sequence, in the column of its key or two columns behind its dash. -/
theorem nodeReads_array {x : Text × Datum} {xs : List (Text × Datum)}
    (h : ∀ y ∈ x :: xs, NodeReads false inner y.1 y.2)
    (hs : ∀ y ∈ x :: xs, ∃ t, y.1 = .scalar ' ' :: t)
    (hinner : inner = if behindKey then column else column + 2) :
    NodeReads behindKey column
      (lead behindKey inner ++ .scalar '-' :: (x.1 ++ itemLines inner xs))
      (.array ((x :: xs).map Prod.snd)) := by
  intro bound k u hbound hu hk hlast
  have hlead := length_lead behindKey inner
  simp only [List.length_append, List.length_cons] at hbound
  obtain ⟨bound, rfl⟩ : ∃ b, bound = b + 1 := ⟨bound - 1, by omega⟩
  obtain ⟨t, ht⟩ := hs x List.mem_cons_self
  have hcolumn : k ≤ inner ∧ (k = inner → afterMark? '-' u = none) ∧
      (column + 1 ≤ inner ∨ behindKey = true ∧ inner + 1 = column + 1) := by
    cases behindKey with
    | true =>
      obtain rfl : inner = column := hinner
      exact ⟨hk, hlast rfl, .inr ⟨rfl, rfl⟩⟩
    | false =>
      obtain rfl : inner = column + 2 := hinner
      exact ⟨by omega, by omega, .inl (by omega)⟩
  obtain ⟨nodes, hds, hreads⟩ := exists_blockItems h hs hu hcolumn.1 hcolumn.2.1
    bound (by rw [List.length_append]; omega)
  refine ⟨.sequence nodes, ⟨u, some k⟩, ?_, skip_of_startsToken hu.startsToken _, ?_⟩
  · rw [ht] at hreads ⊢
    simp only [List.append_assoc, List.cons_append] at hreads ⊢
    rw [skip_lead (.item _) fun hb => by rw [hinner, hb]; rfl, blockNode_dash hcolumn.2.2, hreads]
    rfl
  · rw [Node.toDatum, hds]
    rfl

/-- A mapping, two columns behind its key or dash. -/
theorem nodeReads_object {e : Entry} {es : List Entry} (h : ∀ f ∈ e :: es, f.Reads (column + 2))
    (hd : ((entryFields (e :: es)).map Prod.fst).Nodup) :
    NodeReads behindKey column
      (lead behindKey (column + 2) ++
        (e.name ++ .scalar ':' :: (e.text ++ entryLines (column + 2) es)))
      (.object (entryFields (e :: es))) := by
  intro bound k u hbound hu hk _
  have he := h e List.mem_cons_self
  have hlead := length_lead behindKey (column + 2)
  simp only [List.length_append, List.length_cons] at hbound
  obtain ⟨bound, rfl⟩ : ∃ b, bound = b + 1 := ⟨bound - 1, by omega⟩
  obtain ⟨entries, hds, hreads⟩ := exists_blockEntries h hu (k := k) (by omega) (by omega)
    bound (by rw [List.length_append]; omega)
  refine ⟨.mapping entries, ⟨u, some k⟩, ?_, skip_of_startsToken hu.startsToken _, ?_⟩
  · have hspace : startsWithSpace (e.text ++ entryLines (column + 2) es ++ (newLine k ++ u)) =
        true := by
      rw [List.append_assoc]
      exact he.space _
    have hleast : column + 1 ≤ column + 2 := Nat.le_succ _
    have hkey := blockNode_key he.key hleast hspace behindKey bound
    simp only [List.append_assoc, List.cons_append] at hkey hreads ⊢
    rw [skip_lead (he.key.lineStart _) fun _ => rfl, hkey, hreads]
    rfl
  · rw [Node.toDatum, hds [] hd]
    rfl

end Collections

end ScalarScript.Yaml
