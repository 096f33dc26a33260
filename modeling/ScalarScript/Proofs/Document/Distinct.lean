import ScalarScript.Json.Read
import ScalarScript.Proofs.Document.Restored
import ScalarScript.Yaml.Read

/-!
# Data as documents hold it

No two fields of an object have the same name: of two that a text gives one name, the later value
counts. What is read from a text is such data, and such data is the same as itself, fields compared
by their names.

Results:
* `Datum.Distinct.same_self`: the comparison of data finds no difference there.
* `Datum.Distinct.setField`: setting a field keeps the names distinct.
* **`Json.distinct_of_read`**, **`Yaml.distinct_of_read`**: every text that is read gives such data.
-/

namespace ScalarScript

/-! ## Distinct names -/

/-- Data in which no two fields of an object have the same name. -/
inductive Datum.Distinct : Datum → Prop
  | null : Distinct .null
  | bool (b : Bool) : Distinct (.bool b)
  | int (n : Int) : Distinct (.int n)
  | float (x : Binary64) : Distinct (.float x)
  | text (t : Text) : Distinct (.text t)
  | array {items : List Datum} (h : ∀ d ∈ items, Distinct d) : Distinct (.array items)
  | object {fields : List (Text × Datum)} (hd : (fields.map Prod.fst).Nodup)
    (h : ∀ field ∈ fields, Distinct field.2) : Distinct (.object fields)

/-- What is found under a name is one of the fields. -/
theorem mem_of_lookup {α : Type} {fields : List (Text × α)} {name : Text} {a : α}
    (h : fields.lookup name = some a) : (name, a) ∈ fields := by
  obtain ⟨before, after, rfl, -⟩ := List.lookup_eq_some_iff.mp h
  exact List.mem_append_right before List.mem_cons_self

/-- With distinct names, each field is found under its own name. -/
theorem Datum.lookup_of_mem {fields : List (Text × Datum)} {field : Text × Datum}
    (hd : (fields.map Prod.fst).Nodup) (h : field ∈ fields) :
    fields.lookup field.1 = some field.2 := by
  obtain ⟨before, after, rfl⟩ := List.append_of_mem h
  refine List.lookup_eq_some_iff.mpr ⟨before, after, rfl, fun other ho => ?_⟩
  exact bne_iff_ne.mpr fun he => notMem_of_nodup hd (he ▸ List.mem_map_of_mem ho)

theorem Datum.sameItems_self {items : List Datum} (h : ∀ d ∈ items, d.same d = true) :
    same.sameItems items items = true := by
  induction items with
  | nil => rfl
  | cons d items ih =>
    obtain ⟨hd, hitems⟩ := List.forall_mem_cons.mp h
    rw [same.sameItems, hd, ih hitems]
    rfl

/-- Fields that are among others, found there and the same as themselves. -/
theorem Datum.sameFields_of_subset {fields all : List (Text × Datum)} (hsub : fields ⊆ all)
    (hd : (all.map Prod.fst).Nodup) (h : ∀ field ∈ all, field.2.same field.2 = true) :
    same.sameFields fields all = true := by
  induction fields with
  | nil => rfl
  | cons field fields ih =>
    obtain ⟨hmem, hsub⟩ := List.cons_subset.mp hsub
    rw [same.sameFields, lookup_of_mem hd hmem, ih hsub]
    exact (Bool.and_true _).trans (h field hmem)

/-- Such data is the same as itself. -/
theorem Datum.Distinct.same_self {d : Datum} (h : d.Distinct) : d.same d = true := by
  induction h with
  | null => rfl
  | bool b => exact Datum.same_bool_iff.mpr rfl
  | int n => exact same_int_iff.mpr rfl
  | float x => cases hx : x.toInt? <;> simp [same, integer?, hx]
  | text t => exact same_text_iff.mpr rfl
  | array _ ih => exact sameItems_self ih
  | @object fields hd _ ih =>
    rw [same, beq_self_eq_true, sameFields_of_subset (List.Subset.refl fields) hd ih]
    rfl

theorem Datum.distinct_ofFields {fields : List (String × Datum)} (names : List String)
    (hn : fields.map Prod.fst = names) (hd : (names.map Text.of).Nodup)
    (h : ∀ field ∈ fields, field.2.Distinct) : (Datum.ofFields fields).Distinct := by
  subst hn
  rw [List.map_map] at hd
  refine .object ?_ (List.forall_mem_map.mpr h)
  rw [List.map_map]
  exact hd

theorem Datum.Distinct.nil : (Datum.object []).Distinct := .object List.nodup_nil nofun

theorem Datum.Distinct.field {fields : List (Text × Datum)} {name : String} {d : Datum}
    (h : (Datum.object fields).Distinct) (hd : field? fields name = some d) : d.Distinct := by
  cases h with
  | object _ h => exact h _ (mem_of_lookup hd)

section SetField

variable {fields : List (Text × Datum)} {name : Text}

theorem Datum.setField_of_mem (h : name ∈ fields.map Prod.fst) (d : Datum) :
    setField fields name d =
      fields.map fun field => if field.1 = name then (name, d) else field := by
  obtain ⟨field, hf, hn⟩ := List.mem_map.mp h
  have hany : (fields.any fun field => field.1 == name) = true :=
    List.any_eq_true.mpr ⟨field, hf, beq_iff_eq.mpr hn⟩
  rw [setField, if_pos hany]

/-- Setting a field keeps the names distinct: a known name stays where it is. -/
theorem Datum.nodup_names_setField (h : (fields.map Prod.fst).Nodup) (d : Datum) :
    ((setField fields name d).map Prod.fst).Nodup := by
  by_cases hmem : name ∈ fields.map Prod.fst
  · have hnames : (fields.map fun field => if field.1 = name then (name, d) else field).map
        Prod.fst = fields.map Prod.fst := by
      rw [List.map_map]
      refine List.map_congr_left fun field _ => ?_
      by_cases he : field.1 = name <;> simp [he]
    rwa [setField_of_mem hmem, hnames]
  · rw [setField_of_notMem hmem, List.map_append]
    exact (List.perm_append_singleton name _).nodup_iff.mpr (List.nodup_cons.mpr ⟨hmem, h⟩)

theorem Datum.Distinct.setField {d : Datum} (h : (Datum.object fields).Distinct)
    (hd : d.Distinct) : (Datum.object (setField fields name d)).Distinct := by
  cases h with
  | object hn h =>
    refine .object (nodup_names_setField hn d) ?_
    by_cases hmem : name ∈ fields.map Prod.fst
    · rw [setField_of_mem hmem]
      refine List.forall_mem_map.mpr fun field hf => ?_
      split
      · exact hd
      · exact h field hf
    · rw [setField_of_notMem hmem]
      exact List.forall_mem_append.mpr ⟨h, List.forall_mem_singleton.mpr hd⟩

end SetField

/-! ## Reading -/

namespace Json

theorem distinct_of_unsigned? {negative : Bool} {t rest : Text} {d : Datum}
    (h : unsigned? negative t = some (d, rest)) : d.Distinct := by
  obtain ⟨⟨whole, behind⟩, -, h⟩ := Option.bind_eq_some_iff.mp h
  cases h
  exact iteInduction (motive := Datum.Distinct) (fun _ => .int _) fun _ => .float _

theorem distinct_of_number? {t rest : Text} {d : Datum} (h : number? t = some (d, rest)) :
    d.Distinct := by
  unfold number? at h
  split at h
  · split at h
    · cases h
      exact .float _
    · exact distinct_of_unsigned? h
  · exact distinct_of_unsigned? h

theorem distinct_of_mem_words : ∀ w ∈ words, w.2.Distinct := by
  simp only [words, List.forall_mem_cons]
  exact ⟨.null, .bool _, .bool _, .float _, .float _, nofun⟩

theorem distinct_of_atom? {t rest : Text} {d : Datum} (h : atom? t = some (d, rest)) :
    d.Distinct := by
  unfold atom? at h
  split at h
  · rename_i r hr
    cases h
    obtain ⟨w, hw, hd⟩ := List.exists_of_findSome?_eq_some hr
    obtain ⟨behind, -, hd⟩ := Option.map_eq_some_iff.mp hd
    cases hd
    exact distinct_of_mem_words w hw
  · exact distinct_of_number? h

section Parts

variable {bound : Nat} {t rest : Text}

/-- A value is distinct if the items and fields inside it are. -/
theorem distinct_of_value {d : Datum}
    (hitems : ∀ {t ds rest}, items bound t = some (ds, rest) → ∀ d ∈ ds, d.Distinct)
    (hfields : ∀ {t fs rest}, fields bound [] t = some (fs, rest) → (Datum.object fs).Distinct)
    (h : value (bound + 1) t = some (d, rest)) : d.Distinct := by
  cases t with
  | nil => cases h
  | cons p t =>
    rw [value] at h
    split at h
    · obtain ⟨r, -, he⟩ := Option.map_eq_some_iff.mp h
      cases he
      exact .text _
    split at h
    · split at h
      · cases h
      split at h
      · cases h
        exact .array nofun
      obtain ⟨⟨ds, behind⟩, hds, he⟩ := Option.map_eq_some_iff.mp h
      cases he
      exact .array (hitems hds)
    split at h
    · split at h
      · cases h
      split at h
      · cases h
        exact .nil
      obtain ⟨⟨fs, behind⟩, hfs, he⟩ := Option.map_eq_some_iff.mp h
      cases he
      exact hfields hfs
    exact distinct_of_atom? h

/-- The items from one on are distinct if that one and those behind it are. -/
theorem distinct_of_items {ds : List Datum}
    (hvalue : ∀ {t d rest}, value bound t = some (d, rest) → d.Distinct)
    (hitems : ∀ {t ds rest}, items bound t = some (ds, rest) → ∀ d ∈ ds, d.Distinct)
    (h : items (bound + 1) t = some (ds, rest)) : ∀ d ∈ ds, d.Distinct := by
  rw [items] at h
  split at h
  · cases h
  rename_i d behind hd
  split at h
  · cases h
  split at h
  · cases h
    exact List.forall_mem_singleton.mpr (hvalue hd)
  split at h
  · obtain ⟨⟨ds, behind⟩, hds, he⟩ := Option.map_eq_some_iff.mp h
    cases he
    exact List.forall_mem_cons.mpr ⟨hvalue hd, hitems hds⟩
  cases h

/-- The fields from one on are distinct if that one and those in front of it and behind it are. -/
theorem distinct_of_fields {seen fs : List (Text × Datum)}
    (hvalue : ∀ {t d rest}, value bound t = some (d, rest) → d.Distinct)
    (hfields : ∀ {seen t fs rest}, (Datum.object seen).Distinct →
      fields bound seen t = some (fs, rest) → (Datum.object fs).Distinct)
    (hseen : (Datum.object seen).Distinct) (h : fields (bound + 1) seen t = some (fs, rest)) :
    (Datum.object fs).Distinct := by
  cases t with
  | nil => cases h
  | cons p t =>
    rw [fields] at h
    split at h
    · cases h
    split at h
    · cases h
    split at h
    · cases h
    split at h
    · cases h
    split at h
    · cases h
    rename_i d behind hd
    split at h
    · cases h
    split at h
    · cases h
      exact hseen.setField (hvalue hd)
    split at h
    · exact hfields (hseen.setField (hvalue hd)) h
    cases h

end Parts

/-- What is read in at most so many steps: a value, the items of an array, and fields behind those
already read. -/
theorem distinct_of_parts (bound : Nat) :
    (∀ {t d rest}, value bound t = some (d, rest) → d.Distinct) ∧
      (∀ {t ds rest}, items bound t = some (ds, rest) → ∀ d ∈ ds, d.Distinct) ∧
      ∀ {seen t fs rest}, (Datum.object seen).Distinct →
        fields bound seen t = some (fs, rest) → (Datum.object fs).Distinct := by
  induction bound with
  | zero => exact ⟨nofun, nofun, nofun⟩
  | succ bound ih =>
    obtain ⟨hvalue, hitems, hfields⟩ := ih
    exact ⟨distinct_of_value hitems (hfields .nil),
      distinct_of_items hvalue hitems, distinct_of_fields hvalue hfields⟩

/-- **What a JSON text writes is data in which no two fields have the same name.** -/
theorem distinct_of_read {t : Text} {d : Datum} (h : read t = some d) : d.Distinct := by
  unfold read at h
  split at h
  · rename_i d' rest hd
    split at h
    · cases h
      exact (distinct_of_parts _).1 hd
    · cases h
  · cases h

end Json

namespace Yaml

theorem distinct_of_mem_words {w : String × Datum} (h : w ∈ words) : w.2.Distinct := by
  simp only [words, List.mem_append, List.mem_map] at h
  obtain (⟨_, -, rfl⟩ | ⟨_, -, rfl⟩) | ⟨_, -, rfl⟩ := h
  · exact .null
  · exact .bool true
  · exact .bool false

theorem distinct_of_resolve {t : Text} {d : Datum} (h : resolve t = .datum d) : d.Distinct := by
  unfold resolve at h
  split at h
  · cases h
    exact distinct_of_mem_words (List.mem_of_find?_eq_some ‹_›)
  split at h
  · cases h
  split at h
  · cases h
    exact .int _
  split at h
  · cases h
    exact .float _
  split at h <;> cases h

theorem distinct_of_scalar {s : Scalar} {d : Datum} (h : s.toDatum = .ok d) : d.Distinct := by
  unfold Scalar.toDatum at h
  split at h
  · cases h
    exact .text _
  split at h
  · cases h
    exact .text _
  · cases h
    exact distinct_of_resolve ‹_›
  · cases h
  · cases h

mutual

theorem distinct_of_node : ∀ {n : Node} {d : Datum}, n.toDatum = .ok d → d.Distinct
  | .scalar _, _, h => distinct_of_scalar (by rwa [Node.toDatum] at h)
  | .sequence items, _, h => by
    rw [Node.toDatum] at h
    obtain ⟨ds, hds, rfl⟩ := Except.map_eq_ok_iff.mp h
    exact .array (distinct_of_itemData hds)
  | .mapping entries, _, h => by
    rw [Node.toDatum] at h
    obtain ⟨fs, hfs, rfl⟩ := Except.map_eq_ok_iff.mp h
    exact distinct_of_fieldData .nil hfs

theorem distinct_of_itemData : ∀ {items : List Node} {ds : List Datum},
    Node.toDatum.itemData items = .ok ds → ∀ d ∈ ds, d.Distinct
  | [], _, h => by
    cases h
    exact nofun
  | n :: rest, _, h => by
    rw [Node.toDatum.itemData] at h
    obtain ⟨d, hd, h⟩ := Except.bind_eq_ok_iff.mp h
    obtain ⟨ds, hds, h⟩ := Except.bind_eq_ok_iff.mp h
    cases h
    exact List.forall_mem_cons.mpr ⟨distinct_of_node hd, distinct_of_itemData hds⟩

theorem distinct_of_fieldData : ∀ {entries : List (Scalar × Node)}
    {seen fs : List (Text × Datum)}, (Datum.object seen).Distinct →
    Node.toDatum.fieldData seen entries = .ok fs → (Datum.object fs).Distinct
  | [], _, _, hseen, h => by
    cases h
    exact hseen
  | (key, n) :: rest, _, _, hseen, h => by
    rw [Node.toDatum.fieldData] at h
    obtain ⟨name, -, h⟩ := Except.bind_eq_ok_iff.mp h
    obtain ⟨d, hd, h⟩ := Except.bind_eq_ok_iff.mp h
    exact distinct_of_fieldData (hseen.setField (distinct_of_node hd)) h

end

/-- **What a YAML text writes is data in which no two fields have the same name.** -/
theorem distinct_of_read {t : Text} {d : Datum} (h : read t = .ok d) : d.Distinct := by
  unfold read at h
  split at h
  · cases h
  dsimp only at h
  split at h
  · cases h
  · exact distinct_of_node h

end Yaml

end ScalarScript
