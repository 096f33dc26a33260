import ScalarScript.Json.Write
import ScalarScript.Proofs.Document.Trees
import ScalarScript.Proofs.Source.Same
import ScalarScript.Proofs.Source.Words

/-!
# Documents that are read back

Writing a document sorts the fields of its objects, and reading it back may change texts. Neither
matters to the script it holds as long as no text changes that a name, an operator or the type of a
node may be.

* `Datum.Regular`: data without doubles and surrogates, as the documents of well-formed scripts are.
* `Datum.restored`: data when its fields are sorted and a function is applied to its texts.
* `Datum.IsLeaf`: the data in the leaves of well-formed trees.
* `Restoring`: a function on texts that leaves ASCII alone, and what it does to string literals.

Results:
* **`Script.ofDatum_restored`**: the restored document of a well-formed script holds the restored
  script.
* **`Script.regular_toDatum`**: the documents of well-formed scripts are regular.
-/

namespace ScalarScript

/-! ## Joined texts -/

theorem Text.join_cons_cons (separator t u : Text) (ts : List Text) :
    join separator (t :: u :: ts) = t ++ separator ++ join separator (u :: ts) := rfl

/-- Behind the first, each text has the separator in front of it. -/
theorem Text.join_cons (separator t : Text) (ts : List Text) :
    join separator (t :: ts) = t ++ ts.flatMap (separator ++ ·) := by
  induction ts generalizing t with
  | nil => exact (List.append_nil t).symm
  | cons u us ih => rw [join_cons_cons, ih, List.flatMap_cons, List.append_assoc, List.append_assoc]

theorem Text.mem_join {separator : Text} {ts : List Text} {p : CodePoint}
    (h : p ∈ join separator ts) : p ∈ separator ∨ ∃ t ∈ ts, p ∈ t := by
  induction ts with
  | nil => cases h
  | cons t ts ih =>
    cases ts with
    | nil => exact .inr ⟨t, List.mem_cons_self, h⟩
    | cons u us =>
      rw [join_cons_cons, List.mem_append, List.mem_append] at h
      rcases h with (h | h) | h
      · exact .inr ⟨t, List.mem_cons_self, h⟩
      · exact .inl h
      · rcases ih h with h | ⟨v, hv, h⟩
        · exact .inl h
        · exact .inr ⟨v, List.mem_cons_of_mem _ hv, h⟩

/-! ## Data -/

/-- Data without doubles. Its texts hold no surrogates, and the names of the fields of an object are
distinct and have the property `P`. -/
inductive Datum.Regular (P : Text → Prop) : Datum → Prop
  | null : Regular P .null
  | bool (b : Bool) : Regular P (.bool b)
  | int (n : Int) : Regular P (.int n)
  | text {t : Text} (h : t.IsScalars) : Regular P (.text t)
  | array {items : List Datum} (h : ∀ d ∈ items, Regular P d) : Regular P (.array items)
  | object {fields : List (Text × Datum)} (hd : (fields.map Prod.fst).Nodup)
    (hn : ∀ field ∈ fields, P field.1) (h : ∀ field ∈ fields, Regular P field.2) :
    Regular P (.object fields)

/-- Data with its fields sorted and a function applied to its texts. -/
def Datum.restored (f : Text → Text) : Datum → Datum
  | text t => text (f t)
  | array items => array (restoredItems f items)
  | object fields => object (Json.sortFields (restoredFields f fields))
  | null => null
  | bool b => bool b
  | int n => int n
  | float x => float x
where
  restoredItems (f : Text → Text) : List Datum → List Datum
    | [] => []
    | d :: rest => d.restored f :: restoredItems f rest
  restoredFields (f : Text → Text) : List (Text × Datum) → List (Text × Datum)
    | [] => []
    | (name, d) :: rest => (name, d.restored f) :: restoredFields f rest

theorem Datum.restoredItems_eq (f : Text → Text) (items : List Datum) :
    restored.restoredItems f items = items.map (restored f) := by
  induction items with
  | nil => rfl
  | cons d rest ih => rw [restored.restoredItems, ih, List.map_cons]

theorem Datum.restoredFields_eq (f : Text → Text) (fields : List (Text × Datum)) :
    restored.restoredFields f fields = fields.map fun field => (field.1, field.2.restored f) := by
  induction fields with
  | nil => rfl
  | cons field rest ih => rw [restored.restoredFields, ih, List.map_cons]

/-! ## Fields -/

theorem Datum.setField_of_notMem {seen : List (Text × Datum)} {name : Text}
    (h : name ∉ seen.map Prod.fst) (d : Datum) : setField seen name d = seen ++ [(name, d)] := by
  have hany : (seen.any fun field => field.1 == name) = false := by
    simpa using fun a x hx he => h (List.mem_map.mpr ⟨(a, x), hx, he⟩)
  rw [setField, hany, if_neg Bool.false_ne_true]

/-- The name of a field is not among those in front of it. -/
theorem Datum.notMem_of_nodup {seen fields : List (Text × Datum)} {field : Text × Datum}
    (hd : ((seen ++ field :: fields).map Prod.fst).Nodup) : field.1 ∉ seen.map Prod.fst := by
  rw [List.map_append, List.map_cons, List.nodup_append] at hd
  exact fun hmem => hd.2.2 _ hmem _ List.mem_cons_self rfl

section Fields

variable {α β : Type}

theorem sortFields_perm (fields : List (Text × α)) : (Json.sortFields fields).Perm fields :=
  List.mergeSort_perm _ _

/-- Sorting goes by the names alone. -/
theorem sortFields_map (g : Text × α → β) (fields : List (Text × α)) :
    Json.sortFields (fields.map fun field => (field.1, g field)) =
      (Json.sortFields fields).map fun field => (field.1, g field) := by
  refine (List.map_mergeSort ?_).symm
  exact fun _ _ _ _ => rfl

end Fields

/-! ## The data in well-formed trees -/

/-- The data in the leaves of well-formed trees: numbers, truth values and names. -/
inductive Datum.IsLeaf : Datum → Prop
  | int (n : Int) : IsLeaf (.int n)
  | bool (b : Bool) : IsLeaf (.bool b)
  | name {t : Text} (h : t.IsName) : IsLeaf (.text t)

theorem Expr.WellFormed.holds {e : Expr} (h : e.WellFormed) : e.Holds Datum.IsLeaf := by
  induction h with
  | string s pos => exact .string s pos
  | char c pos => exact .char (.int _) pos
  | int h pos => exact .int (.int _) pos
  | bool b pos => exact .bool (.bool b) pos
  | var hn pos => exact .var (.name hn) pos
  | binary op pos _ _ hl hr => exact .binary op pos hl hr
  | unary op pos _ he => exact .unary op pos he
  | method pos hn _ _ ht ha => exact .method pos (.name hn) ht ha
  | call pos hn _ ha => exact .call pos (.name hn) ha
  | index pos _ _ ht hi => exact .index pos ht hi

theorem Statement.WellFormed.holds {s : Statement} (h : s.WellFormed) : s.Holds Datum.IsLeaf := by
  cases h with
  | declare pos hn he => exact .declare pos (.name hn) he.holds
  | constant pos hn he => exact .constant pos (.name hn) he.holds
  | assign pos hn he => exact .assign pos (.name hn) he.holds
  | indexAssign pos hn hi he => exact .indexAssign pos (.name hn) hi.holds he.holds
  | print pos he => exact .print pos he.holds
  | expression pos he => exact .expression pos he.holds

/-! ## Restored scripts -/

/-- A function on texts that leaves ASCII alone and makes no surrogate, and what it does to string
literals. -/
structure Restoring (f : Text → Text) (g : ScalarString → ScalarString) : Prop where
  ascii : ∀ t : Text, (∀ p ∈ t, p.toNat < 0x80) → f t = t
  string : ∀ s : ScalarString, f s.text = (g s).text

section Restored

variable {g : ScalarString → ScalarString} {e : Expr} {s : Statement}

theorem Expr.WellFormed.restored (h : e.WellFormed) : (e.restored g).WellFormed := by
  induction h with
  | string s _ => exact .string (g s) none
  | char c _ => exact .char c none
  | int hn _ => exact .int hn none
  | bool b _ => exact .bool b none
  | var hn _ => exact .var hn none
  | binary op _ _ _ hl hr => exact .binary op none hl hr
  | unary op _ _ he => exact .unary op none he
  | method _ hn _ _ ht ha =>
    refine .method none hn ht ?_
    rw [restoredList_eq]
    exact List.forall_mem_map.mpr ha
  | call _ hn _ ha =>
    refine .call none hn ?_
    rw [restoredList_eq]
    exact List.forall_mem_map.mpr ha
  | index _ _ _ ht hi => exact .index none ht hi

theorem Statement.WellFormed.restored (h : s.WellFormed) : (s.restored g).WellFormed := by
  cases h with
  | declare _ hn he => exact .declare none hn he.restored
  | constant _ hn he => exact .constant none hn he.restored
  | assign _ hn he => exact .assign none hn he.restored
  | indexAssign _ hn hi he => exact .indexAssign none hn hi.restored he.restored
  | print _ he => exact .print none he.restored
  | expression _ he => exact .expression none he.restored

theorem Expr.listMapPositions_restoredList {es : List Expr}
    (h : ∀ e ∈ es, (e.restored g).withoutPositions = e.restored g) :
    mapPositions.listMapPositions (fun _ => none) (restored.restoredList g es) =
      restored.restoredList g es := by
  rw [restoredList_eq, listMapPositions_eq, List.map_map]
  exact List.map_congr_left h

theorem Expr.WellFormed.withoutPositions_restored (h : e.WellFormed) :
    (e.restored g).withoutPositions = e.restored g := by
  induction h with
  | string | char | int | bool | var => rfl
  | binary op _ _ _ hl hr => exact congrArg₂ (Expr.binary op · · none) hl hr
  | unary op _ _ he => exact congrArg (Expr.unary op · none) he
  | @method _ name _ _ _ _ _ ht ha =>
    exact congrArg₂ (Expr.method · (.text name) · none) ht (Expr.listMapPositions_restoredList ha)
  | @call name _ _ _ _ ha =>
    exact congrArg (Expr.call (.text name) · none) (Expr.listMapPositions_restoredList ha)
  | index _ _ _ ht hi => exact congrArg₂ (Expr.index · · none) ht hi

theorem Statement.WellFormed.withoutPositions_restored (h : s.WellFormed) :
    (s.restored g).withoutPositions = s.restored g := by
  cases h with
  | @declare name _ _ _ he =>
    exact congrArg (Statement.declare (.text name) · none) he.withoutPositions_restored
  | @constant name _ _ _ he =>
    exact congrArg (Statement.constant (.text name) · none) he.withoutPositions_restored
  | @assign name _ _ _ he =>
    exact congrArg (Statement.assign (.text name) · none) he.withoutPositions_restored
  | @indexAssign name _ _ _ _ hi he =>
    exact congrArg₂ (Statement.indexAssign (.text name) · · none) hi.withoutPositions_restored
      he.withoutPositions_restored
  | print _ he => exact congrArg (Statement.print · none) he.withoutPositions_restored
  | expression _ he => exact congrArg (Statement.expression · none) he.withoutPositions_restored

theorem Expr.restoredList_id {es : List Expr}
    (h : ∀ e ∈ es, e.restored id = e.withoutPositions) :
    restored.restoredList id es = mapPositions.listMapPositions (fun _ => none) es := by
  rw [restoredList_eq, listMapPositions_eq]
  exact List.map_congr_left h

/-- Where the literals stay the same, nothing but the positions is left out. -/
theorem Expr.WellFormed.restored_id (h : e.WellFormed) : e.restored id = e.withoutPositions := by
  induction h with
  | string | char | int | bool | var => rfl
  | binary op _ _ _ hl hr => exact congrArg₂ (Expr.binary op · · none) hl hr
  | unary op _ _ he => exact congrArg (Expr.unary op · none) he
  | @method _ name _ _ _ _ _ ht ha =>
    exact congrArg₂ (Expr.method · (.text name) · none) ht (Expr.restoredList_id ha)
  | @call name _ _ _ _ ha =>
    exact congrArg (Expr.call (.text name) · none) (Expr.restoredList_id ha)
  | index _ _ _ ht hi => exact congrArg₂ (Expr.index · · none) ht hi

theorem Statement.WellFormed.restored_id (h : s.WellFormed) :
    s.restored id = s.withoutPositions := by
  cases h with
  | @declare name _ _ _ he => exact congrArg (Statement.declare (.text name) · none) he.restored_id
  | @constant name _ _ _ he =>
    exact congrArg (Statement.constant (.text name) · none) he.restored_id
  | @assign name _ _ _ he => exact congrArg (Statement.assign (.text name) · none) he.restored_id
  | @indexAssign name _ _ _ _ hi he =>
    exact congrArg₂ (Statement.indexAssign (.text name) · · none) hi.restored_id he.restored_id
  | print _ he => exact congrArg (Statement.print · none) he.restored_id
  | expression _ he => exact congrArg (Statement.expression · none) he.restored_id

/-- A restored script is the same as before exactly if nothing but positions has gone. -/
theorem Script.same_restored_iff {ss : List Statement} {name name' : Text}
    (hs : ∀ s ∈ ss, s.WellFormed) :
    Script.same ⟨ss.map (Statement.restored g), .text name'⟩ ⟨ss, .text name⟩ = true ↔
      (∀ s ∈ ss, s.restored g = s.withoutPositions) ∧ name' = name := by
  have hrestored : ∀ s ∈ ss.map (Statement.restored g), s.WellFormed :=
    List.forall_mem_map.mpr fun s hmem => (hs s hmem).restored
  have hpositions : (ss.map (Statement.restored g)).map Statement.withoutPositions =
      ss.map (Statement.restored g) := by
    rw [List.map_map]
    exact List.map_congr_left fun s hmem => (hs s hmem).withoutPositions_restored
  rw [Script.same_iff hrestored hs, hpositions, List.map_inj_left]

end Restored

/-! ## Reading restored documents -/

namespace Restoring

variable {f : Text → Text} {g : ScalarString → ScalarString}

/-- Restoring keeps the shape of documents. -/
theorem carries (h : Restoring f g) : Document.Carries (Datum.restored f) g where
  array items := by rw [Datum.restored, Datum.restoredItems_eq]
  object fields := by
    rw [Datum.restored, Datum.restoredFields_eq]
    exact ⟨_, rfl, sortFields_perm _⟩
  word s hs := by rw [Datum.ofString, Datum.restored, h.ascii _ hs]
  string s := by rw [Datum.restored, h.string]

theorem restored_leaf (h : Restoring f g) {d : Datum} (hd : d.IsLeaf) : d.restored f = d := by
  cases hd with
  | int n => rfl
  | bool b => rfl
  | name hn => rw [Datum.restored, h.ascii _ hn.ascii]

end Restoring

/-- **The restored document of a well-formed script holds the restored script.** -/
theorem Script.ofDatum_restored {f : Text → Text} {g : ScalarString → ScalarString}
    (h : Restoring f g) {ss : List Statement} {name : Text} (hs : ∀ s ∈ ss, s.WellFormed) :
    Script.ofDatum ((Script.toDatum ⟨ss, .text name⟩).restored f) =
      .ok ⟨ss.map (Statement.restored g), .text (f name)⟩ :=
  Script.ofDatum_carried h.carries (fun _ => h.restored_leaf) fun s hmem => (hs s hmem).holds

/-! ## Documents of scripts -/

theorem Text.IsName.isScalars {t : Text} (h : t.IsName) : t.IsScalars := by
  intro p hp
  have hc := h.continuesName p hp
  cases p with
  | scalar c => rfl
  | surrogate i => cases hc

theorem Datum.forms_regular : Document.Forms (Regular (· ∈ Document.fieldNames)) where
  text := .text
  array := .array
  fields names hn hs h := by
    refine .object (Document.nodup_of_sublist hn hs) ?_ (List.forall_mem_map.mpr h)
    subst hn
    rw [List.map_map] at hs
    exact List.forall_mem_map.mpr fun field hf => hs.subset (List.mem_map_of_mem hf)

theorem Datum.IsLeaf.regular {P : Text → Prop} {d : Datum} (h : d.IsLeaf) : d.Regular P := by
  cases h with
  | int n => exact .int n
  | bool b => exact .bool b
  | name hn => exact .text hn.isScalars

/-- The document of a well-formed statement is regular. -/
theorem Statement.WellFormed.regular_toDatum {s : Statement} (h : s.WellFormed) :
    s.toDatum.Regular (· ∈ Document.fieldNames) :=
  h.holds.toDatum Datum.forms_regular fun _ hd => hd.regular

/-- The document of a well-formed script with a name of scalar values is regular. -/
theorem Script.regular_toDatum {ss : List Statement} {name : Text} (hs : ∀ s ∈ ss, s.WellFormed)
    (hn : name.IsScalars) :
    (Script.toDatum ⟨ss, .text name⟩).Regular (· ∈ Document.fieldNames) :=
  Datum.forms_regular.script (.text hn) fun s hmem => (hs s hmem).regular_toDatum

end ScalarScript
