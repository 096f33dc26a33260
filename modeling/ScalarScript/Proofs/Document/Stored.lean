import ScalarScript.Proofs.Document.Distinct
import ScalarScript.Proofs.Document.Trees

/-!
# Scripts that documents hold

There are many ways to put a script into a document: fields may be left out, be there for no reason
and stand in any order, and a name, a number or a truth value may be any data. What is read has none
of this variety left, so writing it down and reading it back changes nothing more.

Results:
* **`Script.holds_of_ofDatum`**: what a document holds is made of data as documents hold it,
  whatever the document looks like; `Script.holds_of_json`, `Script.holds_of_yaml`: so is what a
  text holds.
* `Script.Holds.distinct_toDatum`: the document of such a script is again data of that kind.
* `Script.Holds.ofDatum_toDatum`: it holds the script without its positions.
* `Script.Holds.same_restored`, `Script.Holds.toDatum_restored`: that script is the same as before,
  and is written the same way.
* **`Script.ofDatum_settles`**: a script that was read is written as a document that holds the same
  script, and that script is written the same way.
-/

namespace ScalarScript

/-! ## What is read -/

namespace Document

/-- A datum and what it would be hold distinct data. -/
structure Reading.Holds (r : Reading) : Prop where
  datum : r.datum.Distinct
  expr : ∀ {e : Expr}, r.expr = .ok e → e.Holds Datum.Distinct
  list : ∀ {es : List Expr}, r.list = .ok es → ∀ e ∈ es, e.Holds Datum.Distinct

section Fields

variable {fields : Fields} {name : String}

theorem holds_of_need {r : Reading} (h : ∀ field ∈ fields, field.2.Holds)
    (hr : need fields name = .ok r) : r.Holds := by
  rw [need] at hr
  split at hr
  · cases hr
    exact h _ (mem_of_lookup ‹_›)
  · cases hr

theorem holds_of_needExpr {e : Expr} (h : ∀ field ∈ fields, field.2.Holds)
    (he : needExpr fields name = .ok e) : e.Holds Datum.Distinct := by
  obtain ⟨r, hr, he⟩ := Except.bind_eq_ok_iff.mp he
  exact (holds_of_need h hr).expr he

theorem distinct_of_needDatum {d : Datum} (h : ∀ field ∈ fields, field.2.Holds)
    (hd : needDatum fields name = .ok d) : d.Distinct := by
  obtain ⟨r, hr, hd⟩ := Except.bind_eq_ok_iff.mp hd
  cases hd
  exact (holds_of_need h hr).datum

theorem holds_of_argumentsOf {es : List Expr} (h : ∀ field ∈ fields, field.2.Holds)
    (hes : argumentsOf fields = .ok es) : ∀ e ∈ es, e.Holds Datum.Distinct := by
  rw [argumentsOf] at hes
  split at hes
  · exact (h _ (mem_of_lookup ‹_›)).list hes
  · cases hes
    exact nofun

/-- A node holds distinct data if the readings of its fields do. -/
theorem holds_of_exprOfFields {e : Expr} (h : ∀ field ∈ fields, field.2.Holds)
    (he : exprOfFields fields = .ok e) : e.Holds Datum.Distinct := by
  rw [exprOfFields] at he
  obtain hk | ⟨k, hk⟩ := Option.eq_none_or_eq_some (ExprType.ofDatum? (typeOf fields)) <;>
    rw [hk] at he
  · cases he
  cases k <;> simp only [Except.bind_eq_ok_iff, Except.pure_eq_ok_iff] at he
  case string =>
    obtain ⟨value, -, s, -, rfl⟩ := he
    exact .string s none
  case char =>
    obtain ⟨value, hv, rfl⟩ := he
    exact .char (distinct_of_needDatum h hv) none
  case int =>
    obtain ⟨value, hv, rfl⟩ := he
    exact .int (distinct_of_needDatum h hv) none
  case bool =>
    obtain ⟨value, hv, rfl⟩ := he
    exact .bool (distinct_of_needDatum h hv) none
  case var =>
    obtain ⟨name, hn, rfl⟩ := he
    exact .var (distinct_of_needDatum h hn) none
  case binary =>
    obtain ⟨_, -, op, -, left, hl, right, hr, rfl⟩ := he
    exact .binary op none (holds_of_needExpr h hl) (holds_of_needExpr h hr)
  case unary =>
    obtain ⟨_, -, op, -, operand, ho, rfl⟩ := he
    exact .unary op none (holds_of_needExpr h ho)
  case call =>
    obtain ⟨target, ht, name, hn, arguments, ha, rfl⟩ := he
    exact .method none (distinct_of_needDatum h hn) (holds_of_needExpr h ht)
      (holds_of_argumentsOf h ha)
  case fnCall =>
    obtain ⟨name, hn, arguments, ha, rfl⟩ := he
    exact .call none (distinct_of_needDatum h hn) (holds_of_argumentsOf h ha)
  case index =>
    obtain ⟨target, ht, i, hi, rfl⟩ := he
    exact .index none (holds_of_needExpr h ht) (holds_of_needExpr h hi)

theorem holds_of_statementOfFields {s : Statement} (h : ∀ field ∈ fields, field.2.Holds)
    (hs : statementOfFields fields = .ok s) : s.Holds Datum.Distinct := by
  rw [statementOfFields] at hs
  obtain hk | ⟨k, hk⟩ := Option.eq_none_or_eq_some (StatementType.ofDatum? (typeOf fields)) <;>
    rw [hk] at hs
  · cases hs
  cases k <;> simp only [Except.bind_eq_ok_iff, Except.pure_eq_ok_iff] at hs
  case declare =>
    obtain ⟨name, hn, e, he, rfl⟩ := hs
    exact .declare none (distinct_of_needDatum h hn) (holds_of_needExpr h he)
  case constant =>
    obtain ⟨name, hn, e, he, rfl⟩ := hs
    exact .constant none (distinct_of_needDatum h hn) (holds_of_needExpr h he)
  case assign =>
    obtain ⟨name, hn, e, he, rfl⟩ := hs
    exact .assign none (distinct_of_needDatum h hn) (holds_of_needExpr h he)
  case indexAssign =>
    obtain ⟨name, hn, i, hi, e, he, rfl⟩ := hs
    exact .indexAssign none (distinct_of_needDatum h hn) (holds_of_needExpr h hi)
      (holds_of_needExpr h he)
  case print =>
    obtain ⟨e, he, rfl⟩ := hs
    exact .print none (holds_of_needExpr h he)
  case expression =>
    obtain ⟨e, he, rfl⟩ := hs
    exact .expression none (holds_of_needExpr h he)

end Fields

/-- A list of nodes that is not an array has nothing in it. -/
theorem eq_nil_of_listOfItems {α : Type} {d : Datum} {xs : List α}
    (h : listOfItems (.ok []) d = .ok xs) : xs = [] := by
  unfold listOfItems at h
  split at h <;> cases h <;> rfl

theorem holds_fieldReadings {fields : List (Text × Datum)}
    (h : ∀ field ∈ fields, (reading field.2).Holds) :
    ∀ field ∈ reading.fieldReadings fields, field.2.Holds := by
  rw [fieldReadings_eq]
  exact List.forall_mem_map.mpr h

theorem holds_of_itemReadings {items : List Datum} {es : List Expr}
    (h : ∀ d ∈ items, (reading d).Holds) (hes : reading.itemReadings items = .ok es) :
    ∀ e ∈ es, e.Holds Datum.Distinct := by
  intro e he
  rw [itemReadings_eq] at hes
  obtain ⟨d, hd, hde⟩ := Except.exists_of_mapM_eq_ok hes he
  exact (h d hd).expr hde

/-- What is neither an array nor an object is no expression and at most an empty list. -/
theorem Reading.Holds.of_plain {d : Datum} (hd : d.Distinct) :
    Reading.Holds ⟨d, .error .notObject, listOfItems (.ok []) d⟩ where
  datum := hd
  expr := nofun
  list h := by
    rw [eq_nil_of_listOfItems h]
    exact nofun

/-- Whatever distinct data may be as a part of a script holds distinct data. -/
theorem holds_reading {d : Datum} (h : d.Distinct) : (reading d).Holds := by
  induction h with
  | null => exact .of_plain .null
  | bool b => exact .of_plain (.bool b)
  | int n => exact .of_plain (.int n)
  | float x => exact .of_plain (.float x)
  | text t => exact .of_plain (.text t)
  | array h ih => exact ⟨.array h, nofun, holds_of_itemReadings ih⟩
  | object hd h ih =>
    refine ⟨.object hd h, holds_of_exprOfFields (holds_fieldReadings ih), fun hes => ?_⟩
    rw [eq_nil_of_listOfItems hes]
    exact nofun

theorem holds_of_statementOf {d : Datum} {s : Statement} (h : d.Distinct)
    (hs : statementOf d = .ok s) : s.Holds Datum.Distinct := by
  cases h with
  | object hd h =>
    exact holds_of_statementOfFields
      (holds_fieldReadings fun field hf => holds_reading (h field hf)) hs
  | _ => cases hs

theorem holds_of_statementsOf {d : Datum} {ss : List Statement} (h : d.Distinct)
    (hss : statementsOf d = .ok ss) : ∀ s ∈ ss, s.Holds Datum.Distinct := by
  unfold statementsOf at hss
  split at hss
  · intro s hs
    obtain ⟨d, hd, hds⟩ := Except.exists_of_mapM_eq_ok hss hs
    cases h with
    | array h => exact holds_of_statementOf (h d hd) hds
  · rw [eq_nil_of_listOfItems hss]
    exact nofun

end Document

/-- **What a document holds is made of data as documents hold it.** -/
theorem Script.holds_of_ofDatum {d : Datum} {script : Script} (h : d.Distinct)
    (hs : Script.ofDatum d = .ok script) : script.Holds Datum.Distinct := by
  unfold ofDatum at hs
  split at hs
  · rename_i fields
    have hname : ((Datum.field? fields "name").getD (.text defaultName)).Distinct := by
      cases hn : Datum.field? fields "name" with
      | none => exact .text _
      | some name => exact h.field hn
    split at hs
    · obtain ⟨ss, hss, hs⟩ := Except.bind_eq_ok_iff.mp hs
      cases hs
      exact ⟨Document.holds_of_statementsOf (h.field ‹_›) hss, hname⟩
    · cases hs
      exact ⟨nofun, hname⟩
  · cases hs

/-- So is what a JSON text holds. -/
theorem Script.holds_of_json {t : Text} {d : Datum} {script : Script} (hd : Json.read t = some d)
    (hs : Script.ofDatum d = .ok script) : script.Holds Datum.Distinct :=
  holds_of_ofDatum (Json.distinct_of_read hd) hs

/-- So is what a YAML text holds. -/
theorem Script.holds_of_yaml {t : Text} {d : Datum} {script : Script} (hd : Yaml.read t = .ok d)
    (hs : Script.ofDatum d = .ok script) : script.Holds Datum.Distinct :=
  holds_of_ofDatum (Yaml.distinct_of_read hd) hs

/-! ## What is read is written and read again -/

theorem Datum.forms_distinct : Document.Forms Distinct where
  text := fun _ => .text _
  array := .array
  fields names hn hs h := distinct_ofFields names hn (hs.nodup Document.nodup_fieldNames) h

/-- The document of a script made of such data is such data. -/
theorem Script.Holds.distinct_toDatum {script : Script} (h : script.Holds Datum.Distinct) :
    script.toDatum.Distinct := h.toDatum Datum.forms_distinct fun _ hd => hd

/-- The document of a script holds that script without its positions. -/
theorem Script.Holds.ofDatum_toDatum {P : Datum → Prop} {script : Script} (h : script.Holds P) :
    Script.ofDatum script.toDatum =
      .ok ⟨script.statements.map (Statement.restored id), script.name⟩ :=
  ofDatum_carried Document.carries_id (fun _ _ => rfl) h.statements

/-! ## Without positions -/

section Restored

variable {P : Datum → Prop} {e : Expr} {s : Statement} {script : Script}

theorem Expr.listToDatum_restoredList {es : List Expr}
    (h : ∀ e ∈ es, (e.restored id).toDatum = e.toDatum) :
    toDatum.listToDatum (restored.restoredList id es) = toDatum.listToDatum es := by
  induction es with
  | nil => rfl
  | cons e es ih =>
    obtain ⟨he, hes⟩ := List.forall_mem_cons.mp h
    rw [restored.restoredList, toDatum.listToDatum, he, ih hes, toDatum.listToDatum]

/-- Positions are not written. -/
theorem Expr.Holds.toDatum_restored (h : e.Holds P) : (e.restored id).toDatum = e.toDatum := by
  induction h with
  | string | char | int | bool | var => rfl
  | binary op _ _ _ hl hr => simp only [restored, Expr.toDatum, hl, hr]
  | unary op _ _ he => simp only [restored, Expr.toDatum, he]
  | method _ _ _ _ ht ha =>
    simp only [restored, Expr.toDatum, ht, listToDatum_restoredList ha]
  | call _ _ _ ha => simp only [restored, Expr.toDatum, listToDatum_restoredList ha]
  | index _ _ _ ht hi => simp only [restored, Expr.toDatum, ht, hi]

theorem Statement.Holds.toDatum_restored (h : s.Holds P) :
    (s.restored id).toDatum = s.toDatum := by
  cases h with
  | declare _ _ he | constant _ _ he | assign _ _ he | print _ he | expression _ he =>
    simp only [restored, Statement.toDatum, he.toDatum_restored]
  | indexAssign _ _ hi he =>
    simp only [restored, Statement.toDatum, hi.toDatum_restored, he.toDatum_restored]

theorem Script.Holds.toDatum_restored (h : script.Holds P) :
    Script.toDatum ⟨script.statements.map (Statement.restored id), script.name⟩ =
      script.toDatum := by
  have hstatements : script.statements.map (Statement.toDatum ∘ Statement.restored id) =
      script.statements.map Statement.toDatum :=
    List.map_congr_left fun s hs => (h.statements s hs).toDatum_restored
  rw [Script.toDatum, Script.toDatum, List.map_map, hstatements]

theorem Expr.sameList_restoredList {es : List Expr} (h : ∀ e ∈ es, (e.restored id).same e = true) :
    same.sameList (restored.restoredList id es) es = true := by
  induction es with
  | nil => rfl
  | cons e es ih =>
    obtain ⟨he, hes⟩ := List.forall_mem_cons.mp h
    rw [restored.restoredList, same.sameList, he, ih hes]
    rfl

/-- The comparison of trees finds no difference when the positions are left out. -/
theorem Expr.Holds.same_restored (h : e.Holds Datum.Distinct) :
    (e.restored id).same e = true := by
  induction h with
  | string s pos => simp [restored, same]
  | char hv pos | int hv pos | bool hv pos | var hv pos => exact hv.same_self
  | binary op _ _ _ hl hr => simp [restored, same, hl, hr]
  | unary op _ _ he => simp [restored, same, he]
  | method _ hn _ _ ht ha => simp [restored, same, ht, hn.same_self, sameList_restoredList ha]
  | call _ hn _ ha => simp [restored, same, hn.same_self, sameList_restoredList ha]
  | index _ _ _ ht hi => simp [restored, same, ht, hi]

theorem Statement.Holds.same_restored (h : s.Holds Datum.Distinct) :
    (s.restored id).same s = true := by
  cases h with
  | declare _ hn he | constant _ hn he | assign _ hn he =>
    simp [restored, same, hn.same_self, he.same_restored]
  | indexAssign _ hn hi he =>
    simp [restored, same, hn.same_self, hi.same_restored, he.same_restored]
  | print _ he | expression _ he => exact he.same_restored

theorem Script.Holds.same_restored (h : script.Holds Datum.Distinct) :
    Script.same ⟨script.statements.map (Statement.restored id), script.name⟩ script = true := by
  rw [same, List.length_map, beq_self_eq_true, h.name.same_self, Bool.true_and, Bool.and_true,
    List.zip_map_left, List.all_map, List.zip, List.zipWith_self, List.all_map, List.all_eq_true]
  exact fun s hs => (h.statements s hs).same_restored

end Restored

/-- **A document settles on its script.** Whatever a script was read from, its own document is data
that holds the same script, and that script is written the same way again. -/
theorem Script.ofDatum_settles {d : Datum} {script : Script} (hd : d.Distinct)
    (h : Script.ofDatum d = .ok script) :
    script.toDatum.Distinct ∧ ∃ again, Script.ofDatum script.toDatum = .ok again ∧
      again.same script = true ∧ again.toDatum = script.toDatum := by
  have hholds := holds_of_ofDatum hd h
  exact ⟨hholds.distinct_toDatum, _, hholds.ofDatum_toDatum, hholds.same_restored,
    hholds.toDatum_restored⟩

/-- A document without a name, with a field that means nothing, an empty text for the arguments of a
call and no arguments at all for another, a number for a name and a text for a number. -/
def Document.sparse : Datum :=
  Datum.ofFields [("note", .null), ("statements", .array
    [Datum.ofFields [("value", Datum.ofFields [("type", .ofString "fn_call"), ("name", .bool true),
        ("arguments", .text [])]), ("name", .int 5), ("type", .ofString "let")],
      Datum.ofFields [("type", .ofString "print"), ("value", Datum.ofFields
        [("type", .ofString "call"), ("method", .array []), ("target", Datum.ofFields
          [("type", .ofString "int"), ("value", .ofString "many")])])]])]

/-- The script of `Document.sparse`. -/
def Document.sparseScript : Script :=
  ⟨[.declare (.int 5) (.call (.bool true) [] none) none,
    .print (.method (.int (.ofString "many") none) (.array []) [] none) none],
    .text Script.defaultName⟩

theorem Document.distinct_sparse : sparse.Distinct := by
  have hnone {α : Type} (P : α → Prop) : ∀ x ∈ [], P x := List.forall_mem_nil P
  refine Datum.distinct_ofFields ["note", "statements"] rfl (by decide) ?_
  simp only [List.forall_mem_cons]
  refine ⟨.null, .array ?_, hnone _⟩
  simp only [List.forall_mem_cons]
  refine ⟨Datum.distinct_ofFields ["value", "name", "type"] rfl (by decide) ?_,
    Datum.distinct_ofFields ["type", "value"] rfl (by decide) ?_, hnone _⟩
  · simp only [List.forall_mem_cons]
    refine ⟨Datum.distinct_ofFields ["type", "name", "arguments"] rfl (by decide) ?_, .int 5,
      .text _, hnone _⟩
    simp only [List.forall_mem_cons]
    exact ⟨.text _, .bool true, .text _, hnone _⟩
  · simp only [List.forall_mem_cons]
    refine ⟨.text _, Datum.distinct_ofFields ["type", "method", "target"] rfl (by decide) ?_,
      hnone _⟩
    simp only [List.forall_mem_cons]
    refine ⟨.text _, .array (hnone _), Datum.distinct_ofFields ["type", "value"] rfl (by decide) ?_,
      hnone _⟩
    simp only [List.forall_mem_cons]
    exact ⟨.text _, .text _, hnone _⟩

theorem Script.ofDatum_settles_of_sparse :
    Document.sparse.Distinct ∧ Script.ofDatum Document.sparse = .ok Document.sparseScript ∧
      Document.sparseScript.toDatum.Distinct ∧
      ∃ again, Script.ofDatum Document.sparseScript.toDatum = .ok again ∧
        again.same Document.sparseScript = true ∧
        again.toDatum = Document.sparseScript.toDatum :=
  have hread : Script.ofDatum Document.sparse = .ok Document.sparseScript := rfl
  ⟨Document.distinct_sparse, hread, ofDatum_settles Document.distinct_sparse hread⟩

end ScalarScript
