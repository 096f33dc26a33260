import ScalarScript.Document.Script
import ScalarScript.Proofs.Evaluation.Operators

/-!
# Documents of trees

What is written for a tree and read for a document, one case for each kind of node. Everything else
about documents follows from the two walks through them: what their data is like, and what they
hold when something is done to that data in between.

* `Expr.Holds`, `Statement.Holds`, `Script.Holds`: the data in the places of names, numbers and
  truth values have some property.
* `Document.Forms`: a property of data that documents have if what they are made of has it.
* `Expr.restored`, `Statement.restored`: trees without positions and with other string literals.
* `Document.Carries`: a function on data that leaves the shape of documents, and what it does to
  string literals.

Results:
* **`Script.Holds.toDatum`**: a document is like the data in its tree.
* **`Script.ofDatum_carried`**: a document that went through such a function holds the same script,
  but for its positions and its string literals.
-/

namespace ScalarScript

/-! ## Fields -/

section Fields

variable {α β : Type} {fields fields' : List (Text × α)}

/-- A permutation of fields with distinct names does not change what a name stands for. -/
theorem lookup_perm (hp : fields.Perm fields') (hd : (fields.map Prod.fst).Nodup) (name : Text) :
    fields.lookup name = fields'.lookup name := by
  induction hp with
  | nil => rfl
  | cons field hp ih => rw [List.lookup_cons, List.lookup_cons, ih (List.nodup_cons.mp hd).2]
  | swap a b l =>
    have hne : b.1 ≠ a.1 := by
      simp only [List.map_cons, List.nodup_cons, List.mem_cons, not_or] at hd
      exact hd.1.1
    rw [List.lookup_cons, List.lookup_cons, List.lookup_cons, List.lookup_cons]
    by_cases ha : name = a.1
    · have hb : (name == b.1) = false := by simpa [ha] using hne.symm
      rw [hb]
    · have ha' : (name == a.1) = false := by simpa using ha
      rw [ha']
  | trans hp hp' ih ih' => rw [ih hd, ih' ((hp.map Prod.fst).nodup_iff.mp hd)]

theorem lookup_map (g : α → β) (name : Text) :
    (fields.map fun field => (field.1, g field.2)).lookup name = (fields.lookup name).map g := by
  induction fields with
  | nil => rfl
  | cons field rest ih =>
    rw [List.map_cons, List.lookup_cons, List.lookup_cons, ih]
    cases name == field.1 <;> rfl

end Fields

namespace Document

/-- The names of the fields of scripts, statements and expressions. The fields of every node stand
in this order. -/
def fieldNames : List Text :=
  ["type", "name", "operator", "left", "right", "operand", "target", "method", "arguments", "index",
    "value", "statements"].map Text.of

theorem nodup_fieldNames : fieldNames.Nodup := by decide

/-- The names of fields that stand in this order are distinct. -/
theorem nodup_of_sublist {α : Type} {fields : List (String × α)} {names : List String}
    (hn : fields.map Prod.fst = names) (hs : (names.map Text.of).Sublist fieldNames) :
    ((fields.map fun field => (Text.of field.1, field.2)).map Prod.fst).Nodup := by
  subst hn
  rw [List.map_map] at hs ⊢
  exact hs.nodup nodup_fieldNames

variable {fields fields' : List (Text × Datum)}

theorem lookup_fieldReadings_perm (hp : fields.Perm fields') (hd : (fields.map Prod.fst).Nodup)
    (name : Text) :
    (reading.fieldReadings fields).lookup name = (reading.fieldReadings fields').lookup name := by
  rw [fieldReadings_eq, fieldReadings_eq, lookup_map, lookup_map, lookup_perm hp hd]

/-- The order of the fields does not matter to an expression. -/
theorem exprOfFields_perm (hp : fields.Perm fields') (hd : (fields.map Prod.fst).Nodup) :
    exprOfFields (reading.fieldReadings fields) = exprOfFields (reading.fieldReadings fields') := by
  unfold exprOfFields needExpr needDatum need argumentsOf typeOf
  simp only [lookup_fieldReadings_perm hp hd]

/-- The order of the fields does not matter to a statement. -/
theorem statementOfFields_perm (hp : fields.Perm fields') (hd : (fields.map Prod.fst).Nodup) :
    statementOfFields (reading.fieldReadings fields) =
      statementOfFields (reading.fieldReadings fields') := by
  unfold statementOfFields needExpr needDatum need typeOf
  simp only [lookup_fieldReadings_perm hp hd]

theorem datum_reading (d : Datum) : (reading d).datum = d := by
  cases d <;> rfl

end Document

/-! ## The data in a tree -/

/-- Expressions whose names, numbers and truth values are data with the property `P`. -/
inductive Expr.Holds (P : Datum → Prop) : Expr → Prop
  | string (s : ScalarString) (pos : Option Position) : Holds P (.string s pos)
  | char {value : Datum} (hv : P value) (pos : Option Position) : Holds P (.char value pos)
  | int {value : Datum} (hv : P value) (pos : Option Position) : Holds P (.int value pos)
  | bool {value : Datum} (hv : P value) (pos : Option Position) : Holds P (.bool value pos)
  | var {name : Datum} (hn : P name) (pos : Option Position) : Holds P (.var name pos)
  | binary (op : BinaryOperator) {left right : Expr} (pos : Option Position) (hl : Holds P left)
    (hr : Holds P right) : Holds P (.binary op left right pos)
  | unary (op : UnaryOperator) {operand : Expr} (pos : Option Position) (he : Holds P operand) :
    Holds P (.unary op operand pos)
  | method {target : Expr} {name : Datum} {arguments : List Expr} (pos : Option Position)
    (hn : P name) (ht : Holds P target) (ha : ∀ a ∈ arguments, Holds P a) :
    Holds P (.method target name arguments pos)
  | call {name : Datum} {arguments : List Expr} (pos : Option Position) (hn : P name)
    (ha : ∀ a ∈ arguments, Holds P a) : Holds P (.call name arguments pos)
  | index {target i : Expr} (pos : Option Position) (ht : Holds P target) (hi : Holds P i) :
    Holds P (.index target i pos)

/-- Statements whose names, numbers and truth values are data with the property `P`. -/
inductive Statement.Holds (P : Datum → Prop) : Statement → Prop
  | declare {name : Datum} {e : Expr} (pos : Option Position) (hn : P name) (he : e.Holds P) :
    Holds P (.declare name e pos)
  | constant {name : Datum} {e : Expr} (pos : Option Position) (hn : P name) (he : e.Holds P) :
    Holds P (.constant name e pos)
  | assign {name : Datum} {e : Expr} (pos : Option Position) (hn : P name) (he : e.Holds P) :
    Holds P (.assign name e pos)
  | indexAssign {name : Datum} {i e : Expr} (pos : Option Position) (hn : P name)
    (hi : i.Holds P) (he : e.Holds P) : Holds P (.indexAssign name i e pos)
  | print {e : Expr} (pos : Option Position) (he : e.Holds P) : Holds P (.print e pos)
  | expression {e : Expr} (pos : Option Position) (he : e.Holds P) : Holds P (.expression e pos)

/-- Scripts whose name, and whose names, numbers and truth values, are data with the property
`P`. -/
structure Script.Holds (P : Datum → Prop) (script : Script) : Prop where
  statements : ∀ s ∈ script.statements, s.Holds P
  name : P script.name

/-! ## Documents are like the data in them -/

/-- A property that texts without surrogates have, and arrays and objects with the names of nodes
whose parts have it. -/
structure Document.Forms (Q : Datum → Prop) : Prop where
  text : ∀ {t : Text}, t.IsScalars → Q (.text t)
  array : ∀ {items : List Datum}, (∀ d ∈ items, Q d) → Q (.array items)
  fields : ∀ {fields : List (String × Datum)} (names : List String), fields.map Prod.fst = names →
    (names.map Text.of).Sublist Document.fieldNames → (∀ field ∈ fields, Q field.2) →
    Q (Datum.ofFields fields)

section Forms

variable {P Q : Datum → Prop}

theorem Document.Forms.word (hQ : Forms Q) (s : String) : Q (.ofString s) := hQ.text (.of s)

theorem Expr.forms_listToDatum (hQ : Document.Forms Q) {es : List Expr}
    (h : ∀ e ∈ es, Q e.toDatum) : Q (.array (toDatum.listToDatum es)) := by
  refine hQ.array ?_
  induction es with
  | nil => exact nofun
  | cons e es ih =>
    obtain ⟨he, hes⟩ := List.forall_mem_cons.mp h
    exact List.forall_mem_cons.mpr ⟨he, ih hes⟩

theorem Expr.Holds.toDatum {e : Expr} (h : e.Holds P) (hQ : Document.Forms Q)
    (hP : ∀ d, P d → Q d) : Q e.toDatum := by
  induction h with
  | string s pos =>
    refine hQ.fields ["type", "value"] rfl (by decide) ?_
    simp only [List.forall_mem_cons]
    exact ⟨hQ.word _, hQ.text (.string s), nofun⟩
  | char hv pos | int hv pos | bool hv pos =>
    refine hQ.fields ["type", "value"] rfl (by decide) ?_
    simp only [List.forall_mem_cons]
    exact ⟨hQ.word _, hP _ hv, nofun⟩
  | var hn pos =>
    refine hQ.fields ["type", "name"] rfl (by decide) ?_
    simp only [List.forall_mem_cons]
    exact ⟨hQ.word _, hP _ hn, nofun⟩
  | binary op pos _ _ hl hr =>
    refine hQ.fields ["type", "operator", "left", "right"] rfl (by decide) ?_
    simp only [List.forall_mem_cons]
    exact ⟨hQ.word _, hQ.word _, hl, hr, nofun⟩
  | unary op pos _ he =>
    refine hQ.fields ["type", "operator", "operand"] rfl (by decide) ?_
    simp only [List.forall_mem_cons]
    exact ⟨hQ.word _, hQ.word _, he, nofun⟩
  | method pos hn _ _ ht ha =>
    refine hQ.fields ["type", "target", "method", "arguments"] rfl (by decide) ?_
    simp only [List.forall_mem_cons]
    exact ⟨hQ.word _, ht, hP _ hn, forms_listToDatum hQ ha, nofun⟩
  | call pos hn _ ha =>
    refine hQ.fields ["type", "name", "arguments"] rfl (by decide) ?_
    simp only [List.forall_mem_cons]
    exact ⟨hQ.word _, hP _ hn, forms_listToDatum hQ ha, nofun⟩
  | index pos _ _ ht hi =>
    refine hQ.fields ["type", "target", "index"] rfl (by decide) ?_
    simp only [List.forall_mem_cons]
    exact ⟨hQ.word _, ht, hi, nofun⟩

theorem Statement.Holds.toDatum {s : Statement} (h : s.Holds P) (hQ : Document.Forms Q)
    (hP : ∀ d, P d → Q d) : Q s.toDatum := by
  cases h with
  | declare pos hn he | constant pos hn he | assign pos hn he =>
    refine hQ.fields ["type", "name", "value"] rfl (by decide) ?_
    simp only [List.forall_mem_cons]
    exact ⟨hQ.word _, hP _ hn, he.toDatum hQ hP, nofun⟩
  | indexAssign pos hn hi he =>
    refine hQ.fields ["type", "name", "index", "value"] rfl (by decide) ?_
    simp only [List.forall_mem_cons]
    exact ⟨hQ.word _, hP _ hn, hi.toDatum hQ hP, he.toDatum hQ hP, nofun⟩
  | print pos he | expression pos he =>
    refine hQ.fields ["type", "value"] rfl (by decide) ?_
    simp only [List.forall_mem_cons]
    exact ⟨hQ.word _, he.toDatum hQ hP, nofun⟩

theorem Document.Forms.script (hQ : Forms Q) {script : Script} (hn : Q script.name)
    (hs : ∀ s ∈ script.statements, Q s.toDatum) : Q script.toDatum := by
  refine hQ.fields ["name", "statements"] rfl (by decide) ?_
  simp only [List.forall_mem_cons]
  exact ⟨hn, hQ.array (List.forall_mem_map.mpr hs), nofun⟩

/-- **The document of a script is like the data in it.** -/
theorem Script.Holds.toDatum {script : Script} (h : script.Holds P) (hQ : Document.Forms Q)
    (hP : ∀ d, P d → Q d) : Q script.toDatum :=
  hQ.script (hP _ h.name) fun s hs => (h.statements s hs).toDatum hQ hP

end Forms

/-! ## Other string literals -/

/-- The expression with other string literals and no positions. -/
def Expr.restored (g : ScalarString → ScalarString) : Expr → Expr
  | string value _ => string (g value) none
  | char value _ => char value none
  | int value _ => int value none
  | bool value _ => bool value none
  | var name _ => var name none
  | binary op left right _ => binary op (left.restored g) (right.restored g) none
  | unary op operand _ => unary op (operand.restored g) none
  | method target name arguments _ =>
    method (target.restored g) name (restoredList g arguments) none
  | call name arguments _ => call name (restoredList g arguments) none
  | index target i _ => index (target.restored g) (i.restored g) none
where
  restoredList (g : ScalarString → ScalarString) : List Expr → List Expr
    | [] => []
    | e :: rest => e.restored g :: restoredList g rest

theorem Expr.restoredList_eq (g : ScalarString → ScalarString) (es : List Expr) :
    restored.restoredList g es = es.map (restored g) := by
  induction es with
  | nil => rfl
  | cons e rest ih => rw [restored.restoredList, ih, List.map_cons]

/-- The statement with other string literals and no positions. -/
def Statement.restored (g : ScalarString → ScalarString) : Statement → Statement
  | declare name value _ => declare name (value.restored g) none
  | constant name value _ => constant name (value.restored g) none
  | assign name value _ => assign name (value.restored g) none
  | indexAssign name i value _ => indexAssign name (i.restored g) (value.restored g) none
  | print value _ => print (value.restored g) none
  | expression value _ => expression (value.restored g) none

/-! ## Reading a document that was carried -/

namespace Document

/-- What may happen to data between writing and reading: arrays and objects stay, the fields of an
object in some order, the words of the format stay as they are, and the text of a string literal
becomes that of another one. -/
structure Carries (F : Datum → Datum) (g : ScalarString → ScalarString) : Prop where
  array : ∀ items : List Datum, F (.array items) = .array (items.map F)
  object : ∀ fields : List (Text × Datum), ∃ carried, F (.object fields) = .object carried ∧
    carried.Perm (fields.map fun field => (field.1, F field.2))
  word : ∀ s : String, (∀ p ∈ Text.of s, p.toNat < 0x80) → F (.ofString s) = .ofString s
  string : ∀ s : ScalarString, F (.text s.text) = .text (g s).text

theorem carries_id : Carries id id where
  array items := by rw [List.map_id, id]
  object fields := ⟨fields, rfl, by simp⟩
  word _ _ := rfl
  string _ := rfl

theorem stringOf_text (s : ScalarString) : stringOf (.text s.text) = .ok s := by
  rw [stringOf, ScalarString.ofHostText, ScalarString.ofText_text]
  rfl

theorem binaryOperatorOf_spelling (op : BinaryOperator) :
    binaryOperatorOf (.ofString op.spelling) = .ok op := by
  cases op with
  | add | subtract => rfl
  | compare c => cases c <;> rfl

theorem unaryOperatorOf_spelling (op : UnaryOperator) :
    unaryOperatorOf (.ofString op.spelling) = .ok op := by
  cases op <;> rfl

namespace Carries

variable {F : Datum → Datum} {g : ScalarString → ScalarString}

theorem operator (h : Carries F g) (op : BinaryOperator) :
    F (.ofString op.spelling) = .ofString op.spelling := by
  cases op with
  | add | subtract => exact h.word _ (by decide)
  | compare c => cases c <;> exact h.word _ (by decide)

theorem unaryOperator (h : Carries F g) (op : UnaryOperator) :
    F (.ofString op.spelling) = .ofString op.spelling := by
  cases op <;> exact h.word _ (by decide)

/-- The object of a node, carried: the same fields in some order, their data carried. -/
theorem ofFields (h : Carries F g) (fields : List (String × Datum)) (names : List String)
    (hn : fields.map Prod.fst = names) (hs : (names.map Text.of).Sublist fieldNames) :
    ∃ carried, F (.ofFields fields) = .object carried ∧
      carried.Perm (fields.map fun field => (Text.of field.1, F field.2)) ∧
      (carried.map Prod.fst).Nodup := by
  obtain ⟨carried, hF, hp⟩ := h.object (fields.map fun field => (Text.of field.1, field.2))
  rw [List.map_map] at hp
  refine ⟨carried, hF, hp, (hp.map Prod.fst).nodup_iff.mpr ?_⟩
  rw [List.map_map]
  have hd := nodup_of_sublist hn hs
  rw [List.map_map] at hd
  exact hd

section Node

variable {type : String} {rest : List (String × Datum)}

theorem fieldReadings_node (h : Carries F g) (ht : ∀ p ∈ Text.of type, p.toNat < 0x80) :
    reading.fieldReadings ((("type", Datum.ofString type) :: rest).map fun field =>
        (Text.of field.1, F field.2)) =
      (Text.of "type", reading (.ofString type)) ::
        rest.map fun field => (Text.of field.1, reading (F field.2)) := by
  simp only [fieldReadings_eq, List.map_cons, h.word type ht, List.map_map, Function.comp_def]

/-- What the object of a node is as an expression, when it was carried. -/
theorem expr_node (h : Carries F g) (names : List String) (hn : rest.map Prod.fst = names)
    (ht : ∀ p ∈ Text.of type, p.toNat < 0x80)
    (hs : (("type" :: names).map Text.of).Sublist fieldNames) :
    (reading (F (.ofFields (("type", .ofString type) :: rest)))).expr =
      exprOfFields ((Text.of "type", reading (.ofString type)) ::
        rest.map fun field => (Text.of field.1, reading (F field.2))) := by
  obtain ⟨carried, hF, hp, hd⟩ := h.ofFields (("type", .ofString type) :: rest) _
    (congrArg ("type" :: ·) hn) hs
  rw [hF]
  show exprOfFields (reading.fieldReadings carried) = _
  rw [exprOfFields_perm hp hd, h.fieldReadings_node ht]

/-- What the object of a node is as a statement, when it was carried. -/
theorem statement_node (h : Carries F g) (names : List String) (hn : rest.map Prod.fst = names)
    (ht : ∀ p ∈ Text.of type, p.toNat < 0x80)
    (hs : (("type" :: names).map Text.of).Sublist fieldNames) :
    statementOf (F (.ofFields (("type", .ofString type) :: rest))) =
      statementOfFields ((Text.of "type", reading (.ofString type)) ::
        rest.map fun field => (Text.of field.1, reading (F field.2))) := by
  obtain ⟨carried, hF, hp, hd⟩ := h.ofFields (("type", .ofString type) :: rest) _
    (congrArg ("type" :: ·) hn) hs
  rw [hF, statementOf, statementOfFields_perm hp hd, h.fieldReadings_node ht]

end Node

theorem list_reading (h : Carries F g) {es : List Expr}
    (hes : ∀ e ∈ es, (reading (F e.toDatum)).expr = .ok (e.restored g)) :
    (reading (F (.array (Expr.toDatum.listToDatum es)))).list =
      .ok (Expr.restored.restoredList g es) := by
  rw [h.array]
  show reading.itemReadings _ = _
  induction es with
  | nil => rfl
  | cons e es ih =>
    obtain ⟨he, hes⟩ := List.forall_mem_cons.mp hes
    rw [Expr.toDatum.listToDatum, List.map_cons, reading.itemReadings, he, ih hes]
    rfl

variable {P : Datum → Prop}

/-- The document of an expression holds that expression, when it was carried by a function that
leaves the data in it. -/
theorem expr_reading (h : Carries F g) (hP : ∀ d, P d → F d = d) {e : Expr} (he : e.Holds P) :
    (reading (F e.toDatum)).expr = .ok (e.restored g) := by
  -- The induction is on what the tree holds: the data of a node comes with its property. Each case
  -- brings the fields of the node in their order and shows what is then read from them.
  induction he with
  | string s pos =>
    refine (h.expr_node ["value"] rfl (by decide) (by decide)).trans ?_
    simp only [List.map_cons, List.map_nil]
    show (do return Expr.string (← stringOf (reading (F (.text s.text))).datum) none) = _
    rw [datum_reading, h.string, stringOf_text]
    rfl
  | @char value hv pos | @int value hv pos | @bool value hv pos =>
    refine (h.expr_node ["value"] rfl (by decide) (by decide)).trans ?_
    simp only [List.map_cons, List.map_nil]
    -- The three kinds of node differ in their constructor alone.
    show Except.ok ((_ : Datum → Option Position → Expr) (reading (F value)).datum none) = _
    rw [datum_reading, hP value hv]
    rfl
  | @var name hn pos =>
    refine (h.expr_node ["name"] rfl (by decide) (by decide)).trans ?_
    simp only [List.map_cons, List.map_nil]
    show Except.ok (Expr.var (reading (F name)).datum none) = _
    rw [datum_reading, hP name hn]
    rfl
  | @binary op left right pos _ _ hl hr =>
    refine (h.expr_node ["operator", "left", "right"] rfl (by decide) (by decide)).trans ?_
    simp only [List.map_cons, List.map_nil]
    show (do
      let op ← binaryOperatorOf (reading (F (.ofString op.spelling))).datum
      let left ← (reading (F left.toDatum)).expr
      let right ← (reading (F right.toDatum)).expr
      return Expr.binary op left right none) = _
    rw [datum_reading, h.operator, binaryOperatorOf_spelling, hl, hr]
    rfl
  | @unary op operand pos _ he =>
    refine (h.expr_node ["operator", "operand"] rfl (by decide) (by decide)).trans ?_
    simp only [List.map_cons, List.map_nil]
    show (do
      let op ← unaryOperatorOf (reading (F (.ofString op.spelling))).datum
      let operand ← (reading (F operand.toDatum)).expr
      return Expr.unary op operand none) = _
    rw [datum_reading, h.unaryOperator, unaryOperatorOf_spelling, he]
    rfl
  | @method target name arguments pos hn _ _ ht ha =>
    refine (h.expr_node ["target", "method", "arguments"] rfl (by decide) (by decide)).trans ?_
    simp only [List.map_cons, List.map_nil]
    show (do
      let target ← (reading (F target.toDatum)).expr
      let arguments ← (reading (F (.array (Expr.toDatum.listToDatum arguments)))).list
      return Expr.method target (reading (F name)).datum arguments none) = _
    rw [ht, h.list_reading ha, datum_reading, hP name hn]
    rfl
  | @call name arguments pos hn _ ha =>
    refine (h.expr_node ["name", "arguments"] rfl (by decide) (by decide)).trans ?_
    simp only [List.map_cons, List.map_nil]
    show (do
      let arguments ← (reading (F (.array (Expr.toDatum.listToDatum arguments)))).list
      return Expr.call (reading (F name)).datum arguments none) = _
    rw [h.list_reading ha, datum_reading, hP name hn]
    rfl
  | @index target i pos _ _ ht hi =>
    refine (h.expr_node ["target", "index"] rfl (by decide) (by decide)).trans ?_
    simp only [List.map_cons, List.map_nil]
    show (do
      let target ← (reading (F target.toDatum)).expr
      let i ← (reading (F i.toDatum)).expr
      return Expr.index target i none) = _
    rw [ht, hi]
    rfl

/-- The document of a statement holds that statement, when it was carried by a function that leaves
the data in it. -/
theorem statement_reading (h : Carries F g) (hP : ∀ d, P d → F d = d) {s : Statement}
    (hs : s.Holds P) : statementOf (F s.toDatum) = .ok (s.restored g) := by
  cases hs with
  | @declare name e pos hn he | @constant name e pos hn he | @assign name e pos hn he =>
    refine (h.statement_node ["name", "value"] rfl (by decide) (by decide)).trans ?_
    simp only [List.map_cons, List.map_nil]
    show (do
      return (_ : Datum → Expr → Option Position → Statement) (reading (F name)).datum
        (← (reading (F e.toDatum)).expr) none) = _
    rw [h.expr_reading hP he, datum_reading, hP name hn]
    rfl
  | @indexAssign name i e pos hn hi he =>
    refine (h.statement_node ["name", "index", "value"] rfl (by decide) (by decide)).trans ?_
    simp only [List.map_cons, List.map_nil]
    show (do
      let i ← (reading (F i.toDatum)).expr
      return Statement.indexAssign (reading (F name)).datum i
        (← (reading (F e.toDatum)).expr) none) = _
    rw [h.expr_reading hP hi, h.expr_reading hP he, datum_reading, hP name hn]
    rfl
  | @print e pos he | @expression e pos he =>
    refine (h.statement_node ["value"] rfl (by decide) (by decide)).trans ?_
    simp only [List.map_cons, List.map_nil]
    show (do
      return (_ : Expr → Option Position → Statement) (← (reading (F e.toDatum)).expr) none) = _
    rw [h.expr_reading hP he]
    rfl

end Carries

end Document

/-- **The document of a script holds that script, when it was carried by a function that leaves the
data in it:** with the name that is made of its own, other string literals and no positions. -/
theorem Script.ofDatum_carried {F : Datum → Datum} {g : ScalarString → ScalarString}
    {P : Datum → Prop} (h : Document.Carries F g) (hP : ∀ d, P d → F d = d) {script : Script}
    (hs : ∀ s ∈ script.statements, s.Holds P) :
    Script.ofDatum (F script.toDatum) =
      .ok ⟨script.statements.map (Statement.restored g), F script.name⟩ := by
  have hstatements : ((script.statements.map Statement.toDatum).map F).mapM Document.statementOf =
      .ok (script.statements.map (Statement.restored g)) := by
    rw [Except.mapM_eq_ok_iff, List.map_map, List.map_map, List.map_map]
    exact List.map_congr_left fun s hmem => h.statement_reading hP (hs s hmem)
  obtain ⟨carried, hF, hp, hd⟩ := h.ofFields [("name", script.name), ("statements",
    .array (script.statements.map Statement.toDatum))] ["name", "statements"] rfl (by decide)
  rw [toDatum, hF, ofDatum]
  simp only [Datum.field?, lookup_perm hp hd, List.map_cons, List.map_nil]
  show (do
    let statements ← Document.statementsOf
      (F (.array (script.statements.map Statement.toDatum)))
    return (⟨statements, F script.name⟩ : Script)) = _
  rw [h.array, Document.statementsOf, hstatements]
  rfl

end ScalarScript
