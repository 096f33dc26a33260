import ScalarScript.Proofs.Source.WellFormed

/-!
# Equality of trees

Trees are compared node by node, and positions are left out. What a source can write holds no data
that differs from itself or equals data of another kind in the same place, so there the comparison
is equality of the trees without their positions.

Results: **`Expr.same_iff`**, `Statement.same_iff`, `Script.same_iff`.
-/

namespace ScalarScript

/-- The statement with no positions. -/
def Statement.withoutPositions (s : Statement) : Statement := s.mapPositions fun _ => none

theorem Datum.same_bool_iff {a b : Bool} : (Datum.bool a).same (.bool b) = true ↔ a = b := by
  cases a <;> cases b <;> simp [Datum.same, Datum.integer?]

theorem Expr.listMapPositions_eq (f : Option Position → Option Position) (es : List Expr) :
    Expr.mapPositions.listMapPositions f es = es.map (Expr.mapPositions f) := by
  induction es with
  | nil => rfl
  | cons e es ih => rw [mapPositions.listMapPositions, ih, List.map_cons]

theorem Expr.sameList_iff {as bs : List Expr}
    (h : ∀ a ∈ as, ∀ b ∈ bs, a.same b = true ↔ a.withoutPositions = b.withoutPositions) :
    Expr.same.sameList as bs = true ↔
      as.map Expr.withoutPositions = bs.map Expr.withoutPositions := by
  induction as generalizing bs with
  | nil => cases bs <;> simp [same.sameList]
  | cons a as ih =>
    cases bs with
    | nil => simp [same.sameList]
    | cons b bs =>
      have hhead := h a List.mem_cons_self b List.mem_cons_self
      have htail := ih fun x hx y hy =>
        h x (List.mem_cons_of_mem _ hx) y (List.mem_cons_of_mem _ hy)
      rw [same.sameList, Bool.and_eq_true, hhead, htail, List.map_cons, List.map_cons,
        List.cons.injEq]

/-- Well-formed trees are the same exactly if nothing but their positions differs. -/
theorem Expr.same_iff {a b : Expr} (ha : a.WellFormed) (hb : b.WellFormed) :
    a.same b = true ↔ a.withoutPositions = b.withoutPositions := by
  induction ha generalizing b with
  | string s => cases hb <;> simp [same, withoutPositions, mapPositions]
  | char c => cases hb <;> simp [same, withoutPositions, mapPositions, Datum.same_int_iff]
  | int h => cases hb <;> simp [same, withoutPositions, mapPositions, Datum.same_int_iff]
  | bool => cases hb <;> simp [same, withoutPositions, mapPositions, Datum.same_bool_iff]
  | var => cases hb <;> simp [same, withoutPositions, mapPositions, Datum.same_text_iff]
  | binary op _ _ _ hl hr =>
    cases hb with
    | binary op' _ hl' hr' =>
      have hl := hl hl'
      have hr := hr hr'
      unfold withoutPositions at hl hr
      simp [same, withoutPositions, mapPositions, hl, hr, and_assoc]
    | _ => simp [same, withoutPositions, mapPositions]
  | unary op _ _ he =>
    cases hb with
    | unary op' _ he' =>
      have he := he he'
      unfold withoutPositions at he
      simp [same, withoutPositions, mapPositions, he]
    | _ => simp [same, withoutPositions, mapPositions]
  | method _ _ _ _ ht ha =>
    cases hb with
    | method _ _ ht' ha' =>
      have ht := ht ht'
      have ha := sameList_iff fun x hx y hy => ha x hx (ha' y hy)
      unfold withoutPositions at ht ha
      simp [same, withoutPositions, mapPositions, ht, ha, Datum.same_text_iff, and_assoc,
        listMapPositions_eq]
    | _ => simp [same, withoutPositions, mapPositions]
  | call _ _ _ ha =>
    cases hb with
    | call _ _ ha' =>
      have ha := sameList_iff fun x hx y hy => ha x hx (ha' y hy)
      unfold withoutPositions at ha
      simp [same, withoutPositions, mapPositions, ha, Datum.same_text_iff, listMapPositions_eq]
    | _ => simp [same, withoutPositions, mapPositions]
  | index _ _ _ ht hi =>
    cases hb with
    | index _ ht' hi' =>
      have ht := ht ht'
      have hi := hi hi'
      unfold withoutPositions at ht hi
      simp [same, withoutPositions, mapPositions, ht, hi]
    | _ => simp [same, withoutPositions, mapPositions]

/-- Well-formed statements are the same exactly if nothing but their positions differs. -/
theorem Statement.same_iff {s t : Statement} (hs : s.WellFormed) (ht : t.WellFormed) :
    s.same t = true ↔ s.withoutPositions = t.withoutPositions := by
  have he : ∀ {a b : Expr}, a.WellFormed → b.WellFormed →
      (a.same b = true ↔ a.mapPositions (fun _ => none) = b.mapPositions fun _ => none) :=
    fun ha hb => Expr.same_iff ha hb
  cases hs with
  | declare _ hn ha | constant _ hn ha | assign _ hn ha =>
    cases ht with
    | declare _ hn' hb | constant _ hn' hb | assign _ hn' hb =>
      simp [same, withoutPositions, mapPositions, Datum.same_text_iff, he ha hb]
    | _ => simp [same, withoutPositions, mapPositions]
  | indexAssign _ hn hi ha =>
    cases ht with
    | indexAssign _ hn' hj hb =>
      simp [same, withoutPositions, mapPositions, Datum.same_text_iff, he hi hj, he ha hb,
      and_assoc]
    | _ => simp [same, withoutPositions, mapPositions]
  | print _ ha | expression _ ha =>
    cases ht with
    | print _ hb | expression _ hb => simp [same, withoutPositions, mapPositions, he ha hb]
    | _ => simp [same, withoutPositions, mapPositions]

/-- Lists of statements are the same where their members are, one by one. -/
theorem Statement.same_list_iff {ss ts : List Statement} (hs : ∀ s ∈ ss, s.WellFormed)
    (ht : ∀ t ∈ ts, t.WellFormed) :
    (ss.length = ts.length ∧ ((ss.zip ts).all fun p => p.1.same p.2) = true) ↔
      ss.map withoutPositions = ts.map withoutPositions := by
  induction ss generalizing ts with
  | nil => cases ts <;> simp
  | cons s ss ih =>
    cases ts with
    | nil => simp
    | cons t ts =>
      obtain ⟨hs, hss⟩ := List.forall_mem_cons.mp hs
      obtain ⟨ht, hts⟩ := List.forall_mem_cons.mp ht
      rw [List.map_cons, List.map_cons, List.cons.injEq, ← ih hss hts, ← same_iff hs ht]
      rw [List.length_cons, List.length_cons, Nat.add_right_cancel_iff, List.zip_cons_cons,
        List.all_cons, Bool.and_eq_true]
      exact and_left_comm

/-- Well-formed scripts with texts for names are the same exactly if nothing but their positions
differs. -/
theorem Script.same_iff {ss ts : List Statement} {name name' : Text} (hs : ∀ s ∈ ss, s.WellFormed)
    (ht : ∀ t ∈ ts, t.WellFormed) :
    Script.same ⟨ss, .text name⟩ ⟨ts, .text name'⟩ = true ↔
      ss.map Statement.withoutPositions = ts.map Statement.withoutPositions ∧ name = name' := by
  rw [← Statement.same_list_iff hs ht, same, Bool.and_eq_true, Bool.and_eq_true, beq_iff_eq,
    Datum.same_text_iff]

end ScalarScript
