import Mathlib.Data.Char
import Mathlib.Data.List.Lex
import ScalarScript.Engine.Execute
import ScalarScript.Proofs.Evaluation.Order

/-!
# One order of strings

Strings are compared in three ways at once: equal bytes settle it, else the first scalars that
differ do, else the lengths that are kept beside the bytes. This module shows that the three belong
to one total order, which is the lexicographic order of the scalars, a strict prefix first, and also
that of the bytes; and that all operators test this order.

UTF-8 keeps the order of scalars: a wider sequence starts with a greater byte, and among sequences
of one width the bytes are the digits of the number. So the first byte that differs decides as the
scalar that it belongs to does.

`Comparison.Coherent x y test`: the six answers of `test` are those of an order on `x` and `y`.

Results:
* `encode_lt_encode_iff`: UTF-8 keeps the lexicographic order.
* `compare_eq_lt_iff`, `compare_eq_eq_iff`, `compare_eq_gt_iff`: the comparison is that of the
  scalars; `compare_eq_lt_iff_bytes` and `compare_eq_eq_iff_bytes`: and that of the bytes.
* `coherent_compare`, `coherent_int`: the answers about two strings, and about two integers.
* **`comparisons_follow_one_order`**: all comparisons of strings are tests of one total order.
-/

namespace ScalarScript

/-! ## Bytes in the order of scalars -/

namespace Utf8

theorem ofNat_eq_iff {n m : Nat} (hn : n < 256) (hm : m < 256) :
    UInt8.ofNat n = UInt8.ofNat m ↔ n = m := by
  rw [← UInt8.toNat_inj, toNat_ofNat_of_lt hn, toNat_ofNat_of_lt hm]

theorem ofNat_lt_iff {n m : Nat} (hn : n < 256) (hm : m < 256) :
    UInt8.ofNat n < UInt8.ofNat m ↔ n < m := by
  rw [UInt8.lt_iff_toNat_lt, toNat_ofNat_of_lt hn, toNat_ofNat_of_lt hm]

theorem ofNat_cons_lt_iff {n m : Nat} {r s : List UInt8} (hn : n < 256) (hm : m < 256) :
    UInt8.ofNat n :: r < UInt8.ofNat m :: s ↔ n < m ∨ n = m ∧ r < s := by
  rw [List.cons_lt_cons_iff, ofNat_lt_iff hn hm, ofNat_eq_iff hn hm]

/-- A lesser scalar is written as lesser bytes, whatever follows. -/
theorem utf8EncodeChar_append_lt {c d : Char} (h : c < d) (r s : List UInt8) :
    String.utf8EncodeChar c ++ r < String.utf8EncodeChar d ++ s := by
  have hlt : c.toNat < d.toNat := h
  -- Sixteen pairs of widths: in each, the numbers of the bytes decide as those of the scalars do.
  rcases utf8EncodeChar_cases c with ⟨hc, e⟩ | ⟨a, b, ha, hb, hc, hn, e⟩ |
    ⟨a, b, x, ha, hb, hx, hc, hn, e⟩ | ⟨a, b, x, y, ha, hb, hx, hy, hc, hn, e⟩ <;>
  rcases utf8EncodeChar_cases d with ⟨hd, e'⟩ | ⟨a', b', ha', hb', hd, hn', e'⟩ |
    ⟨a', b', x', ha', hb', hx', hd, hn', e'⟩ | ⟨a', b', x', y', ha', hb', hx', hy', hd, hn', e'⟩ <;>
  rw [e, e'] <;>
  simp (disch := omega) only [List.cons_append, List.nil_append, ofNat_cons_lt_iff] <;>
  omega

theorem encode_lt_encode {as bs : List Char} (h : as < bs) : encode as < encode bs := by
  induction as generalizing bs with
  | nil =>
    cases bs with
    | nil => exact absurd h (List.not_lt_nil _)
    | cons b bs =>
      obtain ⟨lead, tail, e, -⟩ := utf8EncodeChar_shape b
      rw [encode_cons, e]
      exact List.nil_lt_cons _ _
  | cons a as ih =>
    cases bs with
    | nil => exact absurd h (List.not_lt_nil _)
    | cons b bs =>
      rw [encode_cons, encode_cons]
      rcases List.cons_lt_cons_iff.mp h with hhead | ⟨rfl, htail⟩
      · exact utf8EncodeChar_append_lt hhead _ _
      · exact List.append_left_lt (ih htail)

/-- **UTF-8 keeps the order of scalars.** -/
theorem encode_lt_encode_iff {as bs : List Char} : encode as < encode bs ↔ as < bs := by
  constructor
  · intro h
    rcases lt_trichotomy as bs with hlt | rfl | hgt
    · exact hlt
    · exact absurd h (List.lt_irrefl _)
    · exact absurd h (List.lt_asymm (encode_lt_encode hgt))
  · exact encode_lt_encode

end Utf8

/-! ## The comparison -/

namespace ScalarString

theorem firstDifference_cons (a b : Char) (as bs : List Char) :
    firstDifference (a :: as) (b :: bs) =
      if a = b then firstDifference as bs else if a < b then .lt else .gt := by
  unfold firstDifference
  rw [List.zip_cons_cons, List.findSome?_cons]
  by_cases h : a = b
  · simp only [h, if_true]
  · simp only [h, if_false, Option.getD_some]

/-- The comparison of two lists of scalars: the first difference, or else the lengths. -/
def scalarOrder (as bs : List Char) : Ordering :=
  (firstDifference as bs).then (Ord.compare as.length bs.length)

theorem scalarOrder_cons (a b : Char) (as bs : List Char) :
    scalarOrder (a :: as) (b :: bs) =
      if a = b then scalarOrder as bs else if a < b then .lt else .gt := by
  unfold scalarOrder
  rw [firstDifference_cons]
  by_cases h : a = b
  · rw [if_pos h, if_pos h, List.length_cons, List.length_cons]
    congr 1
    simp only [Nat.compare_eq_ite_lt, Nat.add_lt_add_iff_right]
  · rw [if_neg h, if_neg h]
    split <;> rfl

theorem scalarOrder_eq_lt_iff {as bs : List Char} : scalarOrder as bs = .lt ↔ as < bs := by
  induction as generalizing bs with
  | nil =>
    cases bs with
    | nil => simp [scalarOrder, firstDifference]
    | cons b bs => simp [scalarOrder, firstDifference, Nat.compare_eq_lt]
  | cons a as ih =>
    cases bs with
    | nil => simp [scalarOrder, firstDifference, Nat.compare_eq_lt]
    | cons b bs =>
      rw [scalarOrder_cons, List.cons_lt_cons_iff]
      by_cases h : a = b
      · simp [h, ih]
      · simp [h]

theorem scalarOrder_eq_eq_iff {as bs : List Char} : scalarOrder as bs = .eq ↔ as = bs := by
  induction as generalizing bs with
  | nil => cases bs <;> simp [scalarOrder, firstDifference]
  | cons a as ih =>
    cases bs with
    | nil => simp [scalarOrder, firstDifference]
    | cons b bs =>
      rw [scalarOrder_cons, List.cons.injEq]
      by_cases h : a = b
      · simp [h, ih]
      · simp only [h, if_false, false_and, iff_false]
        split <;> simp

theorem bytes_eq_iff {a b : ScalarString} : a.bytes = b.bytes ↔ a.scalars = b.scalars := by
  constructor
  · intro h
    rw [scalars, scalars, h]
  · intro h
    rw [bytes_eq, bytes_eq, h]

/-- The shortcut on bytes answers as the scalars do. -/
theorem compare_eq_scalarOrder (a b : ScalarString) :
    a.compare b = scalarOrder a.scalars b.scalars := by
  unfold compare
  split
  · next h => exact (scalarOrder_eq_eq_iff.mpr (bytes_eq_iff.mp h)).symm
  · rw [scalarOrder, length_eq, length_eq]

variable {a b c : ScalarString}

theorem compare_eq_lt_iff : a.compare b = .lt ↔ a.scalars < b.scalars := by
  rw [compare_eq_scalarOrder, scalarOrder_eq_lt_iff]

theorem compare_eq_eq_iff : a.compare b = .eq ↔ a.scalars = b.scalars := by
  rw [compare_eq_scalarOrder, scalarOrder_eq_eq_iff]

theorem compare_eq_gt_iff : a.compare b = .gt ↔ b.scalars < a.scalars := by
  have hlt := @compare_eq_lt_iff a b
  have heq := @compare_eq_eq_iff a b
  rcases lt_trichotomy a.scalars b.scalars with h | h | h
  · simp [hlt.mpr h, h.not_gt]
  · simp [heq.mpr h, h]
  · rw [iff_true_right h]
    cases hc : a.compare b with
    | lt => exact absurd (hlt.mp hc) h.not_gt
    | eq => exact absurd (heq.mp hc) h.ne'
    | gt => rfl

theorem compare_eq_lt_iff_bytes : a.compare b = .lt ↔ a.bytes < b.bytes := by
  rw [compare_eq_lt_iff, bytes_eq, bytes_eq, Utf8.encode_lt_encode_iff]

theorem compare_eq_gt_iff_bytes : a.compare b = .gt ↔ b.bytes < a.bytes := by
  rw [compare_eq_gt_iff, bytes_eq, bytes_eq, Utf8.encode_lt_encode_iff]

theorem compare_eq_eq_iff_bytes : a.compare b = .eq ↔ a.bytes = b.bytes := by
  rw [compare_eq_eq_iff, bytes_eq_iff]

theorem compare_eq_eq_iff_eq : a.compare b = .eq ↔ a = b := by
  rw [compare_eq_eq_iff]
  exact ⟨ext_scalars, congrArg scalars⟩

theorem isLE_compare_iff : (a.compare b).isLE = true ↔ a.scalars ≤ b.scalars := by
  rw [← not_lt, ← compare_eq_gt_iff]
  cases a.compare b <;> decide

theorem swap_compare (a b : ScalarString) : (a.compare b).swap = b.compare a := by
  cases h : a.compare b with
  | lt => exact (compare_eq_gt_iff.mpr (compare_eq_lt_iff.mp h)).symm
  | eq => exact (compare_eq_eq_iff.mpr (compare_eq_eq_iff.mp h).symm).symm
  | gt => exact (compare_eq_lt_iff.mpr (compare_eq_gt_iff.mp h)).symm

theorem isLE_compare_trans (hab : (a.compare b).isLE = true) (hbc : (b.compare c).isLE = true) :
    (a.compare c).isLE = true := by
  rw [isLE_compare_iff] at hab hbc ⊢
  exact hab.trans hbc

/-- A strict prefix comes first. -/
theorem compare_append (a : ScalarString) (hb : 0 < b.length) : a.compare (a ++ b) = .lt := by
  rw [compare_eq_lt_iff, scalars_append]
  cases h : b.scalars with
  | nil => simp [length_eq, h] at hb
  | cons x xs =>
    have hlt : a.scalars ++ [] < a.scalars ++ x :: xs :=
      List.append_left_lt (List.nil_lt_cons x xs)
    rwa [List.append_nil] at hlt

end ScalarString

/-! ## The operators -/

/-- The six answers are those of an order on `x` and `y`: just one of "less", "equal" and "greater"
is true, the one that holds, and each other comparison denies one of them. -/
structure Comparison.Coherent {α : Type} [LT α] (x y : α) (test : Comparison → Bool) : Prop where
  less : test .less = true ↔ x < y
  equal : test .equal = true ↔ x = y
  greater : test .greater = true ↔ y < x
  one : [test .less, test .equal, test .greater].count true = 1
  notEqual : test .notEqual = !test .equal
  lessEqual : test .lessEqual = !test .greater
  greaterEqual : test .greaterEqual = !test .less

/-- The tests of an outcome are coherent where the outcome is that of an order. -/
theorem Comparison.coherent_holds {α : Type} [LT α] {x y : α} {o : Ordering}
    (hlt : o = .lt ↔ x < y) (heq : o = .eq ↔ x = y) (hgt : o = .gt ↔ y < x) :
    Coherent x y (·.holds o) where
  less := by rw [← hlt]; cases o <;> decide
  equal := by rw [← heq]; cases o <;> decide
  greater := by rw [← hgt]; cases o <;> decide
  one := by cases o <;> rfl
  notEqual := by cases o <;> rfl
  lessEqual := by cases o <;> rfl
  greaterEqual := by cases o <;> rfl

theorem Comparison.coherent_compare (s t : ScalarString) :
    Coherent s.scalars t.scalars (·.holds (s.compare t)) :=
  coherent_holds ScalarString.compare_eq_lt_iff ScalarString.compare_eq_eq_iff
    ScalarString.compare_eq_gt_iff

theorem Comparison.coherent_int (m n : Int) : Coherent m n (·.holds (Ord.compare m n)) :=
  coherent_holds Int.compare_eq_lt Int.compare_eq_eq Int.compare_eq_gt

/-- **All comparisons of strings test one total order.** It is the lexicographic order of the
scalars, a strict prefix first, and that of the bytes. Two strings have the same place in it exactly
if their bytes are equal, which is when they are equal, and then they have one hash. The operators
of the host and of scripts test the outcome of this comparison; comparisons of integers in scripts
are as coherent. -/
theorem comparisons_follow_one_order :
    (∀ a b : ScalarString, (a.compare b = .lt ↔ a.scalars < b.scalars) ∧
      (a.compare b = .eq ↔ a.scalars = b.scalars) ∧
      (a.compare b = .gt ↔ b.scalars < a.scalars)) ∧
    (∀ a b : ScalarString, 0 < b.length → a.compare (a ++ b) = .lt) ∧
    (∀ a b : ScalarString, b.compare a = (a.compare b).swap) ∧
    (∀ a b c : ScalarString, (a.compare b).isLE = true → (b.compare c).isLE = true →
      (a.compare c).isLE = true) ∧
    (∀ a b : ScalarString, (a.compare b = .eq ↔ a.bytes = b.bytes) ∧
      (a == b) = (a.compare b == .eq) ∧ (a.compare b = .eq → hash a = hash b)) ∧
    (∀ a b : ScalarString, (a.compare b = .lt ↔ a.bytes < b.bytes) ∧
      (a.compare b = .gt ↔ b.bytes < a.bytes)) ∧
    (∀ a b : ScalarString, ∃ test, Comparison.Coherent a.scalars b.scalars test ∧
      (∀ c, test c = c.holds (a.compare b)) ∧
      ∀ c : Comparison, (a.order? (.string b)).map c.holds = some (test c)) ∧
    (∀ engine depth scope left right pos s t,
      (evaluate engine depth scope left).result = .ok (.string s) →
      (evaluate engine depth scope right).result = .ok (.string t) →
      ∃ test, Comparison.Coherent s.scalars t.scalars test ∧
        (∀ c, test c = c.holds (s.compare t)) ∧
        ∀ c, (evaluate engine (depth + 1) scope (.binary (.compare c) left right pos)).result =
          .ok (.bool (test c))) ∧
    ∀ engine depth scope left right pos m n,
      (evaluate engine depth scope left).result = .ok (.int m) →
      (evaluate engine depth scope right).result = .ok (.int n) →
      ∃ test, Comparison.Coherent m n test ∧
        ∀ c, (evaluate engine (depth + 1) scope (.binary (.compare c) left right pos)).result =
          .ok (.bool (test c)) := by
  refine ⟨fun a b => ⟨ScalarString.compare_eq_lt_iff, ScalarString.compare_eq_eq_iff,
      ScalarString.compare_eq_gt_iff⟩, fun a b hb => ScalarString.compare_append a hb,
    fun a b => (ScalarString.swap_compare a b).symm, fun a b c => ScalarString.isLE_compare_trans,
    fun a b => ⟨ScalarString.compare_eq_eq_iff_bytes, ?_, fun h => ?_⟩,
    fun a b => ⟨ScalarString.compare_eq_lt_iff_bytes, ScalarString.compare_eq_gt_iff_bytes⟩,
    fun a b => ⟨_, Comparison.coherent_compare a b, fun _ => rfl, fun _ => rfl⟩,
    fun engine depth scope left right pos s t hs ht =>
      ⟨_, Comparison.coherent_compare s t, fun _ => rfl, fun c => ?_⟩,
    fun engine depth scope left right pos m n hm hn =>
      ⟨_, Comparison.coherent_int m n, fun c => ?_⟩⟩
  · rw [Bool.eq_iff_iff, beq_iff_eq, beq_iff_eq, ScalarString.compare_eq_eq_iff_eq]
  · rw [ScalarString.compare_eq_eq_iff_eq.mp h]
  · rw [evaluate_binary hs ht]
    rfl
  · rw [evaluate_binary hm hn]
    rfl

/-! ### On both sides of the surrogates -/

/-- The last scalar of three bytes. -/
def lastOfThree : ScalarString := .ofScalars ['\uFFFF']

/-- U+10000, the first scalar of four bytes. -/
def firstOfFour : ScalarString := .ofScalars ['𐀀']

/-- The order of scalars goes on from U+FFFF to U+10000, in scripts too, though two units of sixteen
bits would put them the other way round; both come before a longer string. -/
theorem comparisons_follow_one_order_of_widths :
    lastOfThree.compare firstOfFour = .lt ∧
      firstOfFour.compare (firstOfFour ++ lastOfThree) = .lt ∧
      (lastOfThree.compare (firstOfFour ++ lastOfThree)).isLE = true ∧
      (evaluate (Engine.new {}) 2 Scope.empty (.binary (.compare .less)
        (.string lastOfThree none) (.string firstOfFour none) none)).result =
          .ok (.bool true) ∧
      (evaluate (Engine.new {}) 2 Scope.empty (.binary (.compare .greaterEqual)
        (.int (.int (-1)) none) (.int (.int 1) none) none)).result = .ok (.bool false) := by
  obtain ⟨hscalars, hprefix, -, htrans, -, -, -, hstrings, hints⟩ := comparisons_follow_one_order
  have hlt : lastOfThree.scalars < firstOfFour.scalars := by
    rw [lastOfThree, firstOfFour, ScalarString.scalars_ofScalars, ScalarString.scalars_ofScalars]
    decide
  have hwidths : lastOfThree.compare firstOfFour = .lt := (hscalars _ _).1.mpr hlt
  have hlonger : firstOfFour.compare (firstOfFour ++ lastOfThree) = .lt :=
    hprefix firstOfFour lastOfThree (by decide)
  have hle : (lastOfThree.compare (firstOfFour ++ lastOfThree)).isLE = true :=
    htrans _ firstOfFour _ (by rw [hwidths]; rfl) (by rw [hlonger]; rfl)
  obtain ⟨test, htest, -, hevaluate⟩ := hstrings (Engine.new {}) 1 Scope.empty
    (.string lastOfThree none) (.string firstOfFour none) none _ _ rfl rfl
  obtain ⟨test', htest', hevaluate'⟩ := hints (Engine.new {}) 1 Scope.empty
    (.int (.int (-1)) none) (.int (.int 1) none) none (-1) 1 rfl rfl
  have hless : test .less = true := htest.less.mpr hlt
  have hless' : test' .less = true := htest'.less.mpr (by decide)
  have hgreaterEqual : test' .greaterEqual = false := by rw [htest'.greaterEqual, hless']; rfl
  exact ⟨hwidths, hlonger, hle, hless ▸ hevaluate .less,
    hgreaterEqual ▸ hevaluate' .greaterEqual⟩

end ScalarScript
