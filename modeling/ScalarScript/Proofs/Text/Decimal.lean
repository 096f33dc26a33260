import ScalarScript.Text.Number

/-!
# Decimal digits

How the digits of a number begin, and where they end in front of something else.

Results: `ofNat_eq_cons` (zero is one digit, and no other number starts with it); `takeWhile_ofNat`;
`exists_ofInt` (what a number begins with).
-/

namespace ScalarScript.Text

theorem head?_toDigits {n : Nat} (h : n ≠ 0) : (Nat.toDigits 10 n).head? ≠ some '0' := by
  induction n using Nat.strongRecOn with
  | ind n ih =>
    rw [Nat.toDigits_eq_if (by decide)]
    split
    · next hn =>
      have hdigit : ∀ d < 10, d ≠ 0 → some (Nat.digitChar d) ≠ some '0' := by decide
      exact hdigit n hn h
    · next hn =>
      have hquot := ih (n / 10) (by omega) (by omega)
      cases hd : Nat.toDigits 10 (n / 10) with
      | nil => exact absurd hd Nat.toDigits_ne_nil
      | cons c cs =>
        rw [hd] at hquot
        exact hquot

theorem isDigit_of_mem_ofNat {n : Nat} {p : CodePoint} (h : p ∈ ofNat n) : p.isDigit = true :=
  List.all_eq_true.mp (all_isDigit_ofNat n) p h

/-- The digits of a number: one zero, or digits of which the first is no zero. -/
theorem ofNat_eq_cons (n : Nat) :
    (n = 0 ∧ ofNat n = [.scalar '0']) ∨
      ∃ p rest, ofNat n = p :: rest ∧ p.isDigit = true ∧ p.is '0' = false := by
  by_cases h : n = 0
  · refine .inl ⟨h, ?_⟩
    rw [h]
    rfl
  · cases hn : ofNat n with
    | nil => exact absurd hn (ofNat_ne_nil n)
    | cons p rest =>
      refine .inr ⟨p, rest, rfl, isDigit_of_mem_ofNat (hn ▸ List.mem_cons_self), ?_⟩
      have hhead : (ofNat n).head? ≠ some (.scalar '0') := by
        rw [ofNat, ofChars, List.head?_map]
        intro hzero
        obtain ⟨c, hc, hcp⟩ := Option.map_eq_some_iff.mp hzero
        cases hcp
        exact head?_toDigits h hc
      rw [hn, List.head?_cons] at hhead
      simpa [CodePoint.is] using fun hp : p = .scalar '0' => hhead (congrArg some hp)

/-- The digits of a number end where no digit follows. -/
theorem takeWhile_ofNat (n : Nat) {rest : Text} (h : ∀ p ∈ rest.head?, p.isDigit = false) :
    (ofNat n ++ rest).takeWhile CodePoint.isDigit = ofNat n := by
  rw [List.takeWhile_append_of_pos fun p hp => isDigit_of_mem_ofNat hp]
  cases rest with
  | nil => rw [List.takeWhile_nil, List.append_nil]
  | cons p rest =>
    have hp : p.isDigit = false := h p rfl
    rw [List.takeWhile_cons, hp, if_neg Bool.false_ne_true, List.append_nil]

/-- What a number begins with. -/
def BeginsNumber (p : CodePoint) : Prop := p.isDigit = true ∨ p.is '-' = true

instance : DecidablePred BeginsNumber := fun p =>
  inferInstanceAs (Decidable (p.isDigit = true ∨ p.is '-' = true))

theorem exists_ofNat (n : Nat) : ∃ p behind, ofNat n = p :: behind ∧ p.isDigit = true := by
  cases hn : ofNat n with
  | nil => exact absurd hn (ofNat_ne_nil n)
  | cons p behind => exact ⟨p, behind, rfl, isDigit_of_mem_ofNat (hn ▸ List.mem_cons_self)⟩

theorem exists_ofInt (n : Int) : ∃ p behind, ofInt n = p :: behind ∧ BeginsNumber p := by
  cases n with
  | ofNat n =>
    obtain ⟨p, behind, hn, hdigit⟩ := exists_ofNat n
    exact ⟨p, behind, hn, .inl hdigit⟩
  | negSucc n => exact ⟨.scalar '-', _, rfl, .inr rfl⟩

theorem BeginsNumber.is_eq_false {p : CodePoint} (h : BeginsNumber p) {c : Char}
    (hc : (CodePoint.scalar c).isDigit = false ∧ c ≠ '-') : p.is c = false := by
  simp only [CodePoint.is, beq_eq_false_iff_ne]
  rintro rfl
  rcases h with h | h
  · rw [hc.1] at h
    cases h
  · exact hc.2 (by simpa [CodePoint.is] using h)

end ScalarScript.Text
