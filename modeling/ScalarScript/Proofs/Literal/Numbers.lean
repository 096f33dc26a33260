import Mathlib.Data.Nat.Digits.Defs
import ScalarScript.Integer
import ScalarScript.Value.Render

/-!
# Number literals

Leading zeros are dropped and overlong runs of digits refused before a run is read. Neither changes
what is read: zeros add nothing to the value, and a run that is too long without them has a value
out of range.

* `positional` is the value of a run of digits by their places, the last one counting once.

Results:
* `decimalValue_significant`: leading zeros do not count.
* `decimalValue_cons`, `decimalValue_eq_positional`: what a digit adds in front of others, and
  reading from the left as the value by places.
* **`ofDigits?_eq_some_iff`**: digits write a script integer exactly if their value is in range.
* **`digits_read_by_places`**: digits are read by their places and cut at the greatest integer, and
  so are those that an integer renders to, with any zeros in front.
-/

namespace ScalarScript.Integer

theorem decimalValue_significant (digits : Text) :
    (significant digits).decimalValue = digits.decimalValue := by
  induction digits with
  | nil => rfl
  | cons p digits ih =>
    unfold significant at ih ⊢
    by_cases hp : p.is '0' = true
    · have hzero : p = .scalar '0' := CodePoint.eq_of_is hp
      rw [List.dropWhile_cons, if_pos hp, ih, hzero]
      have hcons : Nat.ofDigitChars 10 ('0' :: Text.chars digits) 0 =
          Nat.ofDigitChars 10 (Text.chars digits) 0 := Nat.ofDigitChars_cons
      exact hcons.symm
    · rw [List.dropWhile_cons, if_neg hp]

theorem isScalar_of_isDigit {p : CodePoint} (h : p.isDigit = true) : p.isScalar = true := by
  cases p with
  | scalar c => rfl
  | surrogate i => cases h

theorem length_chars {digits : Text} (hd : ∀ p ∈ digits, p.isDigit = true) :
    digits.chars.length = digits.length := by
  have hchars := Text.ofChars_chars fun p hp => isScalar_of_isDigit (hd p hp)
  calc digits.chars.length
      = (Text.ofChars digits.chars).length := (List.length_map _).symm
    _ = digits.length := by rw [hchars]

/-- A digit in front of others counts ten times for each of them. -/
theorem decimalValue_cons {p : CodePoint} {digits : Text}
    (hd : ∀ q ∈ p :: digits, q.isDigit = true) :
    Text.decimalValue (p :: digits) =
      (p.toNat - '0'.toNat) * 10 ^ digits.length + Text.decimalValue digits := by
  obtain ⟨hfirst, hrest⟩ := List.forall_mem_cons.mp hd
  obtain ⟨c, rfl⟩ := CodePoint.isScalar_iff.mp (isScalar_of_isDigit hfirst)
  show Nat.ofDigitChars 10 (c :: digits.chars) 0 = (c.toNat - '0'.toNat) * _ + _
  rw [Nat.ofDigitChars_cons, Nat.ofDigitChars_eq_ofDigitChars_zero, length_chars hrest,
    Nat.mul_zero, Nat.zero_add, Nat.mul_comm]
  rfl

/-- A digit that is not zero makes a number as long as the digits behind it. -/
theorem le_decimalValue {p : CodePoint} {digits : Text}
    (hd : ∀ q ∈ p :: digits, q.isDigit = true) (hp : p.is '0' = false) :
    10 ^ digits.length ≤ Text.decimalValue (p :: digits) := by
  have hpositive : 1 ≤ p.toNat - '0'.toNat := by
    have hbounds := CodePoint.bounds_of_isDigit (hd p List.mem_cons_self)
    have hne : p.toNat ≠ 48 := by
      intro h
      have hzero : p = .scalar '0' := CodePoint.toNat_injective h
      rw [hzero] at hp
      exact absurd hp (by decide)
    show 1 ≤ p.toNat - 48
    omega
  calc 10 ^ digits.length
      = 1 * 10 ^ digits.length := (Nat.one_mul _).symm
    _ ≤ (p.toNat - '0'.toNat) * 10 ^ digits.length := Nat.mul_le_mul_right _ hpositive
    _ ≤ Text.decimalValue (p :: digits) := by
        rw [decimalValue_cons hd]
        exact Nat.le_add_right _ _

/-- **Digits write a script integer exactly if their value is in range.** More digits than the
greatest integer has are refused unread, and no value in range is lost by that. -/
theorem ofDigits?_eq_some_iff {digits : Text} (hd : ∀ p ∈ digits, p.isDigit = true) {n : Nat} :
    ofDigits? digits = some n ↔ n = digits.decimalValue ∧ (n : Int) ≤ greatest := by
  have hlength : (digits.decimalValue : Int) ≤ greatest →
      (significant digits).length ≤ mostDigits := by
    intro hle
    by_contra hlong
    rw [mostDigits_eq] at hlong
    rw [← decimalValue_significant] at hle
    cases hs : significant digits with
    | nil => simp [hs] at hlong
    | cons p rest =>
      rw [hs] at hle hlong
      have hp : p.is '0' = false := by
        have := List.head?_dropWhile_not (fun q : CodePoint => q.is '0') digits
        rw [show digits.dropWhile (fun q => q.is '0') = p :: rest from hs] at this
        simpa using this
      have hall : ∀ q ∈ p :: rest, q.isDigit = true := fun q hq =>
        hd q ((List.dropWhile_sublist _).subset (hs ▸ hq))
      have hvalue := le_decimalValue hall hp
      have hpow : 10 ^ 19 ≤ 10 ^ rest.length :=
        Nat.pow_le_pow_right (by decide) (Nat.le_of_lt_succ (Nat.not_le.mp hlong))
      have hgreatest : greatest = 0x7fffffffffffffff := rfl
      omega
  unfold ofDigits?
  rw [decimalValue_significant]
  constructor
  · intro h
    split at h
    · cases h
    · split at h
      · next hle =>
        cases h
        exact ⟨rfl, hle⟩
      · cases h
  · rintro ⟨rfl, hle⟩
    rw [if_neg (Nat.not_lt.mpr (hlength hle)), if_pos hle]

/-! ## Digits by their places -/

/-- The value of a run of digits by their places: the last one counts once, and each one in front
of it ten times as much. -/
def positional (digits : Text) : Nat :=
  Nat.ofDigits 10 (digits.reverse.map fun p => p.toNat - '0'.toNat)

theorem positional_cons (p : CodePoint) (digits : Text) :
    positional (p :: digits) =
      (p.toNat - '0'.toNat) * 10 ^ digits.length + positional digits := by
  rw [positional, List.reverse_cons, List.map_append, Nat.ofDigits_append, List.map_singleton,
    Nat.ofDigits_singleton, List.length_map, List.length_reverse, Nat.add_comm, Nat.mul_comm]
  rfl

theorem decimalValue_eq_positional {digits : Text} (hd : ∀ p ∈ digits, p.isDigit = true) :
    digits.decimalValue = positional digits := by
  induction digits with
  | nil => rfl
  | cons p digits ih =>
    rw [decimalValue_cons hd, positional_cons, ih (List.forall_mem_cons.mp hd).2]

theorem ofDigits?_eq_ite {digits : Text} (hd : ∀ p ∈ digits, p.isDigit = true) :
    ofDigits? digits =
      if (positional digits : Int) ≤ greatest then some (positional digits) else none := by
  rw [← decimalValue_eq_positional hd]
  split
  · next hle => exact (ofDigits?_eq_some_iff hd).mpr ⟨rfl, hle⟩
  · next hgt =>
    refine Option.eq_none_iff_forall_ne_some.mpr fun n hn => hgt ?_
    obtain ⟨rfl, hle⟩ := (ofDigits?_eq_some_iff hd).mp hn
    exact hle

/-- Zeros in front of digits add nothing by their places. -/
theorem positional_zeros_append (zeros : Nat) (digits : Text) :
    positional (List.replicate zeros (.scalar '0') ++ digits) = positional digits := by
  induction zeros with
  | zero => rfl
  | succ zeros ih =>
    have hzero : (CodePoint.scalar '0').toNat - '0'.toNat = 0 := rfl
    rw [List.replicate_succ, List.cons_append, positional_cons, ih, hzero, Nat.zero_mul,
      Nat.zero_add]

theorem positional_ofNat (n : Nat) : positional (Text.ofNat n) = n := by
  rw [← decimalValue_eq_positional (List.all_eq_true.mp (Text.all_isDigit_ofNat n)),
    Text.decimalValue_ofNat]

/-- **Digits are read by their places and cut at the greatest script integer.** Any run of decimal
digits, also the empty one and with any zeros in front, is read as its value if that is a script
integer, and as nothing if it is greater. What a natural number renders to is read as that number,
with any zeros in front, under the same condition. -/
theorem digits_read_by_places :
    (∀ digits : Text, (∀ p ∈ digits, p.isDigit = true) →
      ofDigits? digits =
        if (positional digits : Int) ≤ greatest then some (positional digits) else none) ∧
    ∀ (n zeros : Nat) (operator : Text), ∃ t, (Value.int n).render operator = .ok t ∧
      ofDigits? (List.replicate zeros (.scalar '0') ++ t) =
        if (n : Int) ≤ greatest then some n else none := by
  refine ⟨fun digits hd => ofDigits?_eq_ite hd, fun n zeros operator => ?_⟩
  refine ⟨Text.ofNat n, rfl, ?_⟩
  have hdigits : ∀ p ∈ List.replicate zeros (.scalar '0') ++ Text.ofNat n,
      p.isDigit = true := by
    intro p hp
    rcases List.mem_append.mp hp with hp | hp
    · rw [List.eq_of_mem_replicate hp]
      rfl
    · exact List.all_eq_true.mp (Text.all_isDigit_ofNat n) p hp
  rw [ofDigits?_eq_ite hdigits, positional_zeros_append, positional_ofNat]

/-- The greatest script integer behind two zeros is read, and its successor is not. -/
theorem digits_read_by_places_at_greatest :
    (∀ p ∈ Text.of "009223372036854775807", p.isDigit = true) ∧
    ofDigits? (Text.of "009223372036854775807") = some 9223372036854775807 ∧
    (∀ p ∈ Text.of "9223372036854775808", p.isDigit = true) ∧
    ofDigits? (Text.of "9223372036854775808") = none ∧
    ofDigits? [] = some 0 := by
  have hgreatest : ∀ p ∈ Text.of "009223372036854775807", p.isDigit = true := by decide
  have hnext : ∀ p ∈ Text.of "9223372036854775808", p.isDigit = true := by decide
  obtain ⟨hread, -⟩ := digits_read_by_places
  refine ⟨hgreatest, ?_, hnext, ?_, ?_⟩
  · rw [hread _ hgreatest]
    rfl
  · rw [hread _ hnext]
    rfl
  · rw [hread [] nofun]
    rfl

end ScalarScript.Integer
