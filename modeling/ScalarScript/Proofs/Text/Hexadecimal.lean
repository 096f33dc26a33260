import Mathlib.Data.List.Induction
import Mathlib.Data.Nat.Digits.Defs
import ScalarScript.Text.Number

/-!
# Hexadecimal digits

What is written in hexadecimal is read back, in either case and with any zeros in front.

* `Text.WritesHex t n`: a text writes a number in base sixteen, each digit in either case.

Results:
* `hexValue?_hex`, `hexValue?_upperHex`: the value of the digits of a number is the number.
* `length_hex`, `length_upperHex`: a number that fits fills the width it is written in.
* `hexDigit?_of_hexValue?`, `toNat_of_hexDigit?`: what has a value is digits, which are in ASCII.
* **`hexValue?_eq_some_iff`**: what is read is the number that is written.
-/

namespace ScalarScript

/-- A character writes a digit of base sixteen, in either case. -/
def CodePoint.WritesDigit (p : CodePoint) (d : Nat) : Prop :=
  d < 16 ∧ (p = .scalar (Nat.digitChar d) ∨ p = .scalar (Nat.digitChar d).toUpper)

/-- A text writes a number in base sixteen. The digits are counted from the end, where the lowest
stands. -/
def Text.WritesHex (t : Text) (n : Nat) : Prop :=
  ∃ ds, List.Forall₂ CodePoint.WritesDigit t.reverse ds ∧ Nat.ofDigits 16 ds = n

namespace Text

/-- One more digit behind a run of digits. -/
theorem hexValue?_concat (t : Text) (p : CodePoint) :
    hexValue? (t ++ [p]) = (do return (← hexValue? t) * 16 + (← p.hexDigit?)) := by
  unfold hexValue?
  rw [List.foldl_append]
  rfl

/-- Zeros in front do not count. -/
theorem hexValue?_replicate_append (k : Nat) (t : Text) :
    hexValue? (List.replicate k (.scalar '0') ++ t) = hexValue? t := by
  have hzero : hexValue? (List.replicate k (.scalar '0')) = some 0 := by
    induction k with
    | zero => rfl
    | succ k ih =>
      rw [List.replicate_succ', hexValue?_concat, ih]
      rfl
  unfold hexValue? at hzero ⊢
  rw [List.foldl_append, hzero]

/-- The digits of a number, each written by some character with its value. -/
theorem hexValue?_map_toDigits {shape : Char → Char}
    (hshape : ∀ d < 16, (CodePoint.scalar (shape (Nat.digitChar d))).hexDigit? = some d) (n : Nat) :
    hexValue? (ofChars ((Nat.toDigits 16 n).map shape)) = some n := by
  induction n using Nat.strongRecOn with
  | ind n ih =>
    rw [Nat.toDigits_eq_if (by decide)]
    split
    · next hn =>
      have hd := hshape n hn
      show hexValue? ([] ++ [CodePoint.scalar (shape (Nat.digitChar n))]) = some n
      rw [hexValue?_concat, hd]
      exact congrArg some (Nat.zero_add n)
    · next hn =>
      have hquot := ih (n / 16) (by omega)
      have hd := hshape (n % 16) (Nat.mod_lt n (by decide))
      have hsplit : ofChars (((Nat.toDigits 16 (n / 16)) ++ [Nat.digitChar (n % 16)]).map shape) =
          ofChars ((Nat.toDigits 16 (n / 16)).map shape) ++
            [CodePoint.scalar (shape (Nat.digitChar (n % 16)))] := by
        rw [List.map_append]
        exact List.map_append
      rw [hsplit, hexValue?_concat, hquot, hd]
      exact congrArg some (Nat.div_add_mod' n 16)

/-- A padded text is zeros and the text. -/
theorem ofChars_leftpad (width : Nat) (cs : List Char) :
    ofChars (cs.leftpad width '0') =
      List.replicate (width - cs.length) (.scalar '0') ++ ofChars cs := by
  unfold List.leftpad ofChars
  rw [List.map_append, List.map_replicate]

theorem hexValue?_hex (width n : Nat) : hexValue? (hex width n) = some n := by
  have hlower : ∀ d < 16, (CodePoint.scalar (id (Nat.digitChar d))).hexDigit? = some d := by decide
  have hdigits := hexValue?_map_toDigits hlower n
  rw [List.map_id] at hdigits
  rw [hex, ofChars_leftpad, hexValue?_replicate_append, hdigits]

theorem hexValue?_upperHex (width n : Nat) : hexValue? (upperHex width n) = some n := by
  have hupper :
      ∀ d < 16, (CodePoint.scalar (Char.toUpper (Nat.digitChar d))).hexDigit? = some d := by
    decide
  rw [upperHex, ofChars_leftpad, hexValue?_replicate_append, hexValue?_map_toDigits hupper n]

theorem length_hex {width n : Nat} (h : (Nat.toDigits 16 n).length ≤ width) :
    (hex width n).length = width := by
  rw [hex, ofChars, List.length_map, List.length_leftpad]
  exact Nat.max_eq_left h

theorem length_upperHex {width n : Nat} (h : (Nat.toDigits 16 n).length ≤ width) :
    (upperHex width n).length = width := by
  rw [upperHex, ofChars, List.length_map, List.length_leftpad, List.length_map]
  exact Nat.max_eq_left h

/-- A number of sixteen bits has at most four digits. -/
theorem length_toDigits_of_lt {n : Nat} (h : n < 0x10000) : (Nat.toDigits 16 n).length ≤ 4 :=
  (Nat.length_toDigits_le_iff (by decide) (by decide)).mpr h

/-- The number of a code point has at most six digits. -/
theorem length_toDigits_toNat (p : CodePoint) : (Nat.toDigits 16 p.toNat).length ≤ 6 := by
  refine (Nat.length_toDigits_le_iff (by decide) (by decide)).mpr ?_
  show p.toNat < 0x1000000
  cases p with
  | scalar c =>
    have hc : c.toNat < 0xD800 ∨ 0xDFFF < c.toNat ∧ c.toNat < 0x110000 := c.valid
    show c.toNat < 0x1000000
    omega
  | surrogate i =>
    have hi := i.isLt
    show 0xD800 + i.1 < 0x1000000
    omega

/-- What has a value is digits. -/
theorem hexDigit?_of_hexValue? {t : Text} {n : Nat} (h : hexValue? t = some n) :
    ∀ p ∈ t, p.hexDigit?.isSome = true := by
  induction t using List.reverseRecOn generalizing n with
  | nil => exact nofun
  | append_singleton t p ih =>
    rw [hexValue?_concat] at h
    obtain ⟨m, hm, h⟩ := Option.bind_eq_some_iff.mp h
    obtain ⟨d, hd, -⟩ := Option.bind_eq_some_iff.mp h
    intro q hq
    rcases List.mem_append.mp hq with hq | hq
    · exact ih hm q hq
    · rw [List.mem_singleton.mp hq, hd]
      rfl

theorem toNat_of_hexDigit? {p : CodePoint} (h : p.hexDigit?.isSome = true) :
    0x30 ≤ p.toNat ∧ p.toNat ≤ 0x66 := by
  cases p with
  | surrogate i => cases h
  | scalar c =>
    have hdigit : ∀ {a b : Char}, a ≤ c ∧ c ≤ b → 0x30 ≤ a.toNat → b.toNat ≤ 0x66 →
        0x30 ≤ c.toNat ∧ c.toNat ≤ 0x66 := fun hc ha hb =>
      ⟨Nat.le_trans ha hc.1, Nat.le_trans hc.2 hb⟩
    unfold CodePoint.hexDigit? at h
    simp only [CodePoint.char?] at h
    split at h
    · next hc => exact hdigit hc (by decide) (by decide)
    · split at h
      · next hc => exact hdigit hc (by decide) (by decide)
      · split at h
        · next hc => exact hdigit hc (by decide) (by decide)
        · cases h

/-! ## Reading -/

theorem hexDigit?_eq_some_iff {p : CodePoint} {d : Nat} :
    p.hexDigit? = some d ↔ p.WritesDigit d := by
  constructor
  · intro h
    have hread : ∀ k < 0x67, ∀ d ∈ (CodePoint.scalar (Char.ofNat k)).hexDigit?,
        d < 16 ∧ (Char.ofNat k = Nat.digitChar d ∨ Char.ofNat k = (Nat.digitChar d).toUpper) := by
      decide +kernel
    obtain ⟨-, hle⟩ := toNat_of_hexDigit? (p := p) (by rw [h]; rfl)
    cases p with
    | surrogate i => cases h
    | scalar c =>
      have hc : Char.ofNat c.toNat = c := Char.ofNat_toNat c
      have := hread c.toNat (Nat.lt_succ_of_le hle) d (by rw [hc]; exact h)
      rw [hc] at this
      exact ⟨this.1, this.2.imp (congrArg _) (congrArg _)⟩
  · have hwritten : ∀ d < 16, (CodePoint.scalar (Nat.digitChar d)).hexDigit? = some d ∧
        (CodePoint.scalar (Nat.digitChar d).toUpper).hexDigit? = some d := by decide
    rintro ⟨hd, rfl | rfl⟩
    · exact (hwritten d hd).1
    · exact (hwritten d hd).2

/-- **What is read is the number that is written.** -/
theorem hexValue?_eq_some_iff {t : Text} {n : Nat} : hexValue? t = some n ↔ t.WritesHex n := by
  induction t using List.reverseRecOn generalizing n with
  | nil =>
    constructor
    · intro h
      cases h
      exact ⟨[], .nil, rfl⟩
    · rintro ⟨ds, hds, rfl⟩
      cases hds
      rfl
  | append_singleton t p ih =>
    rw [hexValue?_concat, WritesHex, List.reverse_concat]
    constructor
    · intro h
      obtain ⟨m, hm, h⟩ := Option.bind_eq_some_iff.mp h
      obtain ⟨d, hd, h⟩ := Option.bind_eq_some_iff.mp h
      obtain ⟨ds, hds, rfl⟩ := ih.mp hm
      cases h
      refine ⟨d :: ds, .cons (hexDigit?_eq_some_iff.mp hd) hds, ?_⟩
      rw [Nat.ofDigits_cons]
      omega
    · rintro ⟨ds, hds, rfl⟩
      cases hds with
      | @cons _ d _ ds hd hds =>
        rw [ih.mpr ⟨ds, hds, rfl⟩, hexDigit?_eq_some_iff.mpr hd, Nat.ofDigits_cons]
        show some (Nat.ofDigits 16 ds * 16 + d) = _
        rw [Nat.mul_comm, Nat.add_comm]

end Text

end ScalarScript
