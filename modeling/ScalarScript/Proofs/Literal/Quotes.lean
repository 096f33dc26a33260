import ScalarScript.Proofs.Evaluation.Operators
import ScalarScript.Proofs.Literal.Units

/-!
# What literals decode to between any quotes

A character is checked to be a scalar, and so is the number that digits write; the other escapes
stand for scalars of the table. The quote alone is not checked: an escaped quote stands for itself.
So a surrogate comes out of a literal only if it is the quote and the literal holds it, which it can
do nowhere but behind a backslash. The string of such a literal is refused, with the error of a
surrogate in a text and no error of the literal.

Results:
* `scalar_or_quote_of_decode`: each decoded code point is a scalar or the quote.
* `quote_mem_decode_iff`: a surrogate quote comes out exactly where the literal holds it.
* **`only_quote_decodes_to_surrogate`**: the three outcomes of decoding a string.
-/

namespace ScalarScript.Literal

variable {quote : CodePoint}

/-! ## Single units -/

/-- Digits are scalars. -/
theorem isScalar_of_writesHex {digits : Text} {n : Nat} (h : digits.WritesHex n) :
    digits.IsScalars := by
  intro p hp
  have hdigit := Text.hexDigit?_of_hexValue? (Text.hexValue?_eq_some_iff.mpr h) p hp
  cases p with
  | scalar c => rfl
  | surrogate i => cases hdigit

/-- What a unit stands for, and where the quote is: a unit writes the quote if it is an escaped
quote, and writes a scalar otherwise, in which case the unit holds no surrogate quote. -/
theorem unit_quote {first p : CodePoint} {behind : Text} {n : Nat}
    (h : unit quote first behind = .ok (p, n)) :
    p = quote ∧ quote ∈ (first :: behind).take n ∨
      p.isScalar = true ∧ (quote.isScalar = false → quote ∉ (first :: behind).take n) := by
  unfold unit at h
  split at h
  · cases h
  · next hfirst =>
    have hfirst : quote ≠ first := fun he => hfirst he.symm
    split at h
    · split at h
      · next hscalar =>
        cases h
        exact .inr ⟨hscalar, fun _ hmem => hfirst (List.mem_singleton.mp hmem)⟩
      · cases h
    · cases behind with
      | nil => cases h
      | cons key digits =>
        simp only at h
        split at h
        · next hkey =>
          cases h
          exact .inl ⟨rfl, by simp [hkey]⟩
        · next hkey =>
          have hkey : quote ≠ key := fun he => hkey he.symm
          split at h
          · cases h
          · cases h
            exact .inr ⟨rfl, by simp [hfirst, hkey]⟩
          · obtain ⟨rfl, run, rest, c, rfl, rfl, hvalue, rfl⟩ := hexUnit_eq_ok_iff.mp h
            refine .inr ⟨rfl, fun hq => ?_⟩
            rw [Nat.add_comm, List.take_succ_cons, List.take_succ_cons, List.take_left]
            simp only [List.mem_cons, hfirst, hkey, false_or]
            intro hmem
            rw [isScalar_of_writesHex hvalue quote hmem] at hq
            cases hq

/-! ## Literals -/

/-- **Each decoded code point is a scalar or the quote.** -/
theorem scalar_or_quote_of_decode {offset : Nat} {raw xs : Text}
    (h : decodeFrom quote offset raw = .ok xs) : ∀ p ∈ xs, p.isScalar = true ∨ p = quote := by
  fun_induction decodeFrom quote offset raw generalizing xs with
  | case1 => cases h; simp
  | case2 => cases h
  | case3 offset first behind value length hu ih =>
    obtain ⟨ys, hys, rfl⟩ := Except.map_eq_ok_iff.mp h
    have hvalue : value.isScalar = true ∨ value = quote :=
      (unit_quote hu).symm.imp And.left And.left
    exact List.forall_mem_cons.mpr ⟨hvalue, ih hys⟩

/-- **A surrogate quote comes out exactly where the literal holds it.** -/
theorem quote_mem_decode_iff (hq : quote.isScalar = false) {offset : Nat} {raw xs : Text}
    (h : decodeFrom quote offset raw = .ok xs) : quote ∈ xs ↔ quote ∈ raw := by
  fun_induction decodeFrom quote offset raw generalizing xs with
  | case1 => cases h; rfl
  | case2 => cases h
  | case3 offset first behind value length hu ih =>
    obtain ⟨ys, hys, rfl⟩ := Except.map_eq_ok_iff.mp h
    have hraw : first :: behind = (first :: behind).take length ++ behind.drop (length - 1) := by
      obtain ⟨hone, -⟩ := unit_length_le hu
      obtain ⟨n, rfl⟩ := Nat.exists_eq_add_of_le' hone
      simp
    have hunit : quote = value ↔ quote ∈ (first :: behind).take length := by
      rcases unit_quote hu with ⟨rfl, hmem⟩ | ⟨hscalar, hnot⟩
      · exact iff_of_true rfl hmem
      · refine iff_of_false ?_ (hnot hq)
        rintro rfl
        rw [hscalar] at hq
        cases hq
    rw [hraw, List.mem_append, List.mem_cons, hunit, ih hys]

/-- A literal that decodes to scalars makes the string of them. -/
theorem ofHostText_of_isScalars {xs : Text} (h : xs.IsScalars) :
    ∃ s : ScalarString, s.text = xs ∧ ScalarString.ofHostText xs = .ok s := by
  refine ⟨.ofScalars xs.chars, ?_, ?_⟩
  · rw [ScalarString.text, ScalarString.scalars_ofScalars, Text.ofChars_chars h]
  · rw [ScalarString.ofHostText, ScalarString.ofText, h.firstSurrogate?_eq_none]
    rfl

/-- Where the quote alone may be a surrogate, it is what the string is refused for. -/
theorem ofHostText_of_mem_quote (hq : quote.isScalar = false) {xs : Text} (hmem : quote ∈ xs)
    (h : ∀ p ∈ xs, p.isScalar = true ∨ p = quote) :
    ScalarString.ofHostText xs = .error (.notScalar (.int quote.toNat)) := by
  rw [ofHostText_eq_error_iff]
  refine ⟨quote, ?_, rfl⟩
  obtain ⟨p, hp⟩ : ∃ p, xs.firstSurrogate? = some p :=
    Option.isSome_iff_exists.mp (List.find?_isSome.mpr ⟨quote, hmem, by simp [hq]⟩)
  have hsurrogate := List.find?_some hp
  rcases h p (List.mem_of_find?_eq_some hp) with hs | rfl
  · simp [hs] at hsurrogate
  · exact hp

/-- **Nothing but a surrogate quote decodes to a surrogate.** Between quotes that are any one code
point but the backslash, a string either fails with the error of its literal; or is the string of
what is decoded, and if the quote is a surrogate the literal does not hold it; or the quote is a
surrogate and the literal holds it, and then it is the one surrogate among what is decoded, and the
string is refused for it. -/
theorem only_quote_decodes_to_surrogate {quote : CodePoint} (hq : quote ≠ .scalar '\\')
    (raw : Text) :
    (∃ e, decodeQuoted [quote] raw = .error (.decode e) ∧
      decodeQuotedString [quote] raw = .error (.decode e)) ∨
    (∃ s : ScalarString, decodeQuoted [quote] raw = .ok s.text ∧
      decodeQuotedString [quote] raw = .ok s ∧ (quote.isScalar = true ∨ quote ∉ raw)) ∨
    ∃ xs, decodeQuoted [quote] raw = .ok xs ∧ quote.isScalar = false ∧ quote ∈ raw ∧ quote ∈ xs ∧
      (∀ p ∈ xs, p.isScalar = true ∨ p = quote) ∧
      decodeQuotedString [quote] raw = .error (.string (.notScalar (.int quote.toNat))) := by
  rw [decodeQuotedString, decodeQuoted_quote hq]
  cases h : decode quote raw with
  | error e => exact .inl ⟨e, rfl, rfl⟩
  | ok xs =>
    have hxs : ∀ p ∈ xs, p.isScalar = true ∨ p = quote := scalar_or_quote_of_decode h
    right
    by_cases hscalars : xs.IsScalars
    · obtain ⟨s, rfl, hs⟩ := ofHostText_of_isScalars hscalars
      refine .inl ⟨s, rfl, congrArg (·.mapError QuotedError.string) hs, ?_⟩
      by_contra hnot
      obtain ⟨hq', hmem⟩ : quote.isScalar = false ∧ quote ∈ raw := by simpa using hnot
      rw [hscalars quote ((quote_mem_decode_iff hq' h).mpr hmem)] at hq'
      cases hq'
    · obtain ⟨p, hp, hsurrogate⟩ : ∃ p ∈ xs, p.isScalar = false := by
        simpa [Text.IsScalars] using hscalars
      obtain rfl : p = quote := (hxs p hp).resolve_left (by simp [hsurrogate])
      exact .inr ⟨xs, rfl, hsurrogate, (quote_mem_decode_iff hsurrogate h).mp hp, hp, hxs,
        congrArg (·.mapError QuotedError.string) (ofHostText_of_mem_quote hsurrogate hp hxs)⟩

/-- The first surrogate as a quote, escaped: it is decoded, and no string. -/
theorem only_quote_decodes_to_surrogate_of_first :
    decodeQuoted [.surrogate 0] [.scalar '\\', .surrogate 0] = .ok [.surrogate 0] ∧
      decodeQuotedString [.surrogate 0] [.scalar '\\', .surrogate 0] =
        .error (.string (.notScalar (.int 0xD800))) := by
  have hread : decodeQuoted [.surrogate 0] [.scalar '\\', .surrogate 0] = .ok [.surrogate 0] := by
    with_unfolding_all rfl
  have hquote : CodePoint.surrogate 0 ≠ .scalar '\\' := by decide
  refine ⟨hread, ?_⟩
  rcases only_quote_decodes_to_surrogate hquote [.scalar '\\', .surrogate 0] with
    ⟨e, h, -⟩ | ⟨s, -, -, h⟩ | ⟨xs, -, -, -, -, -, h⟩
  · cases hread.symm.trans h
  · exact absurd h (by decide)
  · exact h

end ScalarScript.Literal
