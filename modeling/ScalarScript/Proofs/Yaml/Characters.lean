import ScalarScript.Yaml.Read
import ScalarScript.Yaml.Write

/-!
# Characters that are written and read

What is written in YAML holds no special code point, so its breaks are line feeds, U+0085, U+2028
and U+2029, of which reading changes U+0085 alone.

Results:
* `isSpace_eq`: among such code points, space is the space character and the breaks.
* `normalizeBreaks_eq_map`: what normalization does to such text.
* `isPrintable_of_not_isSpecial`: such text may be read.
* `map_lineFeed_eq_self`: what is read as it is written.
-/

namespace ScalarScript.Yaml

variable {p : CodePoint}

/-- A code point that is not special is none that is. -/
theorem is_eq_false_of_isSpecial (h : isSpecial p = false) {c : Char}
    (hc : isSpecial (.scalar c) = true) : p.is c = false := by
  refine Bool.eq_false_iff.mpr fun hp => ?_
  rw [CodePoint.eq_of_is hp, hc] at h
  cases h

theorem isBlank_eq (h : isSpecial p = false) : isBlank p = p.is ' ' := by
  rw [isBlank, is_eq_false_of_isSpecial h (c := '\t') (by decide), Bool.or_false]

theorem isSpace_eq (h : isSpecial p = false) : isSpace p = (p.is ' ' || isBreak p) := by
  rw [isSpace, isBlank_eq h, is_eq_false_of_isSpecial h (c := '\r') (by decide),
    is_eq_false_of_isSpecial h (c := '\x00') (by decide), Bool.or_false, Bool.or_false]

theorem isPrintable_of_not_isSpecial (h : isSpecial p = false) : isPrintable p = true := by
  simp only [isSpecial, isPrintable, Bool.not_eq_false', Bool.or_eq_true, Bool.and_eq_true,
    decide_eq_true_eq] at h ⊢
  omega

theorem not_isBreak_space : isBreak (.scalar ' ') = false := by decide

/-- No document marker begins with anything but a dash or a dot. -/
theorem not_startsWithMarker_cons (hdash : p.is '-' = false) (hdot : p.is '.' = false) (t : Text) :
    startsWithMarker (p :: t) = false := by
  have hdashes : Text.startsWith (p :: t) "---" = false := by
    show ((CodePoint.scalar '-' == p) && _) = false
    rw [BEq.comm, ← CodePoint.is, hdash, Bool.false_and]
  have hdots : Text.startsWith (p :: t) "..." = false := by
    show ((CodePoint.scalar '.' == p) && _) = false
    rw [BEq.comm, ← CodePoint.is, hdot, Bool.false_and]
  rw [startsWithMarker, hdashes, hdots]
  rfl

/-- A break is no other character. -/
theorem is_eq_false_of_isBreak (h : isBreak p = true) {c : Char}
    (hc : isBreak (.scalar c) = false) : p.is c = false := by
  refine Bool.eq_false_iff.mpr fun hp => ?_
  rw [CodePoint.eq_of_is hp, hc] at h
  cases h

/-! ## Normalized text -/

/-- A code point as it is read: U+0085 is read as a line feed. -/
def lineFeed (p : CodePoint) : CodePoint := if p.is '\u0085' then .scalar '\n' else p

theorem lineFeed_of_not_isBreak (h : isBreak p = false) : lineFeed p = p := by
  simp only [isBreak, Bool.or_eq_false_iff] at h
  rw [lineFeed, h.1.1.2, if_neg Bool.false_ne_true]

theorem isBreak_lineFeed (h : isBreak p = true) : isBreak (lineFeed p) = true := by
  unfold lineFeed
  split
  · decide
  · exact h

/-- Text without special code points is normalized one by one. -/
theorem normalizeBreaks_eq_map {t : Text} (h : ∀ p ∈ t, isSpecial p = false) :
    normalizeBreaks t = t.map lineFeed := by
  induction t with
  | nil => rfl
  | cons p t ih =>
    obtain ⟨hp, ht⟩ := List.forall_mem_cons.mp h
    have hr : p.is '\r' = false := is_eq_false_of_isSpecial hp (by decide)
    rw [normalizeBreaks, hr, Bool.false_and, if_neg Bool.false_ne_true, ih ht, isForeignBreak, hr,
      Bool.false_or, List.map_cons, lineFeed]
    split <;> rfl

/-- A code point that is read as it is written. -/
def isVerbatim (p : CodePoint) : Bool := !isSpecial p && !p.is '\u0085'

theorem isVerbatim_iff : isVerbatim p = true ↔ isSpecial p = false ∧ p.is '\u0085' = false := by
  rw [isVerbatim, Bool.and_eq_true, Bool.not_eq_true', Bool.not_eq_true']

theorem isVerbatim_of_ascii (hl : 0x20 ≤ p.toNat) (hu : p.toNat ≤ 0x7E) : isVerbatim p = true := by
  refine isVerbatim_iff.mpr ⟨?_, ?_⟩
  · simp only [isSpecial, Bool.not_eq_false', Bool.or_eq_true, Bool.and_eq_true, decide_eq_true_eq]
    omega
  · refine Bool.eq_false_iff.mpr fun hp => ?_
    rw [CodePoint.eq_of_is hp] at hu
    exact absurd hu (by decide)

theorem map_lineFeed_eq_self {t : Text} (h : ∀ p ∈ t, isVerbatim p = true) :
    t.map lineFeed = t := by
  refine (List.map_congr_left fun p hp => ?_).trans (List.map_id t)
  rw [lineFeed, (isVerbatim_iff.mp (h p hp)).2, if_neg Bool.false_ne_true]
  rfl

/-! ## Neighbours -/

/-- What is left of a text that needs no escapes needs none, and there is no space next to a
break. -/
theorem needsEscapes_cons {t : Text} (h : needsEscapes (p :: t) = false) :
    isSpecial p = false ∧ needsEscapes t = false ∧
      (p.is ' ' = true → t.head?.any isBreak = false) ∧
      (isBreak p = true → t.head?.any (·.is ' ') = false) := by
  simp only [needsEscapes, List.any_cons, Bool.or_eq_false_iff] at h
  obtain ⟨⟨hp, ht⟩, hn⟩ := h
  cases t with
  | nil => exact ⟨hp, rfl, fun _ => rfl, fun _ => rfl⟩
  | cons q t =>
    simp only [anyNeighbours, Bool.or_eq_false_iff, Bool.and_eq_false_iff] at hn
    obtain ⟨⟨hspace, hbreak⟩, hn⟩ := hn
    refine ⟨hp, ?_, fun h => ?_, fun h => ?_⟩
    · simp only [needsEscapes, ht, hn, Bool.or_false]
    · rcases hspace with hspace | hspace
      · rw [h] at hspace
        cases hspace
      · exact hspace
    · rcases hbreak with hbreak | hbreak
      · rw [h] at hbreak
        cases hbreak
      · exact hbreak

theorem isSpecial_of_needsEscapes {t : Text} (h : needsEscapes t = false) :
    ∀ p ∈ t, isSpecial p = false := by
  simp only [needsEscapes, Bool.or_eq_false_iff] at h
  simpa using h.1

/-! ## Columns -/

theorem isVerbatim_of_mem_newLine {k : Nat} (h : p ∈ newLine k) : isVerbatim p = true := by
  rcases List.mem_cons.mp h with rfl | h
  · decide
  · rw [List.eq_of_mem_replicate h]
    decide

theorem map_lineFeed_newLine (k : Nat) : (newLine k).map lineFeed = newLine k :=
  map_lineFeed_eq_self fun _ => isVerbatim_of_mem_newLine

theorem map_lineFeed_pad (k : Nat) : (pad k).map lineFeed = pad k :=
  map_lineFeed_eq_self fun _ hp => isVerbatim_of_mem_newLine (List.mem_cons_of_mem _ hp)

theorem pad_succ (k : Nat) : pad (k + 1) = .scalar ' ' :: pad k := rfl

end ScalarScript.Yaml
