import ScalarScript.Proofs.Evaluation.Operators
import ScalarScript.Proofs.StringView

/-!
# Strings from text and from scalars

A string is made from host text as a whole, or from scalars that are given one by one, each as its
number or as host text of one code point. The first way looks for a surrogate in the text, the
second one at each item for itself; given the code points of one text, they come to the same.

* `IsScalarNumber` is the range of scalar values, and `CodePoint.IsSurrogate` its gap.
* `Value.number?` is the number that an item gives, and `Value.reported` what is said of an item
  that gives no scalar.

Results:
* `scalar_eq_ok_iff`, `scalar_eq_error_iff`: which items are scalars, and what is said of the
  others.
* `firstSurrogate?_eq_some_iff`: where the first surrogate of a text stands.
* `ofValues_eq_ok_iff`, `ofValues_eq_error_iff`: a list of items is a string unless one gives no
  scalar, and the first such one is reported.
* **`texts_and_scalars_build_alike`**: both ways make one string or report one surrogate, and the
  scalars of a string make it again.
-/

namespace ScalarScript

/-! ## Scalar values by number -/

/-- A number is that of a scalar value: at most U+10FFFF, and no surrogate. -/
def IsScalarNumber (n : Int) : Prop := 0 ≤ n ∧ n ≤ 0x10FFFF ∧ ¬ (0xD800 ≤ n ∧ n ≤ 0xDFFF)

/-- A code point is a surrogate, by its number. -/
def CodePoint.IsSurrogate (p : CodePoint) : Prop := 0xD800 ≤ p.toNat ∧ p.toNat ≤ 0xDFFF

theorem CodePoint.isSurrogate_surrogate (i : Fin 0x800) : (surrogate i).IsSurrogate := by
  have hi : (surrogate i).toNat = 0xD800 + i.1 := rfl
  unfold IsSurrogate
  omega

theorem CodePoint.not_isSurrogate_scalar (c : Char) : ¬ (scalar c).IsSurrogate :=
  (ScalarString.toNat_char_range c).2

theorem CodePoint.isScalar_eq_false_iff {p : CodePoint} : p.isScalar = false ↔ p.IsSurrogate := by
  cases p with
  | scalar c => exact ⟨nofun, fun h => absurd h (not_isSurrogate_scalar c)⟩
  | surrogate i => exact ⟨fun _ => isSurrogate_surrogate i, fun _ => rfl⟩

/-- The scalar values are the numbers of the characters. -/
theorem isScalarNumber_iff {n : Int} : IsScalarNumber n ↔ ∃ c : Char, n = c.toNat := by
  constructor
  · rintro ⟨hpos, hle, hgap⟩
    have hvalid : n.toNat.isValidChar := by
      unfold Nat.isValidChar
      omega
    refine ⟨Char.ofNatAux n.toNat hvalid, ?_⟩
    rw [CodePoint.toNat_ofNatAux]
    omega
  · rintro ⟨c, rfl⟩
    obtain ⟨hle, hgap⟩ := ScalarString.toNat_char_range c
    unfold IsScalarNumber
    omega

theorem CodePoint.isScalarNumber_toNat_iff {p : CodePoint} :
    IsScalarNumber p.toNat ↔ ¬ p.IsSurrogate := by
  cases p with
  | scalar c => exact iff_of_true (isScalarNumber_iff.mpr ⟨c, rfl⟩) (not_isSurrogate_scalar c)
  | surrogate i =>
    have hi : (surrogate i).toNat = 0xD800 + i.1 := rfl
    unfold IsScalarNumber IsSurrogate
    omega

/-- Where the first surrogate of a text stands. -/
theorem Text.firstSurrogate?_eq_some_iff {t : Text} {p : CodePoint} :
    t.firstSurrogate? = some p ↔
      ∃ before after, t = before ++ p :: after ∧ (∀ q ∈ before, ¬ q.IsSurrogate) ∧
        p.IsSurrogate := by
  simp only [firstSurrogate?, List.find?_eq_some_iff_append, Bool.not_eq_true',
    Bool.not_not, ← CodePoint.isScalar_eq_false_iff,
    Bool.not_eq_false]
  constructor
  · rintro ⟨hp, before, after, rfl, hbefore⟩
    exact ⟨before, after, rfl, hbefore, hp⟩
  · rintro ⟨before, after, rfl, hbefore, hp⟩
    exact ⟨hp, before, after, rfl, hbefore⟩

/-! ## Items -/

namespace Value

/-- The number that a value gives as a scalar: itself, or that of its one code point. -/
def number? : Value → Option Int
  | int n => some n
  | text [p] => some p.toNat
  | _ => Option.none

/-- A value gives a scalar. -/
def GivesScalar (v : Value) : Prop := ∃ n, v.number? = some n ∧ IsScalarNumber n

/-- What is reported of a value that gives no scalar: its number if it has one, else the value. -/
def reported (v : Value) : Value :=
  match v.number? with
  | some n => int n
  | Option.none => v

variable {v : Value}

theorem scalar_int_toNat (c : Char) : (int c.toNat).scalar = .ok c := by
  have hread : CodePoint.ofNat? c.toNat = some (.scalar c) := CodePoint.ofNat?_toNat (.scalar c)
  simp [scalar, hread]

theorem scalar_int_of_not {n : Int} (h : ¬ IsScalarNumber n) :
    (int n).scalar = .error (.notScalar (int n)) := by
  simp only [scalar]
  split
  · next c hc =>
    split
    · next hpos =>
      have hn : c.toNat = n.toNat := CodePoint.ofNat?_eq_some_iff.mp hc
      exact absurd (isScalarNumber_iff.mpr ⟨c, by omega⟩) h
    · rfl
  · rfl

/-- An item counts for the number that it gives. -/
theorem scalar_of_number? {n : Int} (h : v.number? = some n) : v.scalar = (int n).scalar := by
  match v with
  | int m =>
    cases h
    rfl
  | text [.scalar c] =>
    cases h
    exact (scalar_int_toNat c).symm
  | text [.surrogate i] =>
    cases h
    refine (scalar_int_of_not ?_).symm
    rw [CodePoint.isScalarNumber_toNat_iff, Classical.not_not]
    exact CodePoint.isSurrogate_surrogate i
  | text [] | text (_ :: _ :: _) | string _ | bool _ | float _ | none | list _ | object _ => cases h

theorem scalar_of_number?_eq_none (h : v.number? = Option.none) :
    v.scalar = .error (.notScalar v) := by
  match v with
  | int m | text [p] => cases h
  | text (p :: _ :: _) => cases p <;> rfl
  | text [] | string _ | bool _ | float _ | none | list _ | object _ => rfl

theorem scalar_eq_ok_iff {c : Char} : v.scalar = .ok c ↔ v.number? = some (c.toNat : Int) := by
  cases hn : v.number? with
  | none =>
    rw [scalar_of_number?_eq_none hn]
    exact ⟨nofun, nofun⟩
  | some n =>
    rw [scalar_of_number? hn, Option.some.injEq]
    constructor
    · intro h
      by_cases hscalar : IsScalarNumber n
      · obtain ⟨d, rfl⟩ := isScalarNumber_iff.mp hscalar
        cases (scalar_int_toNat d).symm.trans h
        rfl
      · rw [scalar_int_of_not hscalar] at h
        cases h
    · rintro rfl
      exact scalar_int_toNat c

theorem exists_scalar_iff : (∃ c, v.scalar = .ok c) ↔ v.GivesScalar := by
  constructor
  · rintro ⟨c, hc⟩
    exact ⟨c.toNat, scalar_eq_ok_iff.mp hc, isScalarNumber_iff.mpr ⟨c, rfl⟩⟩
  · rintro ⟨n, hn, hscalar⟩
    obtain ⟨c, rfl⟩ := isScalarNumber_iff.mp hscalar
    exact ⟨c, scalar_eq_ok_iff.mpr hn⟩

theorem scalar_eq_error_iff {e : StringFault} :
    v.scalar = .error e ↔ ¬ v.GivesScalar ∧ e = .notScalar v.reported := by
  have hreported (h : ¬ v.GivesScalar) : v.scalar = .error (.notScalar v.reported) := by
    unfold reported
    split
    · next n hn =>
      rw [scalar_of_number? hn]
      exact scalar_int_of_not fun hscalar => h ⟨n, hn, hscalar⟩
    · next hn => exact scalar_of_number?_eq_none hn
  constructor
  · intro h
    have hnot : ¬ v.GivesScalar := by
      rw [← exists_scalar_iff]
      rintro ⟨c, hc⟩
      cases h.symm.trans hc
    cases (hreported hnot).symm.trans h
    exact ⟨hnot, rfl⟩
  · rintro ⟨hnot, rfl⟩
    exact hreported hnot

theorem givesScalar_text_iff {p : CodePoint} : (text [p]).GivesScalar ↔ ¬ p.IsSurrogate := by
  rw [← CodePoint.isScalarNumber_toNat_iff]
  constructor
  · rintro ⟨n, hn, hscalar⟩
    cases hn
    exact hscalar
  · exact fun h => ⟨p.toNat, rfl, h⟩

end Value

/-! ## Lists of items -/

namespace ScalarString

variable {items : List Value}

theorem ofValues_eq_ok_iff {s : ScalarString} :
    ofValues items = .ok s ↔
      items.map Value.number? = s.scalars.map fun c => some (c.toNat : Int) := by
  have hmembers (cs : List Char) : items.map Value.scalar = cs.map .ok ↔
      items.map Value.number? = cs.map fun c => some (c.toNat : Int) := by
    induction items generalizing cs with
    | nil => cases cs <;> simp
    | cons v items ih => cases cs <;> simp [ih, Value.scalar_eq_ok_iff]
  rw [ofValues, Except.map_eq_ok_iff]
  simp only [Except.mapM_eq_ok_iff, hmembers]
  constructor
  · rintro ⟨cs, hcs, rfl⟩
    rwa [scalars_ofScalars]
  · exact fun h => ⟨s.scalars, h, s.ofScalars_scalars⟩

theorem ofValues_eq_error_iff {e : StringFault} :
    ofValues items = .error e ↔
      ∃ before v after, items = before ++ v :: after ∧ (∀ w ∈ before, w.GivesScalar) ∧
        ¬ v.GivesScalar ∧ e = .notScalar v.reported := by
  rw [ofValues, Except.map_eq_error_iff, Except.mapM_eq_error_iff]
  simp only [Value.exists_scalar_iff, Value.scalar_eq_error_iff]

theorem exists_ofValues_iff : (∃ s, ofValues items = .ok s) ↔ ∀ v ∈ items, v.GivesScalar := by
  constructor
  · rintro ⟨s, hs⟩ v hv
    have hmem : v.number? ∈ s.scalars.map fun c => some (c.toNat : Int) :=
      ofValues_eq_ok_iff.mp hs ▸ List.mem_map_of_mem hv
    obtain ⟨c, -, hc⟩ := List.mem_map.mp hmem
    exact ⟨c.toNat, hc.symm, isScalarNumber_iff.mpr ⟨c, rfl⟩⟩
  · intro h
    cases hs : ofValues items with
    | ok s => exact ⟨s, rfl⟩
    | error e =>
      obtain ⟨before, v, after, rfl, -, hnot, -⟩ := ofValues_eq_error_iff.mp hs
      exact absurd (h v (List.mem_append_right _ List.mem_cons_self)) hnot

theorem ofValues_scalars (s : ScalarString) :
    ofValues (s.scalars.map fun c => .int c.toNat) = .ok s := by
  rw [ofValues_eq_ok_iff, List.map_map]
  rfl

/-- The code points of a string's text, one by one, make the string. -/
theorem ofValues_text (s : ScalarString) :
    ofValues (s.text.map fun p => .text [p]) = .ok s := by
  rw [ofValues_eq_ok_iff, text, Text.ofChars, List.map_map, List.map_map]
  rfl

/-- A surrogate in a text is reported by its number, behind code points that are none. -/
theorem ofValues_text_eq_error {before after : Text} {p : CodePoint}
    (hbefore : ∀ q ∈ before, ¬ q.IsSurrogate) (hp : p.IsSurrogate) :
    ofValues ((before ++ p :: after).map fun q => .text [q]) =
      .error (.notScalar (.int p.toNat)) := by
  refine ofValues_eq_error_iff.mpr ⟨before.map fun q => .text [q], .text [p],
    after.map fun q => .text [q], by rw [List.map_append, List.map_cons], ?_, ?_, rfl⟩
  · exact List.forall_mem_map.mpr fun q hq => Value.givesScalar_text_iff.mpr (hbefore q hq)
  · rwa [Value.givesScalar_text_iff, Classical.not_not]

/-- **Text and scalars build strings alike.** Host text makes the same string as a whole and code
point by code point, the one that holds its encoding and its length and has it for a text; or both
ways report the first surrogate in it. A list of items makes a string exactly if each of them gives
a scalar, as a number or as text of one code point; the string has those scalars, and else the
first item that gives none is reported. The scalars of a string make it again. -/
theorem texts_and_scalars_build_alike :
    (∀ t : Text,
      (∃ s, ofHostText t = .ok s ∧ ofValues (t.map fun p => .text [p]) = .ok s ∧
        s.bytes = Utf8.encode t.chars ∧ s.length = t.length ∧ s.text = t) ∨
      ∃ before p after, t = before ++ p :: after ∧ (∀ q ∈ before, ¬ q.IsSurrogate) ∧
        p.IsSurrogate ∧ ofHostText t = .error (.notScalar (.int p.toNat)) ∧
        ofValues (t.map fun p => .text [p]) = .error (.notScalar (.int p.toNat))) ∧
    (∀ items : List Value, (∃ s, ofValues items = .ok s) ↔ ∀ v ∈ items, v.GivesScalar) ∧
    (∀ (items : List Value) (s : ScalarString), ofValues items = .ok s →
      items.map Value.number? = s.scalars.map fun c => some (c.toNat : Int)) ∧
    (∀ (items : List Value) (e : StringFault), ofValues items = .error e ↔
      ∃ before v after, items = before ++ v :: after ∧ (∀ w ∈ before, w.GivesScalar) ∧
        ¬ v.GivesScalar ∧ e = .notScalar v.reported) ∧
    ∀ s : ScalarString, ofValues (s.scalars.map fun c => .int c.toNat) = .ok s := by
  refine ⟨fun t => ?_, fun items => exists_ofValues_iff, fun items s => ofValues_eq_ok_iff.mp,
    fun items e => ofValues_eq_error_iff, ofValues_scalars⟩
  cases h : ofHostText t with
  | ok s =>
    obtain rfl : s.text = t := ofText_eq_ok_iff.mp (Except.mapError_eq_ok_iff.mp h)
    refine .inl ⟨s, rfl, s.ofValues_text, ?_, ?_, rfl⟩
    · rw [text, Text.chars_ofChars, bytes_eq]
    · rw [text, Text.ofChars, List.length_map, length_eq]
  | error e =>
    obtain ⟨p, hp, rfl⟩ := ofHostText_eq_error_iff.mp h
    obtain ⟨before, after, rfl, hbefore, hsurrogate⟩ := Text.firstSurrogate?_eq_some_iff.mp hp
    exact .inr ⟨before, p, after, rfl, hbefore, hsurrogate, rfl,
      ofValues_text_eq_error hbefore hsurrogate⟩

/-- A letter in front of two surrogates that would pair: the first one is reported in either way.
Of the items of which the second is a truth value and the third a surrogate, the second is. -/
theorem texts_and_scalars_build_alike_of_pair :
    ofHostText [.scalar 'é', .surrogate 0, .surrogate 0x400] = .error (.notScalar (.int 0xD800)) ∧
    ofValues [.text [.scalar 'é'], .text [.surrogate 0], .text [.surrogate 0x400]] =
      .error (.notScalar (.int 0xD800)) ∧
    ofValues [.text [.scalar 'é'], .bool true, .int 0xD800] = .error (.notScalar (.bool true)) ∧
    (∃ s, ofValues [.text [.scalar 'é'], .int 0x1F603] = .ok s ∧
      [some 0xE9, some 0x1F603] = s.scalars.map fun c => some (c.toNat : Int)) ∧
    ofValues [.int 0xE9, .int 0x1F603] = .ok (ofScalars ['é', '😃']) := by
  obtain ⟨htext, hok, hheld, herror, hagain⟩ := texts_and_scalars_build_alike
  have hletter : (Value.text [.scalar 'é']).GivesScalar :=
    ⟨0xE9, rfl, isScalarNumber_iff.mpr ⟨'é', rfl⟩⟩
  have hsmile : (Value.int 0x1F603).GivesScalar :=
    ⟨0x1F603, rfl, isScalarNumber_iff.mpr ⟨'😃', rfl⟩⟩
  have hmade : ofHostText [.scalar 'é', .surrogate 0, .surrogate 0x400] =
      .error (.notScalar (.int 0xD800)) := rfl
  refine ⟨hmade, ?_, ?_, ?_, hagain (ofScalars ['é', '😃'])⟩
  · rcases htext [.scalar 'é', .surrogate 0, .surrogate 0x400] with
      ⟨s, h, -⟩ | ⟨-, p, -, -, -, -, h, h'⟩
    · cases h
    · exact h'.trans (h.symm.trans hmade)
  · refine (herror _ _).mpr ⟨[.text [.scalar 'é']], .bool true, [.int 0xD800], rfl, ?_, ?_, rfl⟩
    · exact List.forall_mem_singleton.mpr hletter
    · rintro ⟨n, h, -⟩
      cases h
  · obtain ⟨s, hs⟩ := (hok _).mpr
      (List.forall_mem_cons.mpr ⟨hletter, List.forall_mem_singleton.mpr hsmile⟩)
    exact ⟨s, hs, hheld _ s hs⟩

end ScalarString

end ScalarScript
