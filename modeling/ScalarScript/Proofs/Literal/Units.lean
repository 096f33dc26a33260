import ScalarScript.Except
import ScalarScript.Literal.Decode
import ScalarScript.Proofs.Text.Hexadecimal

/-!
# The units of a literal

The escape language, told without the decoder. A literal is a sequence of units, and each unit
writes one scalar: a character writes itself, a backslash and the quote write the quote, and the
keys of the other escapes stand for a fixed scalar or take the digits of its number. The quote comes
before the keys, so a key that is the quote has no other meaning.

A unit is read off the front of any text in the same way, whatever follows it. So no unit is a
proper beginning of another, a literal has one split into units, and what has been decoded does not
bear on what is decoded behind it.

* `IsUnit quote text c`: the text is a unit and writes `c`.
* `Split quote`: units one after another, with the text that they make up and what they write.

Results:
* `unit_append`, `isUnit_of_unit`: the decoder reads exactly the units off the front of a text.
* `isUnit_append_inj`: a text starts with one unit at most.
* `decodeFrom_split_append`: behind decoded units, the rest is decoded as if it stood alone.
* **`decodes_exactly_units`**: the decoder reads exactly the escape language, and is compositional.
-/

namespace ScalarScript.Literal

/-! ## The language -/

/-- The keys that stand for a fixed scalar. -/
def fixedKeys : List (Char × Char) :=
  [('\\', '\x5C'), ('n', '\x0A'), ('t', '\x09'), ('r', '\x0D'), ('0', '\x00')]

/-- The keys that take digits, and how many. -/
def digitKeys : List (Char × Nat) := [('x', 2), ('u', 4), ('U', 8)]

/-- A text is a unit of literals between these quotes, and writes a scalar. -/
inductive IsUnit (quote : Char) : Text → Char → Prop
  | plain {c : Char} (hq : c ≠ quote) (hb : c ≠ '\\') : IsUnit quote [.scalar c] c
  | quote : IsUnit quote [.scalar '\\', .scalar quote] quote
  | fixed {key c : Char} (hq : key ≠ quote) (hkey : (key, c) ∈ fixedKeys) :
    IsUnit quote [.scalar '\\', .scalar key] c
  | digits {key c : Char} {width : Nat} {digits : Text} (hq : key ≠ quote)
    (hkey : (key, width) ∈ digitKeys) (hwidth : digits.length = width)
    (hvalue : digits.WritesHex c.toNat) :
    IsUnit quote (.scalar '\\' :: .scalar key :: digits) c

/-- Units one after another, each with the scalar that it writes. -/
structure Split (quote : Char) where
  units : List (Text × Char)
  areUnits : ∀ u ∈ units, IsUnit quote u.1 u.2

namespace Split

variable {quote : Char}

/-- The text that the units make up. -/
def raw (s : Split quote) : Text := s.units.flatMap Prod.fst

/-- The scalars that the units write. -/
def scalars (s : Split quote) : Text := Text.ofChars (s.units.map Prod.snd)

/-- No units. -/
def nil : Split quote := ⟨[], nofun⟩

/-- One more unit in front. -/
def cons (text : Text) (c : Char) (h : IsUnit quote text c) (s : Split quote) : Split quote :=
  ⟨(text, c) :: s.units, List.forall_mem_cons.mpr ⟨h, s.areUnits⟩⟩

@[simp] theorem raw_cons (text : Text) (c : Char) (h : IsUnit quote text c) (s : Split quote) :
    (s.cons text c h).raw = text ++ s.raw := rfl

/-- Induction on the units from the last to the first. -/
theorem induction {motive : Split quote → Prop} (nil : motive nil)
    (cons : ∀ text c h s, motive s → motive (cons text c h s)) (s : Split quote) : motive s := by
  obtain ⟨units, h⟩ := s
  induction units with
  | nil => exact nil
  | cons u units ih =>
    obtain ⟨hu, hunits⟩ := List.forall_mem_cons.mp h
    exact cons u.1 u.2 hu ⟨units, hunits⟩ (ih hunits)

end Split

/-! ## Single units -/

variable {quote c : Char} {text rest : Text}

/-- The table of escapes has the keys of the language. -/
theorem keys_of_mem_escapes : ∀ e ∈ escapes,
    match e.directive with
    | .scalar c => (e.key, c) ∈ fixedKeys
    | .hex width => (e.key, width) ∈ digitKeys := by
  simp [escapes, fixedKeys, digitKeys]

theorem directive?_scalar_iff {key : CodePoint} :
    directive? key = some (.scalar c) ↔ ∃ k, key = .scalar k ∧ (k, c) ∈ fixedKeys := by
  constructor
  · intro h
    obtain ⟨e, he, rfl, hd⟩ := directive?_eq_some_iff.mp h
    have hkey := keys_of_mem_escapes e he
    rw [hd] at hkey
    exact ⟨e.key, rfl, hkey⟩
  · have hread : ∀ k ∈ fixedKeys, directive? (.scalar k.1) = some (.scalar k.2) := by decide
    rintro ⟨k, rfl, hk⟩
    exact hread (k, c) hk

theorem directive?_hex_iff {key : CodePoint} {width : Nat} :
    directive? key = some (.hex width) ↔ ∃ k, key = .scalar k ∧ (k, width) ∈ digitKeys := by
  constructor
  · intro h
    obtain ⟨e, he, rfl, hd⟩ := directive?_eq_some_iff.mp h
    have hkey := keys_of_mem_escapes e he
    rw [hd] at hkey
    exact ⟨e.key, rfl, hkey⟩
  · have hread : ∀ k ∈ digitKeys, directive? (.scalar k.1) = some (.hex k.2) := by decide
    rintro ⟨k, rfl, hk⟩
    exact hread (k, width) hk

/-- A numeric escape is read where the digits are. -/
theorem hexUnit_eq_ok_iff {key p : CodePoint} {width n : Nat} {behind : Text} :
    hexUnit key width behind = .ok (p, n) ↔
      n = 2 + width ∧ ∃ digits rest c, behind = digits ++ rest ∧ digits.length = width ∧
        digits.WritesHex c.toNat ∧ p = .scalar c := by
  constructor
  · intro h
    obtain ⟨hn, hle⟩ := hexUnit_length h
    unfold hexUnit at h
    split at h
    · cases h
    · split at h
      · cases h
      · split at h
        · next d hd =>
          cases h
          obtain ⟨m, hm, hc⟩ := Option.bind_eq_some_iff.mp hd
          rw [CodePoint.ofNat?_eq_some_iff] at hc
          cases hc
          exact ⟨rfl, behind.take width, behind.drop width, d, (List.take_append_drop ..).symm,
            List.length_take_of_le hle, Text.hexValue?_eq_some_iff.mp hm, rfl⟩
        · cases h
  · rintro ⟨rfl, digits, rest, c, rfl, rfl, hvalue, rfl⟩
    have hread := Text.hexValue?_eq_some_iff.mpr hvalue
    have hnone : digits.findIdx? (fun p => p.hexDigit?.isNone) = none := by
      rw [List.findIdx?_eq_none_iff]
      intro d hd
      simpa using Text.hexDigit?_of_hexValue? hread d hd
    unfold hexUnit
    rw [List.take_left, hnone]
    have hc : CodePoint.ofNat? c.toNat = some (.scalar c) :=
      CodePoint.ofNat?_eq_some_iff.mpr rfl
    simp only [Nat.lt_irrefl, if_false, hread, Option.bind_some, hc]

/-- The decoder reads a unit in front of any text. -/
theorem unit_append (hq : quote ≠ '\\') (h : IsUnit quote text c) (rest : Text) :
    ∃ first tail, text = first :: tail ∧
      unit (.scalar quote) first (tail ++ rest) = .ok (.scalar c, tail.length + 1) := by
  have hslash : CodePoint.scalar '\\' ≠ .scalar quote := fun h => hq (CodePoint.scalar.inj h).symm
  cases h with
  | plain hc hb =>
    refine ⟨_, _, rfl, ?_⟩
    rw [unit.eq_def, if_neg (by simpa using hc), if_pos (by simpa [CodePoint.is] using hb)]
    rfl
  | quote =>
    refine ⟨_, _, rfl, ?_⟩
    rw [unit.eq_def, if_neg hslash, if_neg (by simp [CodePoint.is])]
    exact if_pos rfl
  | fixed hk hkey =>
    refine ⟨_, _, rfl, ?_⟩
    rw [unit.eq_def, if_neg hslash, if_neg (by simp [CodePoint.is])]
    simp only [List.cons_append, CodePoint.scalar.injEq, hk, if_false,
      directive?_scalar_iff.mpr ⟨_, rfl, hkey⟩]
    rfl
  | digits hk hkey hwidth hvalue =>
    refine ⟨_, _, rfl, ?_⟩
    rw [unit.eq_def, if_neg hslash, if_neg (by simp [CodePoint.is])]
    simp only [List.cons_append, CodePoint.scalar.injEq, hk, if_false,
      directive?_hex_iff.mpr ⟨_, rfl, hkey⟩]
    refine hexUnit_eq_ok_iff.mpr ⟨?_, _, rest, c, rfl, hwidth, hvalue, rfl⟩
    simp only [List.length_cons, hwidth]
    omega

/-- What the decoder reads off the front of a text is a unit. -/
theorem isUnit_of_unit {first p : CodePoint} {behind : Text} {n : Nat}
    (h : unit (.scalar quote) first behind = .ok (p, n)) :
    ∃ tail rest c, behind = tail ++ rest ∧ IsUnit quote (first :: tail) c ∧ n = tail.length + 1 ∧
      p = .scalar c := by
  unfold unit at h
  split at h
  · cases h
  · next hfirst =>
    split at h
    · next hslash =>
      split at h
      · next hscalar =>
        cases h
        obtain ⟨c, rfl⟩ := CodePoint.isScalar_iff.mp hscalar
        have hq : c ≠ quote := by simpa using hfirst
        have hb : c ≠ '\\' := by simpa [CodePoint.is] using hslash
        exact ⟨[], behind, c, rfl, .plain hq hb, rfl, rfl⟩
      · cases h
    · next hslash =>
      obtain rfl : first = .scalar '\\' := by simpa [CodePoint.is] using hslash
      split at h
      · cases h
      · next key digits =>
        split at h
        · next hkey =>
          cases h
          rw [hkey]
          exact ⟨[.scalar quote], digits, quote, rfl, .quote, rfl, rfl⟩
        · next hkey =>
          split at h
          · cases h
          · next c hd =>
            cases h
            obtain ⟨k, rfl, hk⟩ := directive?_scalar_iff.mp hd
            exact ⟨[.scalar k], digits, c, rfl, .fixed (by simpa using hkey) hk, rfl, rfl⟩
          · next width hd =>
            obtain ⟨k, rfl, hk⟩ := directive?_hex_iff.mp hd
            obtain ⟨rfl, run, rest, c, rfl, rfl, hvalue, rfl⟩ := hexUnit_eq_ok_iff.mp h
            refine ⟨.scalar k :: run, rest, c, rfl, .digits (by simpa using hkey) hk rfl hvalue, ?_,
              rfl⟩
            rw [List.length_cons]
            omega

/-- **A text starts with one unit at most**, which ends in one place and writes one scalar. -/
theorem isUnit_append_inj (hq : quote ≠ '\\') {text' rest' : Text} {c' : Char}
    (h : IsUnit quote text c) (h' : IsUnit quote text' c') (heq : text ++ rest = text' ++ rest') :
    text = text' ∧ c = c' ∧ rest = rest' := by
  obtain ⟨first, tail, rfl, hread⟩ := unit_append hq h rest
  obtain ⟨first', tail', rfl, hread'⟩ := unit_append hq h' rest'
  obtain ⟨rfl, hbehind⟩ : first = first' ∧ tail ++ rest = tail' ++ rest' := List.cons.inj heq
  rw [hbehind, hread'] at hread
  simp only [Except.ok.injEq, Prod.mk.injEq, CodePoint.scalar.injEq, Nat.add_right_cancel_iff]
    at hread
  obtain ⟨rfl, hrest⟩ := List.append_inj hbehind hread.2.symm
  exact ⟨rfl, hread.1.symm, hrest⟩

/-- **A literal has one split.** -/
theorem eq_of_raw_eq (hq : quote ≠ '\\') {s t : Split quote} (h : s.raw = t.raw) : s = t := by
  induction s using Split.induction generalizing t with
  | nil =>
    cases t using Split.induction with
    | nil => rfl
    | cons text c hu t =>
      obtain ⟨first, tail, rfl, -⟩ := unit_append hq hu []
      cases h
  | cons text c hu s ih =>
    cases t using Split.induction with
    | nil =>
      obtain ⟨first, tail, rfl, -⟩ := unit_append hq hu []
      cases h
    | cons text' c' hu' t =>
      obtain ⟨rfl, rfl, hraw⟩ := isUnit_append_inj hq hu hu' h
      rw [ih hraw]

/-! ## Literals -/

theorem decodeQuoted_quote {quote : CodePoint} (hq : quote ≠ .scalar '\\') (raw : Text) :
    decodeQuoted [quote] raw = (decode quote raw).mapError .decode := by
  have hquote : quote? [quote] = some quote := if_neg (by simpa [CodePoint.is] using hq)
  rw [decodeQuoted, hquote]

theorem decodeQuoted_scalar (hq : quote ≠ '\\') (raw : Text) :
    decodeQuoted [.scalar quote] raw = (decode (.scalar quote) raw).mapError .decode :=
  decodeQuoted_quote (fun h => hq (CodePoint.scalar.inj h)) raw

/-- An error of a literal behind `n` code points. -/
def DecodeError.behind (n : Nat) (e : DecodeError) : DecodeError :=
  { e with offset := e.offset + n }

theorem decodeFrom_unit_append (hq : quote ≠ '\\') (h : IsUnit quote text c) (offset : Nat)
    (rest : Text) :
    decodeFrom (.scalar quote) offset (text ++ rest) =
      (decodeFrom (.scalar quote) (offset + text.length) rest).map (.scalar c :: ·) := by
  obtain ⟨first, tail, rfl, hread⟩ := unit_append hq h rest
  rw [List.cons_append, decodeFrom_cons, hread]
  simp only [List.length_cons, Nat.add_sub_cancel, List.drop_left]

/-- **Behind decoded units, the rest is decoded as if it stood alone.** -/
theorem decodeFrom_split_append (hq : quote ≠ '\\') (s : Split quote) (offset : Nat)
    (rest : Text) :
    decodeFrom (.scalar quote) offset (s.raw ++ rest) =
      (decodeFrom (.scalar quote) (offset + s.raw.length) rest).map (s.scalars ++ ·) := by
  induction s using Split.induction generalizing offset with
  | nil =>
    show decodeFrom _ offset rest = (decodeFrom _ offset rest).map ([] ++ ·)
    cases decodeFrom (.scalar quote) offset rest <;> rfl
  | cons text c h s ih =>
    rw [Split.raw_cons, List.append_assoc, decodeFrom_unit_append hq h, ih, List.length_append,
      Nat.add_assoc]
    cases decodeFrom (.scalar quote) (offset + (text.length + s.raw.length)) rest <;> rfl

/-- A literal that can be decoded consists of units, and decodes to what they write. -/
theorem split_of_decodeFrom {offset : Nat} {raw xs : Text}
    (h : decodeFrom (.scalar quote) offset raw = .ok xs) :
    ∃ s : Split quote, s.raw = raw ∧ s.scalars = xs := by
  fun_induction decodeFrom (.scalar quote) offset raw generalizing xs with
  | case1 =>
    cases h
    exact ⟨.nil, rfl, rfl⟩
  | case2 => cases h
  | case3 offset first behind value length hu ih =>
    obtain ⟨ys, hys, rfl⟩ := Except.map_eq_ok_iff.mp h
    obtain ⟨tail, rest, c, rfl, hunit, rfl, rfl⟩ := isUnit_of_unit hu
    obtain ⟨s, hraw, rfl⟩ := ih hys
    refine ⟨s.cons _ c hunit, ?_, rfl⟩
    rw [Split.raw_cons, hraw, Nat.add_sub_cancel, List.drop_left, List.cons_append]

/-- An error of a literal counts from where the literal starts. -/
theorem decodeFrom_add (quote : CodePoint) (offset n : Nat) (raw : Text) :
    decodeFrom quote (offset + n) raw =
      (decodeFrom quote offset raw).mapError (DecodeError.behind n) := by
  fun_induction decodeFrom quote offset raw with
  | case1 offset => rw [decodeFrom_nil]; rfl
  | case2 offset first behind bad hu =>
    rw [decodeFrom_cons, hu]
    rfl
  | case3 offset first behind value length hu ih =>
    rw [decodeFrom_cons, hu]
    simp only
    rw [Nat.add_right_comm, ih]
    cases decodeFrom quote (offset + length) (behind.drop (length - 1)) <;> rfl

theorem decodeQuoted_eq_ok_iff (hq : quote ≠ '\\') {raw xs : Text} :
    decodeQuoted [.scalar quote] raw = .ok xs ↔
      ∃ s : Split quote, s.raw = raw ∧ s.scalars = xs := by
  rw [decodeQuoted_scalar hq, Except.mapError_eq_ok_iff]
  constructor
  · exact split_of_decodeFrom
  · rintro ⟨s, rfl, rfl⟩
    have hsplit := decodeFrom_split_append hq s 0 []
    rw [List.append_nil, decodeFrom_nil] at hsplit
    exact hsplit.trans (congrArg Except.ok (List.append_nil _))

/-- What is decoded behind units is decoded as if it stood alone, and errors count from its
start. -/
theorem decodeQuoted_split_append (hq : quote ≠ '\\') (s : Split quote) (raw : Text) :
    decodeQuoted [.scalar quote] (s.raw ++ raw) =
      ((decode (.scalar quote) raw).map (s.scalars ++ ·)).mapError
        fun e => .decode (e.behind s.raw.length) := by
  rw [decodeQuoted_scalar hq, decode, decodeFrom_split_append hq, decodeFrom_add]
  show ((decode (.scalar quote) raw).mapError _ |>.map _ |>.mapError _) = _
  cases decode (.scalar quote) raw <;> rfl

/-- **The decoder reads exactly the escape language, and is compositional.** Between scalar quotes
that are no backslash, a literal is decoded exactly where it splits into units, and to what they
write; the split is unique. Behind a literal that is decoded, any text is decoded as it is alone, or
fails as it does alone, with the offset counted from the start of the whole. -/
theorem decodes_exactly_units {quote : Char} (hq : quote ≠ '\\') :
    (∀ raw xs, decodeQuoted [.scalar quote] raw = .ok xs ↔
      ∃ s : Split quote, s.raw = raw ∧ s.scalars = xs) ∧
    (∀ s t : Split quote, s.raw = t.raw → s = t) ∧
    ∀ a b xs, decodeQuoted [.scalar quote] a = .ok xs →
      (∃ ys, decodeQuoted [.scalar quote] b = .ok ys ∧
        decodeQuoted [.scalar quote] (a ++ b) = .ok (xs ++ ys)) ∨
      ∃ e, decodeQuoted [.scalar quote] b = .error (.decode e) ∧
        decodeQuoted [.scalar quote] (a ++ b) =
          .error (.decode { e with offset := e.offset + a.length }) := by
  refine ⟨fun raw xs => decodeQuoted_eq_ok_iff hq, fun s t => eq_of_raw_eq hq,
    fun a b xs h => ?_⟩
  obtain ⟨s, rfl, rfl⟩ := (decodeQuoted_eq_ok_iff hq).mp h
  rw [decodeQuoted_split_append hq, decodeQuoted_scalar hq]
  cases decode (.scalar quote) b with
  | ok ys => exact .inl ⟨ys, rfl, rfl⟩
  | error e => exact .inr ⟨e, rfl, rfl⟩

/-! ### A quote that is a key, and an escape that is cut off -/

/-- The two units of `\n\xE9` between quotes `n`. -/
def letterN : Split 'n' :=
  .cons (Text.of "\\n") 'n' .quote <|
    .cons (Text.of "\\xE9") 'é' (.digits (by decide) (by decide) rfl
      ⟨[9, 14], .cons ⟨by decide, .inl rfl⟩ (.cons ⟨by decide, .inr rfl⟩ .nil), rfl⟩) .nil

/-- Between quotes `n`, an escaped `n` is the letter and no line feed. Behind the two units, an
escape without its digits fails as it does alone. -/
theorem decodes_exactly_units_of_letter :
    decodeQuoted (Text.of "n") (Text.of "\\n\\xE9") = .ok (Text.of "né") ∧
      ∃ e, decodeQuoted (Text.of "n") (Text.of "\\u00") = .error (.decode e) ∧
        decodeQuoted (Text.of "n") (Text.of "\\n\\xE9" ++ Text.of "\\u00") =
          .error (.decode { e with offset := e.offset + 6 }) := by
  have hquote : 'n' ≠ '\\' := by decide
  obtain ⟨hunits, -, hbehind⟩ := decodes_exactly_units hquote
  have hletter := (hunits (Text.of "\\n\\xE9") (Text.of "né")).mpr ⟨letterN, rfl, rfl⟩
  have hcut : decodeQuoted (Text.of "n") (Text.of "\\u00") =
      .error (.decode ⟨.truncatedEscape, 0, Text.of "\\u00"⟩) := by with_unfolding_all rfl
  refine ⟨hletter, ?_⟩
  rcases hbehind _ (Text.of "\\u00") _ hletter with ⟨ys, hys, -⟩ | h
  · cases hcut.symm.trans hys
  · exact h

end ScalarScript.Literal
