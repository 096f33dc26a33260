import ScalarScript.Json.Read
import ScalarScript.Json.Write
import ScalarScript.Proofs.Evaluation.Operators
import ScalarScript.Proofs.Text.Hexadecimal

/-!
# Strings of JSON

A string is written code point by code point: as it stands, by a short escape, or by the numbers of
its UTF-16 units. Reading finds the same units, one code point after the other, and joins two of
them exactly where they were one character: the unit of a character below U+10000 is no half of a
pair, whatever stands next to it.

Results:
* `stringUnits_escaped`, `joinUnits_append`: what is written for a code point is read as its units,
  and they are joined to it, whatever follows.
* **`string?_string`**: a string that is written is read back, whatever follows it.
* `ascii_string`: it is written in ASCII.
-/

namespace ScalarScript.Json

/-- The units that a code point is read as. -/
def unitsOf (p : CodePoint) : List StringUnit :=
  if (shortEscapes.any fun e => p.is e.1) || (0x20 ≤ p.toNat && p.toNat < 0x7F) then [.plain p]
  else (units16 p).map .code

/-! ## Reading what is written -/

theorem stringUnits_quote (rest : Text) : stringUnits (.scalar '"' :: rest) = some ([], rest) := by
  rw [stringUnits.eq_def]
  rfl

theorem stringUnits_plain {p : CodePoint} (hquote : p.is '"' = false) (hslash : p.is '\\' = false)
    (hlow : 0x20 ≤ p.toNat) (rest : Text) :
    stringUnits (p :: rest) = (stringUnits rest).map fun r => (.plain p :: r.1, r.2) := by
  rw [stringUnits.eq_def]
  simp only [hquote, hslash, Bool.false_eq_true, if_false, if_neg (Nat.not_lt.mpr hlow)]

theorem stringUnits_short {q : CodePoint} {c : Char} (hq : q.is 'u' = false)
    (hc : shortEscape? q = some c) (rest : Text) :
    stringUnits (.scalar '\\' :: q :: rest) =
      (stringUnits rest).map fun r => (.plain (.scalar c) :: r.1, r.2) := by
  rw [stringUnits.eq_def]
  have hslash : (CodePoint.scalar '\\').is '\\' = true := by decide
  have hquote : (CodePoint.scalar '\\').is '"' = false := by decide
  simp only [hslash, hquote, hq, hc, Bool.false_eq_true, if_false, if_true]

/-- Four digits are read as the number they write. -/
theorem stringUnits_hex {n : Nat} (h : n < 0x10000) (rest : Text) :
    stringUnits (Text.of "\\u" ++ Text.hex 4 n ++ rest) =
      (stringUnits rest).map fun r => (StringUnit.code n :: r.1, r.2) := by
  have hlength : (Text.hex 4 n).length = 4 := Text.length_hex (Text.length_toDigits_of_lt h)
  have hvalue : Text.hexValue? (Text.hex 4 n) = some n := Text.hexValue?_hex 4 n
  obtain ⟨a, b, c, d, hdigits⟩ : ∃ a b c d, Text.hex 4 n = [a, b, c, d] := by
    match hd : Text.hex 4 n, hlength with
    | [a, b, c, d], _ => exact ⟨a, b, c, d, rfl⟩
  rw [hdigits] at hvalue ⊢
  show stringUnits (.scalar '\\' :: .scalar 'u' :: a :: b :: c :: d :: rest) = _
  rw [stringUnits.eq_def]
  have hslash : (CodePoint.scalar '\\').is '\\' = true := by decide
  have hquote : (CodePoint.scalar '\\').is '"' = false := by decide
  have hu : (CodePoint.scalar 'u').is 'u' = true := by decide
  simp only [hslash, hquote, hu, hvalue, Bool.false_eq_true, if_false, if_true]

theorem units16_lt (p : CodePoint) : ∀ n ∈ units16 p, n < 0x10000 := by
  have hp : p.toNat < 0x110000 := by
    cases p with
    | scalar c =>
      have hc : c.toNat < 0xD800 ∨ 0xDFFF < c.toNat ∧ c.toNat < 0x110000 := c.valid
      show c.toNat < 0x110000
      omega
    | surrogate i =>
      have hi := i.isLt
      show 0xD800 + i.1 < 0x110000
      omega
  by_cases h : p.toNat < 0x10000
  · rw [units16_of_lt h]
    exact List.forall_mem_singleton.mpr h
  · rw [units16_of_le (by omega)]
    simp only [List.forall_mem_cons]
    exact ⟨by omega, by omega, nofun⟩

theorem stringUnits_codes {ns : List Nat} (h : ∀ n ∈ ns, n < 0x10000) (rest : Text) :
    stringUnits ((ns.flatMap fun n => Text.of "\\u" ++ Text.hex 4 n) ++ rest) =
      (stringUnits rest).map fun r => (ns.map .code ++ r.1, r.2) := by
  induction ns with
  | nil => simp
  | cons n ns ih =>
    obtain ⟨hn, hns⟩ := List.forall_mem_cons.mp h
    rw [List.flatMap_cons, List.append_assoc, stringUnits_hex hn, ih hns, Option.map_map]
    rfl

/-- What is written for a code point is read as its units. -/
theorem stringUnits_escaped (p : CodePoint) (rest : Text) :
    stringUnits (escaped p ++ rest) =
      (stringUnits rest).map fun r => (unitsOf p ++ r.1, r.2) := by
  unfold escaped unitsOf
  cases he : shortEscapes.find? fun e => p.is e.1 with
  | some e =>
    have hmem := List.mem_of_find?_eq_some he
    have hp : p.is e.1 = true := by simpa using List.find?_some he
    have hany : (shortEscapes.any fun e => p.is e.1) = true := List.any_eq_true.mpr ⟨e, hmem, hp⟩
    have hpe : p = .scalar e.1 := CodePoint.eq_of_is hp
    rw [hany, Bool.true_or, if_pos rfl, hpe]
    have hshort : ∀ e ∈ shortEscapes, shortEscape? (.scalar e.2) = some e.1 ∧
        (CodePoint.scalar e.2).is 'u' = false := by decide
    obtain ⟨hc, hu⟩ := hshort e hmem
    exact stringUnits_short hu hc rest
  | none =>
    have hnone : ∀ e ∈ shortEscapes, p.is e.1 = false := by simpa using List.find?_eq_none.mp he
    have hany : (shortEscapes.any fun e => p.is e.1) = false := by simpa using hnone
    rw [hany, Bool.false_or]
    by_cases hp : 0x20 ≤ p.toNat ∧ p.toNat < 0x7F
    · have hquote : p.is '"' = false := hnone ('"', '"') (by decide)
      have hslash : p.is '\\' = false := hnone ('\\', '\\') (by decide)
      rw [if_pos hp, if_pos (by simpa using hp)]
      exact stringUnits_plain hquote hslash hp.1 rest
    · rw [if_neg hp, if_neg (by simpa using hp)]
      exact stringUnits_codes (units16_lt p) rest

theorem stringUnits_flatMap (t rest : Text) :
    stringUnits (t.flatMap escaped ++ .scalar '"' :: rest) = some (t.flatMap unitsOf, rest) := by
  induction t with
  | nil => exact stringUnits_quote rest
  | cons p t ih =>
    rw [List.flatMap_cons, List.append_assoc, stringUnits_escaped, ih, List.flatMap_cons]
    rfl

/-! ## Joining units -/

/-- A number outside of the surrogates is never half of a pair. -/
theorem joinUnits_code {c : Char} (units : List StringUnit) :
    joinUnits (.code c.toNat :: units) = .scalar c :: joinUnits units := by
  have hpoint : CodePoint.ofNat? c.toNat = some (.scalar c) := CodePoint.ofNat?_toNat (.scalar c)
  have hc : c.toNat < 0xD800 ∨ 0xDFFF < c.toNat ∧ c.toNat < 0x110000 := c.valid
  cases units with
  | nil =>
    rw [joinUnits.eq_def]
    simp only [hpoint]
    rfl
  | cons u units =>
    cases u with
    | plain p =>
      rw [joinUnits.eq_def]
      simp only [hpoint]
      rfl
    | code low =>
      have hpair : pair? c.toNat low = none := if_neg (by omega)
      rw [joinUnits, hpair, hpoint]
      rfl

/-- The two units of a character are joined. -/
theorem joinUnits_pair {c : Char} (h : 0x10000 ≤ c.toNat) (units : List StringUnit) :
    joinUnits (.code (0xD800 + (c.toNat - 0x10000) / 0x400) ::
      .code (0xDC00 + (c.toNat - 0x10000) % 0x400) :: units) = .scalar c :: joinUnits units := by
  have hc : c.toNat < 0xD800 ∨ 0xDFFF < c.toNat ∧ c.toNat < 0x110000 := c.valid
  have hnumber : 0x10000 + (0xD800 + (c.toNat - 0x10000) / 0x400 - 0xD800) * 0x400 +
      (0xDC00 + (c.toNat - 0x10000) % 0x400 - 0xDC00) = c.toNat := by omega
  have hpair : pair? (0xD800 + (c.toNat - 0x10000) / 0x400)
      (0xDC00 + (c.toNat - 0x10000) % 0x400) = some (.scalar c) := by
    rw [pair?, if_pos (by omega), hnumber]
    exact CodePoint.ofNat?_toNat (.scalar c)
  rw [joinUnits, hpair]

/-- The units of a character are joined to it, whatever follows. -/
theorem joinUnits_append (c : Char) (units : List StringUnit) :
    joinUnits (unitsOf (.scalar c) ++ units) = .scalar c :: joinUnits units := by
  unfold unitsOf
  split
  · rfl
  · by_cases h : (CodePoint.scalar c).toNat < 0x10000
    · rw [units16_of_lt h]
      exact joinUnits_code units
    · rw [units16_of_le (by omega)]
      exact joinUnits_pair (Nat.le_of_not_lt h) units

/-- A text with each two surrogates that make up one character joined to it. -/
def joined (t : Text) : Text := joinUnits (t.flatMap unitsOf)

/-- Where there is no surrogate, there is nothing to join. -/
theorem joined_eq_self {t : Text} (h : t.IsScalars) : joined t = t := by
  unfold joined
  induction t with
  | nil => rfl
  | cons p t ih =>
    obtain ⟨hp, ht⟩ := List.forall_mem_cons.mp h
    obtain ⟨c, rfl⟩ := CodePoint.isScalar_iff.mp hp
    rw [List.flatMap_cons, joinUnits_append, ih ht]

/-- A string that is written is read with its surrogates joined, whatever follows it. -/
theorem string?_joined (t rest : Text) :
    string? (t.flatMap escaped ++ .scalar '"' :: rest) = some (joined t, rest) := by
  rw [string?, stringUnits_flatMap]
  rfl

/-- **A string that is written is read back**, whatever follows it. -/
theorem string?_string {t : Text} (h : t.IsScalars) (rest : Text) :
    string? (t.flatMap escaped ++ .scalar '"' :: rest) = some (t, rest) := by
  rw [string?_joined, joined_eq_self h]

/-! ## ASCII -/

theorem ascii_escaped (p : CodePoint) : ∀ q ∈ escaped p, q.toNat < 0x80 := by
  unfold escaped
  split
  · next e he =>
    have hmem := List.mem_of_find?_eq_some he
    have hall : ∀ e ∈ shortEscapes, ∀ q ∈ [CodePoint.scalar '\\', .scalar e.2], q.toNat < 0x80 := by
      decide
    exact hall e hmem
  · split
    · next h =>
      refine List.forall_mem_singleton.mpr ?_
      omega
    · intro q hq
      obtain ⟨n, -, hq⟩ := List.mem_flatMap.mp hq
      rcases List.mem_append.mp hq with hq | hq
      · have hall : ∀ q ∈ Text.of "\\u", q.toNat < 0x80 := by decide
        exact hall q hq
      · have hdigit := Text.hexDigit?_of_hexValue? (Text.hexValue?_hex 4 n) q hq
        exact Nat.lt_of_le_of_lt (Text.toNat_of_hexDigit? hdigit).2 (by decide)

/-- A string is written in ASCII. -/
theorem ascii_string (t : Text) : ∀ q ∈ string t, q.toNat < 0x80 := by
  have hquote : (CodePoint.scalar '"').toNat < 0x80 := by decide
  refine List.forall_mem_cons.mpr ⟨hquote, List.forall_mem_append.mpr
    ⟨fun q hq => ?_, List.forall_mem_singleton.mpr hquote⟩⟩
  obtain ⟨p, -, hq⟩ := List.mem_flatMap.mp hq
  exact ascii_escaped p q hq

end ScalarScript.Json
