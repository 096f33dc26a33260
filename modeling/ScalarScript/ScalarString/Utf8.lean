/-!
# Scalar values as bytes

Model of `_utf8_width`, `_is_continuation` and `StringValue._byte_span`, and of the encoding that
they rely on.

UTF-8 over lists of bytes: `encode` writes scalar values, `decode` reads them, and `span?` finds
the bytes of the scalar at an index without decoding what is before it. `span?` skips continuation
bytes and takes the length of a sequence from its first byte, so it is right only where the bytes
are an encoding.

Results:
* `decode_encode`: what was encoded is read back.
* `span?_encode`: on an encoding, the span of index `i` lies between the encodings of the first
  `i` and the first `i + 1` scalars, and there is one exactly below the number of scalars.
-/

namespace ScalarScript.Utf8

/-- The bytes of a list of scalar values. -/
def encode (cs : List Char) : List UInt8 := cs.flatMap String.utf8EncodeChar

/-- Whether a byte continues a sequence that an earlier one began (`_is_continuation`). -/
def isContinuation (b : UInt8) : Bool := b &&& 0xC0 == 0x80

/-- The number of bytes in the sequence that starts with `lead` (`_utf8_width`). -/
def width (lead : UInt8) : Nat :=
  if lead ≤ 0x7F then 1
  else if lead ≤ 0xDF then 2
  else if lead ≤ 0xEF then 3
  else 4

/-- The start and end of the scalar at `index`, where `offset` bytes came before. -/
def spanFrom (offset : Nat) : List UInt8 → Nat → Option (Nat × Nat)
  | [], _ => none
  | b :: rest, index =>
    if isContinuation b then spanFrom (offset + 1) rest index
    else if index = 0 then some (offset, offset + width b)
    else spanFrom (offset + 1) rest (index - 1)

/-- The byte range `[start, stop)` of the scalar at `index` (`StringValue._byte_span`). -/
def span? (bytes : List UInt8) (index : Nat) : Option (Nat × Nat) := spanFrom 0 bytes index

/-- The scalars of `bytes`, where `owed` more bytes complete the one whose bits so far are
`code`. -/
def decodeFrom : (owed code : Nat) → List UInt8 → List Char
  | _, _, [] => []
  | 0, _, b :: rest =>
    if b ≤ 0x7F then Char.ofNat b.toNat :: decodeFrom 0 0 rest
    else if b ≤ 0xDF then decodeFrom 1 (b.toNat % 32) rest
    else if b ≤ 0xEF then decodeFrom 2 (b.toNat % 16) rest
    else decodeFrom 3 (b.toNat % 8) rest
  | 1, code, b :: rest => Char.ofNat (code * 64 + b.toNat % 64) :: decodeFrom 0 0 rest
  | owed + 2, code, b :: rest => decodeFrom (owed + 1) (code * 64 + b.toNat % 64) rest

/-- The scalar values that `bytes` encode. -/
def decode (bytes : List UInt8) : List Char := decodeFrom 0 0 bytes

theorem encode_nil : encode [] = [] := rfl

theorem encode_cons (c : Char) (cs : List Char) :
    encode (c :: cs) = String.utf8EncodeChar c ++ encode cs := rfl

theorem encode_append (as bs : List Char) : encode (as ++ bs) = encode as ++ encode bs :=
  List.flatMap_append

/-- A byte below 256 is its own number. -/
theorem toNat_ofNat_of_lt {n : Nat} (h : n < 256) : (UInt8.ofNat n).toNat = n := by
  simp only [UInt8.toNat_ofNat', Nat.reducePow]
  omega

theorem ofNat_le_iff {n m : Nat} (hn : n < 256) (hm : m < 256) :
    UInt8.ofNat n ≤ UInt8.ofNat m ↔ n ≤ m := by
  rw [UInt8.le_iff_toNat_le, toNat_ofNat_of_lt hn, toNat_ofNat_of_lt hm]

/-- The four shapes of an encoded scalar: its number in base 64 behind the bits of the lead. -/
theorem utf8EncodeChar_cases (c : Char) :
    (c.toNat ≤ 0x7F ∧ String.utf8EncodeChar c = [UInt8.ofNat c.toNat]) ∨
    (∃ a b, a < 32 ∧ b < 64 ∧ 0x7F < c.toNat ∧ c.toNat = a * 64 + b ∧
      String.utf8EncodeChar c = [UInt8.ofNat (192 + a), UInt8.ofNat (128 + b)]) ∨
    (∃ a b d, a < 16 ∧ b < 64 ∧ d < 64 ∧ 0x7FF < c.toNat ∧ c.toNat = (a * 64 + b) * 64 + d ∧
      String.utf8EncodeChar c =
        [UInt8.ofNat (224 + a), UInt8.ofNat (128 + b), UInt8.ofNat (128 + d)]) ∨
    (∃ a b d e, a < 8 ∧ b < 64 ∧ d < 64 ∧ e < 64 ∧ 0xFFFF < c.toNat ∧
      c.toNat = ((a * 64 + b) * 64 + d) * 64 + e ∧
      String.utf8EncodeChar c =
        [UInt8.ofNat (240 + a), UInt8.ofNat (128 + b), UInt8.ofNat (128 + d),
          UInt8.ofNat (128 + e)]) := by
  have hc : c.val.toNat = c.toNat := rfl
  have hlt : c.toNat < 0x110000 := by
    rcases c.valid with h | h <;> omega
  unfold String.utf8EncodeChar
  simp only [hc]
  split
  · exact .inl ⟨by assumption, rfl⟩
  · split
    · refine .inr (.inl ⟨c.toNat / 64, c.toNat % 64, by omega, by omega, by omega, by omega, ?_⟩)
      rw [show c.toNat / 64 % 32 + 192 = 192 + c.toNat / 64 by omega, Nat.add_comm 128]
    · split
      · refine .inr (.inr (.inl ⟨c.toNat / 4096, c.toNat / 64 % 64, c.toNat % 64,
          by omega, by omega, by omega, by omega, by omega, ?_⟩))
        rw [show c.toNat / 4096 % 16 + 224 = 224 + c.toNat / 4096 by omega, Nat.add_comm 128,
          Nat.add_comm 128]
      · refine .inr (.inr (.inr ⟨c.toNat / 262144, c.toNat / 4096 % 64, c.toNat / 64 % 64,
          c.toNat % 64, by omega, by omega, by omega, by omega, by omega, by omega, ?_⟩))
        rw [show c.toNat / 262144 % 8 + 240 = 240 + c.toNat / 262144 by omega, Nat.add_comm 128,
          Nat.add_comm 128, Nat.add_comm 128]

theorem decodeFrom_char_append (c : Char) (rest : List UInt8) :
    decodeFrom 0 0 (String.utf8EncodeChar c ++ rest) = c :: decodeFrom 0 0 rest := by
  have le : ∀ {n m : Nat}, n < 256 → m < 256 → n ≤ m → UInt8.ofNat n ≤ UInt8.ofNat m :=
    fun hn hm h => (ofNat_le_iff hn hm).mpr h
  have gt : ∀ {n m : Nat}, n < 256 → m < 256 → m < n → ¬ UInt8.ofNat n ≤ UInt8.ofNat m :=
    fun hn hm h => by rw [ofNat_le_iff hn hm]; omega
  rcases utf8EncodeChar_cases c with ⟨h, e⟩ | ⟨a, b, ha, hb, h, hn, e⟩ |
    ⟨a, b, d, ha, hb, hd, h, hn, e⟩ | ⟨a, b, d, f, ha, hb, hd, hf, h, hn, e⟩ <;>
    rw [e, List.cons_append, decodeFrom]
  · have h1 : UInt8.ofNat c.toNat ≤ 0x7F := le (m := 0x7F) (by omega) (by decide) h
    rw [if_pos h1, toNat_ofNat_of_lt (by omega), Char.ofNat_toNat]
    rfl
  · have h1 : ¬ UInt8.ofNat (192 + a) ≤ 0x7F := gt (m := 0x7F) (by omega) (by decide) (by omega)
    have h2 : UInt8.ofNat (192 + a) ≤ 0xDF := le (m := 0xDF) (by omega) (by decide) (by omega)
    rw [if_neg h1, if_pos h2, List.cons_append, decodeFrom, toNat_ofNat_of_lt (by omega),
      toNat_ofNat_of_lt (by omega),
      show (192 + a) % 32 * 64 + (128 + b) % 64 = c.toNat by omega, Char.ofNat_toNat]
    rfl
  · have h1 : ¬ UInt8.ofNat (224 + a) ≤ 0x7F := gt (m := 0x7F) (by omega) (by decide) (by omega)
    have h2 : ¬ UInt8.ofNat (224 + a) ≤ 0xDF := gt (m := 0xDF) (by omega) (by decide) (by omega)
    have h3 : UInt8.ofNat (224 + a) ≤ 0xEF := le (m := 0xEF) (by omega) (by decide) (by omega)
    rw [if_neg h1, if_neg h2, if_pos h3, List.cons_append, decodeFrom, List.cons_append,
      decodeFrom, toNat_ofNat_of_lt (by omega), toNat_ofNat_of_lt (by omega),
      toNat_ofNat_of_lt (by omega),
      show ((224 + a) % 16 * 64 + (128 + b) % 64) * 64 + (128 + d) % 64 = c.toNat by omega,
      Char.ofNat_toNat]
    rfl
  · have h1 : ¬ UInt8.ofNat (240 + a) ≤ 0x7F := gt (m := 0x7F) (by omega) (by decide) (by omega)
    have h2 : ¬ UInt8.ofNat (240 + a) ≤ 0xDF := gt (m := 0xDF) (by omega) (by decide) (by omega)
    have h3 : ¬ UInt8.ofNat (240 + a) ≤ 0xEF := gt (m := 0xEF) (by omega) (by decide) (by omega)
    rw [if_neg h1, if_neg h2, if_neg h3, List.cons_append, decodeFrom, List.cons_append,
      decodeFrom, List.cons_append, decodeFrom, toNat_ofNat_of_lt (by omega),
      toNat_ofNat_of_lt (by omega), toNat_ofNat_of_lt (by omega), toNat_ofNat_of_lt (by omega),
      show (((240 + a) % 8 * 64 + (128 + b) % 64) * 64 + (128 + d) % 64) * 64 + (128 + f) % 64 =
        c.toNat by omega,
      Char.ofNat_toNat]
    rfl

/-- **Reading gives back what was encoded.** -/
theorem decode_encode (cs : List Char) : decode (encode cs) = cs := by
  induction cs with
  | nil => rfl
  | cons c cs ih =>
    rw [encode_cons, decode, decodeFrom_char_append]
    exact congrArg (c :: ·) ih

theorem encode_injective {as bs : List Char} (h : encode as = encode bs) : as = bs := by
  rw [← decode_encode as, h, decode_encode]

/-- Every byte from 128 to 191 continues a sequence. -/
theorem isContinuation_tail : ∀ b : Fin 64, isContinuation (UInt8.ofNat (128 + b)) = true := by
  decide

theorem isContinuation_ascii : ∀ a : Fin 128, isContinuation (UInt8.ofNat a) = false := by
  decide

theorem isContinuation_lead : ∀ a : Fin 64, isContinuation (UInt8.ofNat (192 + a)) = false := by
  decide

theorem width_ascii : ∀ a : Fin 128, width (UInt8.ofNat a) = 1 := by decide

theorem width_two : ∀ a : Fin 32, width (UInt8.ofNat (192 + a)) = 2 := by decide

theorem width_three : ∀ a : Fin 16, width (UInt8.ofNat (224 + a)) = 3 := by decide

theorem width_four : ∀ a : Fin 8, width (UInt8.ofNat (240 + a)) = 4 := by decide

/-- An encoded scalar is one lead byte, which tells its length, and continuation bytes. -/
theorem utf8EncodeChar_shape (c : Char) :
    ∃ lead tail, String.utf8EncodeChar c = lead :: tail ∧ isContinuation lead = false ∧
      (∀ b ∈ tail, isContinuation b = true) ∧
      width lead = (String.utf8EncodeChar c).length := by
  rcases utf8EncodeChar_cases c with ⟨h, e⟩ | ⟨a, b, ha, hb, h, hn, e⟩ |
    ⟨a, b, d, ha, hb, hd, h, hn, e⟩ | ⟨a, b, d, f, ha, hb, hd, hf, h, hn, e⟩ <;>
    refine ⟨_, _, e, ?_, ?_, ?_⟩
  · exact isContinuation_ascii ⟨c.toNat, by omega⟩
  · simp
  · rw [e]; exact width_ascii ⟨c.toNat, by omega⟩
  · exact isContinuation_lead ⟨a, by omega⟩
  · exact List.forall_mem_cons.mpr ⟨isContinuation_tail ⟨b, hb⟩, by simp⟩
  · rw [e]; exact width_two ⟨a, ha⟩
  · have := isContinuation_lead ⟨32 + a, by omega⟩
    simpa [← Nat.add_assoc] using this
  · exact List.forall_mem_cons.mpr ⟨isContinuation_tail ⟨b, hb⟩,
      List.forall_mem_cons.mpr ⟨isContinuation_tail ⟨d, hd⟩, by simp⟩⟩
  · rw [e]; exact width_three ⟨a, ha⟩
  · have := isContinuation_lead ⟨48 + a, by omega⟩
    simpa [← Nat.add_assoc] using this
  · exact List.forall_mem_cons.mpr ⟨isContinuation_tail ⟨b, hb⟩,
      List.forall_mem_cons.mpr ⟨isContinuation_tail ⟨d, hd⟩,
        List.forall_mem_cons.mpr ⟨isContinuation_tail ⟨f, hf⟩, by simp⟩⟩⟩
  · rw [e]; exact width_four ⟨a, ha⟩

theorem spanFrom_continuations (offset : Nat) (tail rest : List UInt8) (index : Nat)
    (h : ∀ b ∈ tail, isContinuation b = true) :
    spanFrom offset (tail ++ rest) index = spanFrom (offset + tail.length) rest index := by
  induction tail generalizing offset with
  | nil => rfl
  | cons b tail ih =>
    rw [List.cons_append, spanFrom, if_pos (h b List.mem_cons_self),
      ih _ fun x hx => h x (List.mem_cons_of_mem _ hx), List.length_cons]
    congr 1
    omega

theorem spanFrom_encode (cs : List Char) (offset index : Nat) :
    spanFrom offset (encode cs) index =
      if index < cs.length then
        some (offset + (encode (cs.take index)).length,
          offset + (encode (cs.take (index + 1))).length)
      else none := by
  induction cs generalizing offset index with
  | nil => simp [encode, spanFrom]
  | cons c cs ih =>
    obtain ⟨lead, tail, e, hlead, htail, hwidth⟩ := utf8EncodeChar_shape c
    have hlen : (String.utf8EncodeChar c).length = tail.length + 1 := by rw [e]; rfl
    rw [encode_cons, e, List.cons_append, spanFrom, hlead]
    cases index with
    | zero => simp [encode, hwidth]
    | succ index =>
      simp only [Bool.false_eq_true, if_false, Nat.add_one_ne_zero, Nat.add_sub_cancel]
      rw [spanFrom_continuations _ _ _ _ htail, ih]
      simp only [List.length_cons, List.take_succ_cons, encode_cons, List.length_append, hlen,
        Nat.add_lt_add_iff_right]
      split
      · rw [show offset + 1 + tail.length = offset + (tail.length + 1) by omega]
        simp only [Nat.add_assoc]
      · rfl

/-- **The span of an index in an encoding.** -/
theorem span?_encode (cs : List Char) (index : Nat) :
    span? (encode cs) index =
      if index < cs.length then
        some ((encode (cs.take index)).length, (encode (cs.take (index + 1))).length)
      else none := by
  simp [span?, spanFrom_encode]

theorem take_encode_take (cs : List Char) (index : Nat) :
    (encode cs).take (encode (cs.take index)).length = encode (cs.take index) := by
  conv => lhs; arg 2; rw [← List.take_append_drop index cs, encode_append]
  exact List.take_left

theorem drop_encode_take (cs : List Char) (index : Nat) :
    (encode cs).drop (encode (cs.take index)).length = encode (cs.drop index) := by
  conv => lhs; arg 2; rw [← List.take_append_drop index cs, encode_append]
  exact List.drop_left

end ScalarScript.Utf8
