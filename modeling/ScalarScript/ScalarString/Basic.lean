import ScalarScript.Text.CodePoint
import ScalarScript.ScalarString.Utf8

/-!
# Script strings

Model of `StringValue`: its storage, views, indexing, concatenation and comparison, where operands
are strings and an index is a number. `Value/Operand` has its methods with any operands.

A `ScalarString` is an immutable sequence of Unicode scalar values, stored as UTF-8 bytes beside
the number of scalars. Every operation counts in scalars; bytes are found by `Utf8.span?`, so an
index never costs a decoding of the whole string.

The view is `scalars`. Results:
* `bytes_eq`, `length_eq`: the bytes are the encoding of the view, and the count is its length.
* `ext_scalars`, `ext_bytes`: a string is determined by its view, and by its bytes.
* `scalars_ofScalars`, `scalars_append`, `scalar?_eq`, `replace?_eq_some`, `replace?_eq_none`: what
  each operation does to the view.
* `ofText_eq_ok_iff`, `ofText_eq_error_iff`: host text becomes a string unless it holds a
  surrogate, and then the first one is reported.
-/

namespace ScalarScript

/-- A script string (`StringValue`): UTF-8 bytes and the number of scalars they encode. -/
structure ScalarString where
  bytes : List UInt8
  length : Nat
  encodes : ∃ cs : List Char, bytes = Utf8.encode cs ∧ length = cs.length
deriving DecidableEq

namespace ScalarString

/-- The scalar values in order (`StringValue.scalars`). -/
def scalars (s : ScalarString) : List Char := Utf8.decode s.bytes

/-- The string as host text (`StringValue.text`). -/
def text (s : ScalarString) : Text := Text.ofChars s.scalars

theorem bytes_eq (s : ScalarString) : s.bytes = Utf8.encode s.scalars := by
  obtain ⟨cs, hb, -⟩ := s.encodes
  rw [scalars, hb, Utf8.decode_encode]

theorem length_eq (s : ScalarString) : s.length = s.scalars.length := by
  obtain ⟨cs, hb, hl⟩ := s.encodes
  rw [scalars, hb, Utf8.decode_encode, hl]

theorem ext_scalars {s t : ScalarString} (h : s.scalars = t.scalars) : s = t := by
  have hb : s.bytes = t.bytes := by rw [bytes_eq, bytes_eq, h]
  have hl : s.length = t.length := by rw [length_eq, length_eq, h]
  cases s
  cases t
  simp_all

theorem ext_bytes {s t : ScalarString} (h : s.bytes = t.bytes) : s = t :=
  ext_scalars (by rw [scalars, scalars, h])

/-! ## Building -/

/-- The string of a list of scalar values (`StringValue.from_scalars`). -/
def ofScalars (cs : List Char) : ScalarString := ⟨Utf8.encode cs, cs.length, cs, rfl, rfl⟩

instance : Inhabited ScalarString := ⟨ofScalars []⟩

@[simp] theorem scalars_ofScalars (cs : List Char) : (ofScalars cs).scalars = cs :=
  Utf8.decode_encode cs

@[simp] theorem length_ofScalars (cs : List Char) : (ofScalars cs).length = cs.length := rfl

theorem ofScalars_scalars (s : ScalarString) : ofScalars s.scalars = s :=
  ext_scalars (scalars_ofScalars _)

/-- The string of a host text (`StringValue`); a text with a surrogate has none, and its first one
is reported. -/
def ofText (t : Text) : Except CodePoint ScalarString :=
  match t.firstSurrogate? with
  | some p => .error p
  | none => .ok (ofScalars t.chars)

theorem ofText_eq_error_iff {t : Text} {p : CodePoint} :
    ofText t = .error p ↔ t.firstSurrogate? = some p := by
  unfold ofText
  split <;> simp_all

theorem ofText_eq_ok_iff {t : Text} {s : ScalarString} : ofText t = .ok s ↔ s.text = t := by
  unfold ofText
  split
  · next p hp =>
    simp only [reduceCtorEq, false_iff]
    rintro rfl
    have hm := List.mem_of_find?_eq_some hp
    have hs := List.find?_some hp
    obtain ⟨c, -, rfl⟩ := List.mem_map.mp hm
    simp [CodePoint.isScalar, CodePoint.char?] at hs
  · next hn =>
    have hall : ∀ c ∈ t, c.isScalar = true := by
      simpa [Text.firstSurrogate?, List.find?_eq_none] using hn
    constructor
    · rintro ⟨⟩
      rw [text, scalars_ofScalars, Text.ofChars_chars hall]
    · rintro rfl
      rw [text, Text.chars_ofChars, ofScalars_scalars]

theorem ofText_text (s : ScalarString) : ofText s.text = .ok s := ofText_eq_ok_iff.mpr rfl

/-! ## Joining -/

/-- One string after another (`StringValue.concat`). -/
def append (a b : ScalarString) : ScalarString where
  bytes := a.bytes ++ b.bytes
  length := a.length + b.length
  encodes := ⟨a.scalars ++ b.scalars, by rw [Utf8.encode_append, ← bytes_eq, ← bytes_eq],
    by rw [List.length_append, ← length_eq, ← length_eq]⟩

instance : Append ScalarString := ⟨append⟩

@[simp] theorem length_append (a b : ScalarString) : (a ++ b).length = a.length + b.length := rfl

@[simp] theorem bytes_append (a b : ScalarString) : (a ++ b).bytes = a.bytes ++ b.bytes := rfl

@[simp] theorem scalars_append (a b : ScalarString) :
    (a ++ b).scalars = a.scalars ++ b.scalars := by
  rw [scalars, bytes_append, bytes_eq a, bytes_eq b, ← Utf8.encode_append, Utf8.decode_encode]

/-! ## Indexing -/

/-- The scalar whose bytes are at an index (`StringValue.scalar_at`). -/
def scalar? (s : ScalarString) (index : Nat) : Option Char :=
  (Utf8.span? s.bytes index).bind fun span =>
    (Utf8.decode ((s.bytes.take span.2).drop span.1)).head?

theorem scalar?_eq (s : ScalarString) (index : Nat) : s.scalar? index = s.scalars[index]? := by
  unfold scalar?
  rw [bytes_eq s, Utf8.span?_encode]
  generalize s.scalars = cs
  split
  · next h =>
    rw [Option.bind_some, Utf8.take_encode_take]
    have : Utf8.encode (cs.take (index + 1)) =
        Utf8.encode (cs.take index) ++ Utf8.encode [cs[index]] := by
      rw [← Utf8.encode_append, List.take_append_getElem h]
    simp only [this, List.drop_left, Utf8.decode_encode]
    rw [List.getElem?_eq_getElem h]
    rfl
  · next h => rw [Option.bind_none, List.getElem?_eq_none (by omega)]

/-- The bytes before a span, those of `c`, and the bytes after the span. -/
def splice (bytes : List UInt8) (span : Nat × Nat) (c : Char) : List UInt8 :=
  bytes.take span.1 ++ String.utf8EncodeChar c ++ bytes.drop span.2

theorem splice_encode {cs : List Char} {index : Nat} {span : Nat × Nat} (c : Char)
    (h : Utf8.span? (Utf8.encode cs) index = some span) :
    index < cs.length ∧ splice (Utf8.encode cs) span c = Utf8.encode (cs.set index c) := by
  rw [Utf8.span?_encode] at h
  split at h
  · next hi =>
    cases h
    refine ⟨hi, ?_⟩
    unfold splice
    rw [Utf8.take_encode_take, Utf8.drop_encode_take, List.set_eq_take_append_cons_drop,
      if_pos hi, Utf8.encode_append, Utf8.encode_cons, List.append_assoc]
  · cases h

/-- The string with the scalar at `index` replaced (`StringValue.with_replaced_at`); the new one may
be wider or narrower. -/
def replace? (s : ScalarString) (index : Nat) (c : Char) : Option ScalarString :=
  match h : Utf8.span? s.bytes index with
  | none => none
  | some span => some
    { bytes := splice s.bytes span c
      length := s.length
      encodes := by
        rw [bytes_eq s] at h ⊢
        exact ⟨s.scalars.set index c, (splice_encode c h).2, by rw [List.length_set, length_eq]⟩ }

theorem replace?_eq_some {s : ScalarString} {index : Nat} (c : Char) (h : index < s.length) :
    s.replace? index c = some (ofScalars (s.scalars.set index c)) := by
  unfold replace?
  split
  · next hn =>
    rw [bytes_eq s, Utf8.span?_encode, if_pos (length_eq s ▸ h)] at hn
    cases hn
  · next span hs =>
    rw [bytes_eq s] at hs
    refine congrArg some (ext_bytes ?_)
    simp only [ofScalars]
    rw [← (splice_encode c hs).2, ← bytes_eq s]

theorem replace?_eq_none {s : ScalarString} {index : Nat} (c : Char) (h : s.length ≤ index) :
    s.replace? index c = none := by
  unfold replace?
  split
  · rfl
  · next span hs =>
    rw [bytes_eq s, Utf8.span?_encode, if_neg (by rw [← length_eq]; omega)] at hs
    cases hs

/-! ## Order -/

/-- The order of two lists of scalars at the first place where both have one and they differ. -/
def firstDifference (as bs : List Char) : Ordering :=
  ((as.zip bs).findSome? fun p =>
    if p.1 = p.2 then none else some (if p.1 < p.2 then .lt else .gt)).getD .eq

/-- Lexicographic order over scalars (`StringValue.compare`); a strict prefix comes first. Equal
bytes settle it at once. -/
def compare (a b : ScalarString) : Ordering :=
  if a.bytes = b.bytes then .eq
  else (firstDifference a.scalars b.scalars).then (Ord.compare a.length b.length)

/-- Strings are hashed by their bytes. -/
instance : Hashable ScalarString := ⟨fun s => hash s.bytes⟩

end ScalarString

end ScalarScript
