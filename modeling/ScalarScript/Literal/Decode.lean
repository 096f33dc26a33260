import ScalarScript.Literal.Escape
import ScalarScript.Value.Operand

/-!
# Decoding literals

Model of `decode_literal`, `decode_string` and `decode_char`, with `_consume_hex`.

The raw text of a literal, without its quotes, is read as a sequence of units. A unit is one code
point other than the active quote, a backslash and a surrogate; or a backslash with the quote; or
a backslash with a key of the table of escapes and the digits that the key asks for. Each unit
stands for one code point. The first unit that cannot be read fails the whole literal.

* `unit` reads the first unit, `decodeFrom` all of them.
* An escaped quote stands for the quote itself, whatever it is, and is looked at before the table:
  with the quote `n`, `\n` is the letter. So a literal between quotes that are a surrogate may
  decode to a surrogate; between scalar quotes it decodes to scalars only (`isScalar_of_decode`).

Results: `unit_length_le`, `decodeFrom_nil`, `decodeFrom_cons`, `isScalar_of_decode`,
`text_decodeScalars`.
-/

namespace ScalarScript.Literal

/-- A unit that cannot be read: the kind of failure and the text at fault. -/
structure BadUnit where
  kind : DecodeError.Kind
  sequence : Text
deriving DecidableEq, Repr

/-- The digits of the hexadecimal escape `\key`, taken from the text behind the key
(`_consume_hex`). -/
def hexUnit (key : CodePoint) (width : Nat) (behind : Text) : Except BadUnit (CodePoint × Nat) :=
  match (behind.take width).findIdx? fun p => p.hexDigit?.isNone with
  | some i => .error ⟨.malformedEscape, .scalar '\\' :: key :: behind.take (i + 1)⟩
  | none =>
    if (behind.take width).length < width then
      .error ⟨.truncatedEscape, .scalar '\\' :: key :: behind⟩
    else match (Text.hexValue? (behind.take width)).bind CodePoint.ofNat? with
      | some (.scalar c) => .ok (.scalar c, 2 + width)
      | _ => .error ⟨.invalidCodePoint, .scalar '\\' :: key :: behind.take width⟩

/-- The first unit of the literal `first :: behind`: what it stands for and its length. -/
def unit (quote first : CodePoint) (behind : Text) : Except BadUnit (CodePoint × Nat) :=
  if first = quote then .error ⟨.unescapedDelimiter, [first]⟩
  else if !first.is '\\' then
    if first.isScalar then .ok (first, 1) else .error ⟨.invalidCodePoint, [first]⟩
  else match behind with
    | [] => .error ⟨.truncatedEscape, [first]⟩
    | key :: digits =>
      if key = quote then .ok (quote, 2)
      else match directive? key with
        | none => .error ⟨.malformedEscape, [first, key]⟩
        | some (.scalar c) => .ok (.scalar c, 2)
        | some (.hex width) => hexUnit key width digits

/-- The code points of a literal whose first `offset` code points have been read. -/
def decodeFrom (quote : CodePoint) (offset : Nat) : Text → Except DecodeError Text
  | [] => .ok []
  | first :: behind =>
    match unit quote first behind with
    | .error bad => .error ⟨bad.kind, offset, bad.sequence⟩
    | .ok (value, length) =>
      (decodeFrom quote (offset + length) (behind.drop (length - 1))).map (value :: ·)
termination_by raw => raw.length
decreasing_by
  simp only [List.length_drop, List.length_cons]
  omega

/-- The code points that a literal between the given quotes stands for. -/
def decode (quote : CodePoint) (raw : Text) : Except DecodeError Text := decodeFrom quote 0 raw

/-- The scalars of a literal between scalar quotes. Such a literal decodes to scalars only, so
none is left out. -/
def decodeScalars (quote : Char) (raw : Text) : Except DecodeError (List Char) :=
  (decode (.scalar quote) raw).map Text.chars

/-- The content of a character literal (`decode_char`): exactly one scalar. -/
def decodeChar (raw : Text) : Except DecodeError Char :=
  match decodeScalars '\'' raw with
  | .error e => .error e
  | .ok [c] => .ok c
  | .ok _ => .error ⟨.malformedChar, 0, raw⟩

/-- The content of a string literal. -/
def decodeString (raw : Text) : Except DecodeError ScalarString :=
  (decodeScalars '"' raw).map ScalarString.ofScalars

/-- Whether a text can serve as a quote: one code point, and not the backslash. -/
def quote? : Text → Option CodePoint
  | [p] => if p.is '\\' then none else some p
  | _ => none

/-- Why a literal between arbitrary quotes is no string. -/
inductive QuotedError where
  | invalidQuote (quote : Text)
  | decode (e : DecodeError)
  | string (e : StringFault)

/-- The code points of a literal between quotes given as text (`decode_literal`). -/
def decodeQuoted (quote raw : Text) : Except QuotedError Text :=
  match quote? quote with
  | none => .error (.invalidQuote quote)
  | some q => (decode q raw).mapError .decode

/-- The string of a literal between quotes given as text (`decode_string`). -/
def decodeQuotedString (quote raw : Text) : Except QuotedError ScalarString := do
  (ScalarString.ofHostText (← decodeQuoted quote raw)).mapError .string

theorem decodeFrom_nil (quote : CodePoint) (offset : Nat) : decodeFrom quote offset [] = .ok [] :=
  by rw [decodeFrom]

theorem decodeFrom_cons (quote : CodePoint) (offset : Nat) (first : CodePoint) (behind : Text) :
    decodeFrom quote offset (first :: behind) =
      match unit quote first behind with
      | .error bad => .error ⟨bad.kind, offset, bad.sequence⟩
      | .ok (value, length) =>
        (decodeFrom quote (offset + length) (behind.drop (length - 1))).map (value :: ·) := by
  rw [decodeFrom]

theorem hexUnit_length {key : CodePoint} {width : Nat} {behind : Text} {p : CodePoint} {n : Nat}
    (h : hexUnit key width behind = .ok (p, n)) : n = 2 + width ∧ width ≤ behind.length := by
  unfold hexUnit at h
  split at h
  · cases h
  · split at h
    · cases h
    · next hw =>
      have hle : width ≤ behind.length := by
        rw [List.length_take] at hw
        omega
      split at h
      · cases h
        exact ⟨rfl, hle⟩
      · cases h

/-- A unit takes at least one code point, and no more than there are. -/
theorem unit_length_le {quote first : CodePoint} {behind : Text} {p : CodePoint} {n : Nat}
    (h : unit quote first behind = .ok (p, n)) : 1 ≤ n ∧ n ≤ behind.length + 1 := by
  unfold unit at h
  split at h
  · cases h
  · split at h
    · split at h
      · cases h
        omega
      · cases h
    · cases behind with
      | nil => cases h
      | cons key digits =>
        simp only [List.length_cons] at h ⊢
        split at h
        · cases h
          omega
        · split at h
          · cases h
          · cases h
            omega
          · have := hexUnit_length h
            omega

/-- A unit of a literal between scalar quotes is a scalar. -/
theorem isScalar_of_unit {quote : Char} {first : CodePoint} {behind : Text} {p : CodePoint}
    {length : Nat} (h : unit (.scalar quote) first behind = .ok (p, length)) :
    p.isScalar = true := by
  unfold unit at h
  split at h
  · cases h
  · split at h
    · split at h
      · next hs =>
        cases h
        exact hs
      · cases h
    · split at h
      · cases h
      · split at h
        · cases h
          rfl
        · split at h
          · cases h
          · cases h
            rfl
          · unfold hexUnit at h
            split at h
            · cases h
            · split at h
              · cases h
              · split at h
                · cases h
                  rfl
                · cases h

/-- **A literal between scalar quotes decodes to scalars.** -/
theorem isScalar_of_decode {quote : Char} {offset : Nat} {raw xs : Text}
    (h : decodeFrom (.scalar quote) offset raw = .ok xs) : ∀ p ∈ xs, p.isScalar = true := by
  fun_induction decodeFrom (.scalar quote) offset raw generalizing xs with
  | case1 => cases h; simp
  | case2 => cases h
  | case3 offset first behind value length hu ih =>
    cases hr : decodeFrom (.scalar quote) (offset + length) (behind.drop (length - 1)) with
    | error e => rw [hr] at h; cases h
    | ok ys =>
      rw [hr] at h
      cases h
      simp only [List.mem_cons, forall_eq_or_imp]
      exact ⟨isScalar_of_unit hu, ih hr⟩

theorem text_decodeScalars {quote : Char} {raw : Text} {cs : List Char} :
    decodeScalars quote raw = .ok cs ↔ decode (.scalar quote) raw = .ok (Text.ofChars cs) := by
  unfold decodeScalars
  cases h : decode (.scalar quote) raw with
  | error e => simp [Except.map]
  | ok xs =>
    have hs := Text.ofChars_chars (isScalar_of_decode h)
    simp only [Except.map, Except.ok.injEq]
    constructor
    · rintro rfl
      exact hs.symm
    · rintro rfl
      exact Text.chars_ofChars cs

end ScalarScript.Literal
