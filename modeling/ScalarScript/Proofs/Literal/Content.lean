import Mathlib.Control.Monad.Basic
import ScalarScript.Proofs.Token.Line

/-!
# Where a literal ends

Scanner and decoder walk a literal in different steps: behind a backslash the scanner passes one
code point, whatever it is, and the decoder the key and all digits of the escape. They agree on the
end of the literal because the digits of an escape are neither quotes nor backslashes.

`Content quote raw` is what both have in common: `raw` consists of pairs that a backslash starts,
and of code points that are neither a backslash nor the quote.

Results:
* `splitLiteral_eq_some_iff`: the scanner stops behind a content, and nowhere else.
* `content_unit_iff`: a unit of the decoder takes a content off the front of a content.
* `not_meetsEnd_of_decodeFrom`, `content_of_decodeFrom`: a content never runs into the end of the
  literal, and every text that can be decoded is a content.
* **`literal_ends_where_decoded`**: scanner and decoder agree on where every literal ends.
-/

namespace ScalarScript.Literal

variable {quote : Char} {p first : CodePoint} {raw rest behind : Text}

/-- The texts between an opening quote and the first quote that no backslash takes with it. -/
inductive Content (quote : Char) : Text → Prop
  | nil : Content quote []
  | plain {p : CodePoint} {raw : Text} (hp : p ≠ .scalar '\\') (hq : p ≠ .scalar quote)
    (h : Content quote raw) : Content quote (p :: raw)
  | pair {p : CodePoint} {raw : Text} (h : Content quote raw) :
    Content quote (.scalar '\\' :: p :: raw)

/-! ## The scanner -/

theorem splitLiteral_pair : splitLiteral quote (.scalar '\\' :: p :: rest) =
    (splitLiteral quote rest).map fun parts => (.scalar '\\' :: p :: parts.1, parts.2) := by
  rw [splitLiteral, if_pos (by simp [CodePoint.is])]

theorem splitLiteral_plain (hp : p ≠ .scalar '\\') (hq : p ≠ .scalar quote) :
    splitLiteral quote (p :: rest) =
      (splitLiteral quote rest).map fun parts => (p :: parts.1, parts.2) := by
  rw [splitLiteral.eq_def]
  simp only
  rw [if_neg (by simpa [CodePoint.is] using hp), if_neg (by simpa [CodePoint.is] using hq)]

theorem splitLiteral_quote (hq : quote ≠ '\\') :
    splitLiteral quote (.scalar quote :: rest) = some ([], rest) := by
  rw [splitLiteral.eq_def]
  simp only
  rw [if_neg (by simpa [CodePoint.is] using hq), if_pos (by simp [CodePoint.is])]

theorem content_of_splitLiteral {t : Text} (h : splitLiteral quote t = some (raw, rest)) :
    Content quote raw := by
  fun_induction splitLiteral quote t generalizing raw with
  | case1 => cases h
  | case2 => cases h
  | case3 p hp q t ih =>
    obtain ⟨⟨a, b⟩, hs, heq⟩ := Option.map_eq_some_iff.mp h
    cases heq
    have hb : p = .scalar '\\' := CodePoint.eq_of_is hp
    rw [hb]
    exact .pair (ih hs)
  | case4 p t hp hq =>
    cases h
    exact .nil
  | case5 p t hp hq ih =>
    obtain ⟨⟨a, b⟩, hs, heq⟩ := Option.map_eq_some_iff.mp h
    cases heq
    exact .plain (by simpa [CodePoint.is] using hp) (by simpa [CodePoint.is] using hq) (ih hs)

/-- The scanner stops at the quote behind a content, and nowhere else. -/
theorem splitLiteral_eq_some_iff (hq : quote ≠ '\\') {t : Text} :
    splitLiteral quote t = some (raw, rest) ↔
      Content quote raw ∧ t = raw ++ .scalar quote :: rest := by
  constructor
  · intro h
    exact ⟨content_of_splitLiteral h, splitLiteral_append h⟩
  · rintro ⟨h, rfl⟩
    induction h with
    | nil => exact splitLiteral_quote hq
    | plain hp hq' _ ih =>
      rw [List.cons_append, splitLiteral_plain hp hq', ih]
      rfl
    | pair _ ih =>
      rw [List.cons_append, List.cons_append, splitLiteral_pair, ih]
      rfl

/-! ## The decoder -/

theorem content_pair_iff : Content quote (.scalar '\\' :: p :: raw) ↔ Content quote raw := by
  constructor
  · intro h
    cases h with
    | plain hp _ _ => exact absurd rfl hp
    | pair h => exact h
  · exact .pair

theorem content_plain_iff (hp : p ≠ .scalar '\\') (hq : p ≠ .scalar quote) :
    Content quote (p :: raw) ↔ Content quote raw := by
  constructor
  · intro h
    cases h with
    | plain _ _ h => exact h
    | pair _ => exact absurd rfl hp
  · exact .plain hp hq

/-- Code points that are neither quotes nor backslashes may stand in front of a content. -/
theorem content_append_iff {digits : Text}
    (hd : ∀ d ∈ digits, d ≠ .scalar '\\' ∧ d ≠ .scalar quote) :
    Content quote (digits ++ raw) ↔ Content quote raw := by
  induction digits with
  | nil => exact Iff.rfl
  | cons d digits ih =>
    have hfirst := hd d List.mem_cons_self
    rw [List.cons_append, content_plain_iff hfirst.1 hfirst.2]
    exact ih fun e he => hd e (List.mem_cons_of_mem _ he)

theorem hexUnit_digits {key : CodePoint} {width n : Nat}
    (h : hexUnit key width behind = .ok (p, n)) :
    n = 2 + width ∧ ∀ d ∈ behind.take width, d.hexDigit?.isSome = true := by
  refine ⟨(hexUnit_length h).1, fun d hd => ?_⟩
  unfold hexUnit at h
  split at h
  · cases h
  · next hnone =>
    have := List.findIdx?_eq_none_iff.mp hnone d hd
    simpa using this

/-- A quote that is no digit of an escape. -/
theorem ne_of_hexDigit? (hd : (CodePoint.scalar quote).hexDigit? = none)
    (h : p.hexDigit?.isSome = true) : p ≠ .scalar '\\' ∧ p ≠ .scalar quote := by
  constructor
  · rintro rfl
    exact absurd h (by decide)
  · rintro rfl
    rw [hd] at h
    cases h

/-- What a unit leaves of a text is a content exactly where the text is one. -/
theorem content_unit_iff (hd : (CodePoint.scalar quote).hexDigit? = none) {n : Nat}
    (h : unit (.scalar quote) first behind = .ok (p, n)) :
    Content quote (first :: behind) ↔ Content quote (behind.drop (n - 1)) := by
  unfold unit at h
  split at h
  · cases h
  · next hne =>
    split at h
    · next hb =>
      have hfirst : first ≠ .scalar '\\' := by simpa [CodePoint.is] using hb
      split at h
      · cases h
        exact content_plain_iff hfirst hne
      · cases h
    · next hb =>
      have hfirst : first = .scalar '\\' := by simpa [CodePoint.is] using hb
      subst hfirst
      cases behind with
      | nil => cases h
      | cons key digits =>
        rw [content_pair_iff]
        simp only at h
        split at h
        · cases h
          rfl
        · split at h
          · cases h
          · cases h
            rfl
          · next width _ =>
            obtain ⟨rfl, hdigits⟩ := hexUnit_digits h
            have hdrop : (key :: digits).drop (2 + width - 1) = digits.drop width := by
              rw [show 2 + width - 1 = width + 1 by omega, List.drop_succ_cons]
            have happend : Content quote (digits.take width ++ digits.drop width) ↔
                Content quote (digits.drop width) :=
              content_append_iff fun d hm => ne_of_hexDigit? hd (hdigits d hm)
            rw [hdrop, ← happend, List.take_append_drop]

/-- Whether a failure is that the literal ends in the wrong place: at a bare quote in it, or behind
a backslash that takes the closing quote with it. -/
def MeetsEnd (kind : DecodeError.Kind) (sequence : Text) : Prop :=
  kind = .unescapedDelimiter ∨ kind = .truncatedEscape ∧ sequence = [.scalar '\\']

theorem not_meetsEnd_of_hexUnit {key : CodePoint} {width : Nat} {bad : BadUnit}
    (h : hexUnit key width behind = .error bad) : ¬ MeetsEnd bad.kind bad.sequence := by
  unfold hexUnit at h
  split at h
  · cases h
    simp [MeetsEnd]
  · split at h
    · cases h
      simp [MeetsEnd]
    · split at h
      · cases h
      · cases h
        simp [MeetsEnd]

theorem not_meetsEnd_of_unit {bad : BadUnit} (hc : Content quote (first :: behind))
    (h : unit (.scalar quote) first behind = .error bad) (hq : quote ≠ '\\') :
    ¬ MeetsEnd bad.kind bad.sequence := by
  unfold unit at h
  split at h
  · next heq =>
    subst heq
    cases hc with
    | plain _ hne _ => exact absurd rfl hne
    | pair _ => exact absurd rfl hq
  · split at h
    · split at h
      · cases h
      · cases h
        simp [MeetsEnd]
    · next hb =>
      have hfirst : first = .scalar '\\' := by simpa [CodePoint.is] using hb
      subst hfirst
      cases hc with
      | plain hne _ _ => exact absurd rfl hne
      | pair _ =>
        simp only at h
        split at h
        · cases h
        · split at h
          · cases h
            simp [MeetsEnd]
          · cases h
          · exact not_meetsEnd_of_hexUnit h

/-- Decoding a content never runs into the end of the literal. -/
theorem not_meetsEnd_of_decodeFrom (hq : quote ≠ '\\')
    (hd : (CodePoint.scalar quote).hexDigit? = none) {offset : Nat} {e : DecodeError}
    (hc : Content quote raw) (h : decodeFrom (.scalar quote) offset raw = .error e) :
    ¬ MeetsEnd e.kind e.sequence := by
  fun_induction decodeFrom (.scalar quote) offset raw with
  | case1 => cases h
  | case2 offset first behind bad hu =>
    cases h
    exact not_meetsEnd_of_unit hc hu hq
  | case3 offset first behind value length hu ih =>
    exact ih ((content_unit_iff hd hu).mp hc) (Except.map_eq_error_iff.mp h)

/-- Every text that can be decoded is a content. -/
theorem content_of_decodeFrom (hd : (CodePoint.scalar quote).hexDigit? = none) {offset : Nat}
    {xs : Text} (h : decodeFrom (.scalar quote) offset raw = .ok xs) : Content quote raw := by
  fun_induction decodeFrom (.scalar quote) offset raw generalizing xs with
  | case1 => exact .nil
  | case2 => cases h
  | case3 offset first behind value length hu ih =>
    obtain ⟨ys, hys, -⟩ := Except.map_eq_ok_iff.mp h
    exact (content_unit_iff hd hu).mpr (ih hys)

/-! ## Tokens -/

theorem splitLiteral_of_decode (hq : quote ≠ '\\')
    (hd : (CodePoint.scalar quote).hexDigit? = none) {xs : Text}
    (h : decode (.scalar quote) raw = .ok xs) :
    splitLiteral quote (raw ++ .scalar quote :: rest) = some (raw, rest) :=
  (splitLiteral_eq_some_iff hq).mpr ⟨content_of_decodeFrom hd h, rfl⟩

/-- A literal is the token that its content decodes to. -/
theorem literalLexeme_eq_ok {decode : Text → Except DecodeError Token.Kind} {kind : Token.Kind}
    (hs : splitLiteral quote behind = some (raw, rest)) (hd : decode raw = .ok kind) :
    literalLexeme quote decode behind = .ok (kind, .scalar quote :: (raw ++ [.scalar quote])) := by
  unfold literalLexeme
  rw [hs]
  simp only
  rw [hd]

/-- A line that starts with a literal: its token, and the tokens behind it. -/
theorem scan_literal {kind : Token.Kind} (hline : CodePoint.scalar '\n' ∉ raw)
    (hrest : CodePoint.scalar '\n' ∉ rest) (hquote : quote = '"' ∨ quote = '\'')
    (h : lexeme (.scalar quote) (raw ++ .scalar quote :: rest) =
      .ok (kind, .scalar quote :: (raw ++ [.scalar quote]))) :
    Tokens.scan (.scalar quote :: (raw ++ .scalar quote :: rest)) =
      (scanLine 1 (raw.length + 3) rest).map fun tokens =>
        ⟨⟨kind, .scalar quote :: (raw ++ [.scalar quote]), ⟨1, 1⟩⟩ :: tokens,
          ⟨1, raw.length + rest.length + 3⟩⟩ := by
  have hsplit : raw ++ .scalar quote :: rest = raw ++ [.scalar quote] ++ rest := by simp
  have hnew : CodePoint.scalar '\n' ∉ .scalar quote :: (raw ++ .scalar quote :: rest) := by
    rcases hquote with rfl | rfl <;> simp [hline, hrest]
  have hblank : (CodePoint.scalar quote).isBlank = false := by
    rcases hquote with rfl | rfl <;> decide
  have hcomment :
      Text.startsWith (.scalar quote :: (raw ++ [.scalar quote] ++ rest)) "//" = false := by
    rcases hquote with rfl | rfl <;> rfl
  rw [Tokens.scan_eq_of_line hnew]
  rw [hsplit] at h ⊢
  rw [scanLine_lexeme hblank hcomment h]
  have hcolumn : 1 + ((raw ++ [CodePoint.scalar quote]).length + 1) = raw.length + 3 := by
    simp only [List.length_append, List.length_singleton]
    omega
  have hstop : (CodePoint.scalar quote :: (raw ++ [.scalar quote] ++ rest)).length + 1 =
      raw.length + rest.length + 3 := by
    simp only [List.length_append, List.length_cons, List.length_nil]
    omega
  rw [hcolumn, hstop]
  cases scanLine 1 (raw.length + 3) rest <;> rfl

theorem lexeme_string {xs : Text} (h : decode (.scalar '"') raw = .ok xs) :
    lexeme (.scalar '"') (raw ++ .scalar '"' :: rest) =
      .ok (.string (.ofScalars xs.chars), .scalar '"' :: (raw ++ [.scalar '"'])) := by
  have hvalue : (decodeString raw).map Token.Kind.string = .ok (.string (.ofScalars xs.chars)) := by
    rw [decodeString, decodeScalars, h]
    rfl
  exact literalLexeme_eq_ok (splitLiteral_of_decode (by decide) (by decide) h) hvalue

theorem lexeme_char {x : CodePoint} {c : Char} (h : decode (.scalar '\'') raw = .ok [x])
    (hc : decodeChar raw = .ok c) :
    lexeme (.scalar '\'') (raw ++ .scalar '\'' :: rest) =
      .ok (.char c, .scalar '\'' :: (raw ++ [.scalar '\''])) := by
  have hvalue : (decodeChar raw).map Token.Kind.char = .ok (.char c) := by
    rw [hc]
    rfl
  exact literalLexeme_eq_ok (splitLiteral_of_decode (by decide) (by decide) h) hvalue

/-- A character literal has a character where it decodes to one scalar. -/
theorem decodeChar_of_decode {x : CodePoint} (h : decode (.scalar '\'') raw = .ok [x]) :
    ∃ c, x = .scalar c ∧ decodeChar raw = .ok c := by
  have hx : x.isScalar = true := isScalar_of_decode h x List.mem_cons_self
  obtain ⟨c, rfl⟩ := CodePoint.isScalar_iff.mp hx
  refine ⟨c, rfl, ?_⟩
  have hs : decodeScalars '\'' raw = .ok [c] := text_decodeScalars.mpr h
  rw [decodeChar, hs]

/-- **Scanner and decoder agree on where every literal ends.** Where the scanner finds a closing
quote, decoding what is in front of it fails neither at a bare quote nor at a lone backslash at the
end. Where a text can be decoded, the scanner stops at the very quote behind it, whatever follows
on the line; and the line starts with one token, which is the text in its quotes and has the value
that it decodes to. -/
theorem literal_ends_where_decoded :
    (∀ (quote : Char) (behind raw rest : Text) (e : DecodeError), quote = '"' ∨ quote = '\'' →
      splitLiteral quote behind = some (raw, rest) → decode (.scalar quote) raw = .error e →
        e.kind ≠ .unescapedDelimiter ∧
          ¬ (e.kind = .truncatedEscape ∧ e.sequence = [.scalar '\\'])) ∧
    (∀ (quote : Char) (raw rest xs : Text), quote = '"' ∨ quote = '\'' →
      decode (.scalar quote) raw = .ok xs →
        splitLiteral quote (raw ++ .scalar quote :: rest) = some (raw, rest)) ∧
    (∀ raw rest xs : Text, CodePoint.scalar '\n' ∉ raw → CodePoint.scalar '\n' ∉ rest →
      decode (.scalar '"') raw = .ok xs →
        ∃ s, decodeString raw = .ok s ∧
          Tokens.scan (.scalar '"' :: (raw ++ .scalar '"' :: rest)) =
            (scanLine 1 (raw.length + 3) rest).map fun tokens =>
              ⟨⟨.string s, .scalar '"' :: (raw ++ [.scalar '"']), ⟨1, 1⟩⟩ :: tokens,
                ⟨1, raw.length + rest.length + 3⟩⟩) ∧
    (∀ (raw rest : Text) (x : CodePoint), CodePoint.scalar '\n' ∉ raw →
      CodePoint.scalar '\n' ∉ rest → decode (.scalar '\'') raw = .ok [x] →
        ∃ c, decodeChar raw = .ok c ∧
          Tokens.scan (.scalar '\'' :: (raw ++ .scalar '\'' :: rest)) =
            (scanLine 1 (raw.length + 3) rest).map fun tokens =>
              ⟨⟨.char c, .scalar '\'' :: (raw ++ [.scalar '\'']), ⟨1, 1⟩⟩ :: tokens,
                ⟨1, raw.length + rest.length + 3⟩⟩) := by
  have hslash : ∀ quote : Char, quote = '"' ∨ quote = '\'' → quote ≠ '\\' := by
    rintro quote (rfl | rfl) <;> decide
  have hdigit : ∀ quote : Char, quote = '"' ∨ quote = '\'' →
      (CodePoint.scalar quote).hexDigit? = none := by
    rintro quote (rfl | rfl) <;> decide
  refine ⟨fun quote behind raw rest e hq hs he => ?_, fun quote raw rest xs hq h => ?_,
    fun raw rest xs hraw hrest h => ?_, fun raw rest x hraw hrest h => ?_⟩
  · have hc : Content quote raw := content_of_splitLiteral hs
    exact not_or.mp (not_meetsEnd_of_decodeFrom (hslash quote hq) (hdigit quote hq) hc he)
  · exact splitLiteral_of_decode (hslash quote hq) (hdigit quote hq) h
  · have hs : decodeString raw = .ok (.ofScalars xs.chars) := by
      rw [decodeString, decodeScalars, h]
      rfl
    exact ⟨_, hs, scan_literal hraw hrest (.inl rfl) (lexeme_string h)⟩
  · obtain ⟨c, -, hc⟩ := decodeChar_of_decode h
    exact ⟨c, hc, scan_literal hraw hrest (.inr rfl) (lexeme_char h hc)⟩

/-- An unknown escape fails for its key, not for its place; escaped quotes and backslashes leave the
quote behind them to end the literal. -/
theorem literal_ends_behind_escapes :
    splitLiteral '"' (Text.of "\\q\" x") = some (Text.of "\\q", Text.of " x") ∧
    (∃ e, decode (.scalar '"') (Text.of "\\q") = .error e ∧ e.kind ≠ .unescapedDelimiter ∧
      ¬ (e.kind = .truncatedEscape ∧ e.sequence = [.scalar '\\'])) ∧
    splitLiteral '"' (Text.of "\\\"\\\\\\x41'" ++ .scalar '"' :: Text.of "\" + 1;") =
      some (Text.of "\\\"\\\\\\x41'", Text.of "\" + 1;") ∧
    (∃ s, decodeString (Text.of "\\\"\\\\\\x41'") = .ok s ∧
      Tokens.scan (Text.of "\"\\\"\\\\\\x41'\" + 1;") =
        (scanLine 1 12 (Text.of " + 1;")).map fun tokens =>
          ⟨⟨.string s, Text.of "\"\\\"\\\\\\x41'\"", ⟨1, 1⟩⟩ :: tokens, ⟨1, 17⟩⟩) ∧
    ∃ c, decodeChar (Text.of "\\'") = .ok c ∧
      Tokens.scan (Text.of "'\\'';") =
        (scanLine 1 5 (Text.of ";")).map fun tokens =>
          ⟨⟨.char c, Text.of "'\\''", ⟨1, 1⟩⟩ :: tokens, ⟨1, 6⟩⟩ := by
  obtain ⟨hend, hstop, hstring, hchar⟩ := literal_ends_where_decoded
  have hbad :
      decode (.scalar '"') (Text.of "\\q") = .error ⟨.malformedEscape, 0, Text.of "\\q"⟩ := by
    decide +kernel
  have hgood : decode (.scalar '"') (Text.of "\\\"\\\\\\x41'") = .ok (Text.of "\"\\A'") := by
    decide +kernel
  have hquote : decode (.scalar '\'') (Text.of "\\'") = .ok [.scalar '\''] := by decide +kernel
  have hsplit : splitLiteral '"' (Text.of "\\q\" x") = some (Text.of "\\q", Text.of " x") := by
    decide
  refine ⟨hsplit, ?_, ?_, ?_, ?_⟩
  · exact ⟨_, hbad, hend '"' _ _ _ _ (.inl rfl) hsplit hbad⟩
  · exact hstop '"' _ _ _ (.inl rfl) hgood
  · exact hstring _ (Text.of " + 1;") _ (by decide) (by decide) hgood
  · exact hchar _ (Text.of ";") _ (by decide) (by decide) hquote

end ScalarScript.Literal
