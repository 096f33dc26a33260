import ScalarScript.Proofs.Literal.Failures
import ScalarScript.Proofs.Source.Layout

/-!
# Where a source fails

A source has no tokens where the first text that starts none stands. In front of it on its line are
tokens and blanks only, so a quote there opens a literal. What is wrong with the text is shown from
its first code point on, but for a literal that cannot be decoded: there the decoder counts from
behind the opening quote, and what it finds is shown.

* `InFront`: the tokens and blanks that stand on a line in front of a rest.
* `LexemeFault`: what is wrong where no token starts.
* `Text.OpensLiteral`: a quote at a place opens a literal.

Results:
* `exists_fault_of_scan`: a source without tokens has a fault behind tokens and blanks.
* `LexemeFault.detail_isPrefix`: what is shown stands where the failure is.
* **`errors_show_what_stands_there`**: where a failure of the scanner is, and what it shows.
-/

namespace ScalarScript

/-! ## Literals that cannot be decoded -/

namespace Literal

/-- The content of a string literal or of a character literal cannot be decoded. -/
inductive Undecodable : Char → Text → DecodeError → Prop
  | string {raw : Text} {d : DecodeError} (h : decodeString raw = .error d) : Undecodable '"' raw d
  | char {raw : Text} {d : DecodeError} (h : decodeChar raw = .error d) : Undecodable '\'' raw d

variable {quote : Char} {raw : Text} {d : DecodeError}

theorem sequence_isPrefix_of_decodeScalars (hq : quote ≠ '\\')
    (h : decodeScalars quote raw = .error d) :
    d.offset ≤ raw.length ∧ d.sequence <+: raw.drop d.offset := by
  obtain ⟨s, rest, bad, rfl, hbad, rfl⟩ := isBad_of_decodeFrom hq (Except.map_eq_error_iff.mp h)
  simp only [Nat.zero_add, List.drop_left, List.length_append]
  exact ⟨Nat.le_add_right _ _, hbad.sequence_isPrefix.2⟩

theorem Undecodable.isQuote (h : Undecodable quote raw d) : quote = '"' ∨ quote = '\'' := by
  cases h with
  | string => exact .inl rfl
  | char => exact .inr rfl

/-- What the error shows stands in the content at its offset. -/
theorem Undecodable.sequence_isPrefix (h : Undecodable quote raw d) :
    d.offset ≤ raw.length ∧ d.sequence <+: raw.drop d.offset := by
  cases h with
  | string h => exact sequence_isPrefix_of_decodeScalars (by decide) (Except.map_eq_error_iff.mp h)
  | char h =>
    unfold decodeChar at h
    split at h
    · next e he =>
      cases h
      exact sequence_isPrefix_of_decodeScalars (by decide) he
    · cases h
    · -- The content is shown as a whole where it decodes to more or less than one scalar.
      cases h
      exact ⟨Nat.zero_le _, List.prefix_rfl⟩

end Literal

/-! ## Texts that start no token -/

/-- What is wrong with a text that starts no token: its first word or its first code point, a
literal that does not end, or one that cannot be decoded. -/
inductive LexemeFault : Text → BadLexeme → Prop
  | word {kind : LexError.Kind} {word rest : Text}
    (hk : kind ∈ [.unexpectedChar, .malformedNumber, .malformedIdentifier]) :
    LexemeFault (word ++ rest) ⟨kind, word, 0, none⟩
  | unclosed {quote : Char} {behind : Text} (hq : quote = '"' ∨ quote = '\'')
    (h : ∀ raw rest, Literal.Content quote raw → behind ≠ raw ++ .scalar quote :: rest) :
    LexemeFault (.scalar quote :: behind) ⟨.unterminatedString, [], 0, none⟩
  | undecodable {quote : Char} {raw rest : Text} {d : Literal.DecodeError}
    (hc : Literal.Content quote raw) (h : Literal.Undecodable quote raw d) :
    LexemeFault (.scalar quote :: (raw ++ .scalar quote :: rest)) (.ofDecode d)

section Lexemes

variable {p : CodePoint} {rest : Text} {bad : BadLexeme}

theorem fault_of_literalLexeme {quote : Char}
    {decode : Text → Except Literal.DecodeError Token.Kind} (hq : quote = '"' ∨ quote = '\'')
    (hd : ∀ raw d, decode raw = .error d → Literal.Undecodable quote raw d)
    (h : literalLexeme quote decode rest = .error bad) :
    LexemeFault (.scalar quote :: rest) bad := by
  have hslash : quote ≠ '\\' := by rcases hq with rfl | rfl <;> decide
  unfold literalLexeme at h
  split at h
  · next hsplit =>
    cases h
    refine .unclosed hq fun raw after hc hrest => ?_
    cases hsplit.symm.trans ((Literal.splitLiteral_eq_some_iff hslash).mpr ⟨hc, hrest⟩)
  · next raw after hsplit =>
    split at h
    · next d hfail =>
      cases h
      obtain ⟨hc, rfl⟩ := (Literal.splitLiteral_eq_some_iff hslash).mp hsplit
      exact .undecodable hc (hd raw d hfail)
    · cases h

/-- The name characters at the start of a text are shown. -/
theorem fault_of_takeWhile {kind : LexError.Kind}
    (hk : kind ∈ [.unexpectedChar, .malformedNumber, .malformedIdentifier]) (t : Text) :
    LexemeFault t ⟨kind, t.takeWhile CodePoint.continuesName, 0, none⟩ := by
  obtain ⟨after, hsplit, -⟩ := exists_word t
  have hfault : LexemeFault (t.takeWhile CodePoint.continuesName ++ after)
      ⟨kind, t.takeWhile CodePoint.continuesName, 0, none⟩ := .word hk
  rwa [← hsplit] at hfault

theorem fault_of_numberLexeme {t : Text} (h : numberLexeme t = .error bad) :
    LexemeFault t bad := by
  unfold numberLexeme at h
  simp only at h
  split at h
  · cases h
    exact fault_of_takeWhile (by decide) t
  · cases h

theorem fault_of_wordLexeme {t : Text} (h : wordLexeme t = .error bad) : LexemeFault t bad := by
  unfold wordLexeme at h
  simp only at h
  split at h
  · cases h
    exact fault_of_takeWhile (by decide) t
  · cases h

theorem fault_of_signLexeme (h : signLexeme p (p :: rest) = .error bad) :
    LexemeFault (p :: rest) bad := by
  unfold signLexeme at h
  split at h
  · cases h
  · split at h
    · cases h
    · cases h
      exact @LexemeFault.word _ [p] rest (by decide)

/-- Where no token is read, something is wrong. -/
theorem fault_of_lexeme (h : lexeme p rest = .error bad) : LexemeFault (p :: rest) bad := by
  unfold lexeme at h
  split at h
  · next hp =>
    rw [CodePoint.is, beq_iff_eq] at hp
    rw [hp]
    exact fault_of_literalLexeme (.inl rfl)
      (fun raw d hd => .string (Except.map_eq_error_iff.mp hd)) h
  · split at h
    · next hp =>
      rw [CodePoint.is, beq_iff_eq] at hp
      rw [hp]
      exact fault_of_literalLexeme (.inr rfl)
        (fun raw d hd => .char (Except.map_eq_error_iff.mp hd)) h
    · split at h
      · exact fault_of_numberLexeme h
      · split at h
        · exact fault_of_wordLexeme h
        · exact fault_of_signLexeme h

/-- What is shown stands in the text, where the failure is. -/
theorem LexemeFault.detail_isPrefix {t : Text} (h : LexemeFault t bad) :
    bad.offset ≤ t.length ∧ bad.detail <+: t.drop bad.offset := by
  cases h with
  | word => exact ⟨Nat.zero_le _, List.prefix_append _ _⟩
  | unclosed => exact ⟨Nat.zero_le _, List.nil_prefix⟩
  | @undecodable quote raw rest d hc h =>
    obtain ⟨hle, hprefix⟩ := h.sequence_isPrefix
    show d.offset + 1 ≤ _ ∧ d.sequence <+: (raw ++ .scalar quote :: rest).drop d.offset
    rw [List.drop_append_of_le_length hle, List.length_cons, List.length_append]
    exact ⟨by omega, hprefix.trans (List.prefix_append _ _)⟩

end Lexemes

/-! ## Lines -/

/-- Tokens and blanks that stand on a line from a column on, in front of a rest. -/
inductive InFront (line : Nat) (rest : Text) : Nat → List Token → Text → Prop
  | nil {column : Nat} : InFront line rest column [] []
  | blank {column : Nat} {p : CodePoint} {tokens : List Token} {text : Text}
    (hp : p.isBlank = true) (h : InFront line rest (column + 1) tokens text) :
    InFront line rest column tokens (p :: text)
  | token {column : Nat} {kind : Token.Kind} {text before : Text} {tokens : List Token}
    (hs : kind.SpelledAs text) (he : kind.EndsBefore (before ++ rest))
    (h : InFront line rest (column + text.length) tokens before) :
    InFront line rest column (⟨kind, text, ⟨line, column⟩⟩ :: tokens) (text ++ before)

section Lines

variable {line column : Nat} {e : LexError}

/-- A line without tokens has a fault behind tokens and blanks. -/
theorem exists_fault_of_scanLine {text : Text} (h : scanLine line column text = .error e) :
    ∃ tokens before rest bad, text = before ++ rest ∧ InFront line rest column tokens before ∧
      LexemeFault rest bad ∧
      e = ⟨bad.kind, bad.detail, ⟨line, column + before.length + bad.offset⟩, bad.cause⟩ := by
  fun_induction scanLine line column text with
  | case1 => cases h
  | case2 column p rest hp ih =>
    obtain ⟨tokens, before, rest, bad, rfl, hfront, hfault, rfl⟩ := ih h
    refine ⟨tokens, p :: before, rest, bad, rfl, .blank hp hfront, hfault, ?_⟩
    rw [List.length_cons, Nat.add_assoc column 1, Nat.add_comm 1]
  | case3 => cases h
  | case4 column p rest hp hcomment bad hl =>
    cases h
    exact ⟨[], [], p :: rest, bad, rfl, .nil, fault_of_lexeme hl, rfl⟩
  | case5 column p rest hp hcomment kind text hl ih =>
    obtain ⟨behind, after, rfl, rfl, hs, he⟩ := lexeme_eq_ok_iff.mp hl
    rw [List.length_cons, Nat.add_sub_cancel, List.drop_left] at ih h
    obtain ⟨tokens, before, rest, bad, rfl, hfront, hfault, rfl⟩ :=
      ih (Except.map_eq_error_iff.mp h)
    refine ⟨_, (p :: behind) ++ before, rest, bad, ?_, .token hs he hfront, hfault, ?_⟩
    · rw [List.append_assoc, List.cons_append]
    · rw [List.length_append, List.length_cons, Nat.add_assoc column]

/-- Lines without tokens have one of which no tokens are read. -/
theorem exists_line_of_scanLines {texts : List Text} (h : scanLines line texts = .error e) :
    ∃ above text below, texts = above ++ text :: below ∧
      scanLine (line + above.length) 1 text = .error e := by
  induction texts generalizing line with
  | nil => cases h
  | cons text texts ih =>
    rcases Except.bind_eq_error_iff.mp h with hfirst | ⟨tokens, -, h⟩
    · exact ⟨[], text, texts, rfl, hfirst⟩
    · rcases Except.bind_eq_error_iff.mp h with hothers | ⟨others, -, h⟩
      · obtain ⟨above, text', below, rfl, hfail⟩ := ih hothers
        refine ⟨text :: above, text', below, rfl, ?_⟩
        rwa [List.length_cons, Nat.add_comm above.length, ← Nat.add_assoc]
      · cases h

end Lines

/-! ## Sources -/

/-- **A source without tokens has a fault** behind tokens and blanks, and the failure tells it. -/
theorem exists_fault_of_scan {source : Text} {e : LexError} (h : Tokens.scan source = .error e) :
    ∃ above below tokens before rest bad, source.lines = above ++ (before ++ rest) :: below ∧
      InFront (above.length + 1) rest 1 tokens before ∧ LexemeFault rest bad ∧
      e = ⟨bad.kind, bad.detail, ⟨above.length + 1, before.length + 1 + bad.offset⟩,
        bad.cause⟩ := by
  obtain ⟨above, text, below, hlines, hfail⟩ :=
    exists_line_of_scanLines (Except.map_eq_error_iff.mp h)
  obtain ⟨tokens, before, rest, bad, rfl, hfront, hfault, rfl⟩ := exists_fault_of_scanLine hfail
  rw [Nat.add_comm 1] at hfront
  refine ⟨above, below, tokens, before, rest, bad, hlines, hfront, hfault, ?_⟩
  rw [Nat.add_comm 1, Nat.add_comm 1]

/-- A quote opens a literal: it stands at the place, behind tokens and blanks only. -/
def Text.OpensLiteral (source : Text) (pos : Position) (quote : Char) (behind : Text) : Prop :=
  (quote = '"' ∨ quote = '\'') ∧ ∃ tokens before,
    source.StandsAt pos before [.scalar quote] behind ∧
      InFront pos.line (.scalar quote :: behind) 1 tokens before

/-- **A failure of the scanner shows what stands where it is.** The place of the failure is on a
line of the source or just past its end, and the line goes on there with the text that is shown. A
literal that does not end fails at its opening quote, and what is behind that has no closing quote
that no backslash takes with it. A literal that cannot be decoded fails as many code points behind
its opening quote as the decoder has read, and shows what the decoder shows; its kind tells a
character literal of the wrong length from a malformed escape. -/
theorem errors_show_what_stands_there {source : Text} {e : LexError}
    (h : Tokens.scan source = .error e) :
    (∃ before after, source.StandsAt e.position before e.detail after) ∧
    (e.kind = .unterminatedString → ∃ quote behind, source.OpensLiteral e.position quote behind ∧
      ∀ raw rest, Literal.Content quote raw → behind ≠ raw ++ .scalar quote :: rest) ∧
    (∀ d, e.cause = some d → ∃ start quote raw rest,
      source.OpensLiteral start quote (raw ++ .scalar quote :: rest) ∧
      Literal.Content quote raw ∧ Literal.Undecodable quote raw d ∧
      e.detail = d.sequence ∧ e.position = ⟨start.line, start.column + 1 + d.offset⟩ ∧
      e.kind = if d.kind = .malformedChar then .malformedChar else .malformedEscape) ∧
    (e.cause.isSome = true ↔ e.kind = .malformedChar ∨ e.kind = .malformedEscape) := by
  obtain ⟨above, below, tokens, before, rest, bad, hlines, hfront, hfault, rfl⟩ :=
    exists_fault_of_scan h
  have hopens {quote : Char} {behind : Text} (hq : quote = '"' ∨ quote = '\'')
      (hrest : rest = .scalar quote :: behind) :
      source.OpensLiteral ⟨above.length + 1, before.length + 1⟩ quote behind := by
    refine ⟨hq, tokens, before, ⟨above, below, ?_, rfl⟩, hrest ▸ hfront⟩
    rw [hlines, hrest, List.append_assoc, List.singleton_append]
  refine ⟨?_, ?_⟩
  · obtain ⟨hle, after, hafter⟩ := hfault.detail_isPrefix
    refine ⟨before ++ rest.take bad.offset, after, above, below, ?_, ?_⟩
    · rw [hlines, List.append_assoc, hafter, List.append_assoc, List.take_append_drop]
    · rw [List.length_append, List.length_take_of_le hle, Nat.add_right_comm]
  · cases hfault with
    | word hk =>
      simp only [List.mem_cons, List.not_mem_nil, or_false] at hk
      rcases hk with rfl | rfl | rfl <;> simp
    | unclosed hq hopen => exact ⟨fun _ => ⟨_, _, hopens hq rfl, hopen⟩, nofun, by simp⟩
    | @undecodable quote raw rest d hc hd =>
      refine ⟨?_, ?_, ?_⟩
      · simp only [BadLexeme.ofDecode]
        split <;> exact nofun
      · intro d' hd'
        cases hd'
        refine ⟨_, quote, raw, rest, hopens hd.isQuote rfl, hc, hd, rfl, ?_, rfl⟩
        show Position.mk _ (before.length + 1 + (d.offset + 1)) = _
        rw [Nat.add_comm d.offset, ← Nat.add_assoc]
      · simp only [BadLexeme.ofDecode]
        split <;> simp

/-! ### An unknown escape and an open literal -/

/-- An unknown escape on the second line. -/
def unknownEscape : Text := Text.of "x;\n \"a\\q\" 1"

/-- A literal whose only quote behind the opening one is taken by a backslash. -/
def openLiteral : Text := Text.of "1 'a\\'"

/-- The escape stands two code points behind its quote and is shown; the open literal fails at its
quote. -/
theorem errors_show_what_stands_there_of_literals :
    (Tokens.scan unknownEscape = .error ⟨.malformedEscape, Text.of "\\q", ⟨2, 4⟩,
        some ⟨.malformedEscape, 1, Text.of "\\q"⟩⟩ ∧
      (∃ before after, unknownEscape.StandsAt ⟨2, 4⟩ before (Text.of "\\q") after) ∧
      ∃ start quote behind, unknownEscape.OpensLiteral start quote behind ∧
        start.column + 1 + 1 = 4) ∧
    Tokens.scan openLiteral = .error ⟨.unterminatedString, [], ⟨1, 3⟩, none⟩ ∧
      ∃ quote behind, openLiteral.OpensLiteral ⟨1, 3⟩ quote behind ∧
        ∀ raw rest, Literal.Content quote raw → behind ≠ raw ++ .scalar quote :: rest := by
  have hescape : Tokens.scan unknownEscape = .error ⟨.malformedEscape, Text.of "\\q", ⟨2, 4⟩,
      some ⟨.malformedEscape, 1, Text.of "\\q"⟩⟩ := by decide +kernel
  have hopen : Tokens.scan openLiteral = .error ⟨.unterminatedString, [], ⟨1, 3⟩, none⟩ := by
    decide +kernel
  obtain ⟨hstands, -, hcause, -⟩ := errors_show_what_stands_there hescape
  obtain ⟨start, quote, raw, rest, hstart, -, -, -, hpos, -⟩ := hcause _ rfl
  exact ⟨⟨hescape, hstands, start, quote, _, hstart, (congrArg Position.column hpos).symm⟩, hopen,
    (errors_show_what_stands_there hopen).2.1 rfl⟩

end ScalarScript
