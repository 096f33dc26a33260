import ScalarScript.Proofs.Grammar.Lookahead.Script
import ScalarScript.Proofs.Source.Layout
import ScalarScript.Proofs.Source.Same
import ScalarScript.Proofs.Source.Words

/-!
# Separators

Where tokens stand is of no account. The texts of the tokens of a source may be written again with
anything between them that is no token: blanks, line feeds, and comments with the line feed that
ends them. As long as there is something between each two of them, no token runs into the next, and
none is cut: every separator starts with a code point at which every token ends.

* `Text.IsSeparator`: what may stand between tokens; `Text.Separates`: pieces with separators
  between them.
* `Text.Says`: the words that a text is scanned as, wherever it stands.

Results:
* `Says.newline` to `Says.word`: separators say nothing, and a token in front of a separator itself.
* `says_of_separates`: separated words say themselves.
* `readStatements_of_words`: the same words are read as the same statements.
* **`parse_of_separates`**: another layout of a source has the same words, and the same script if
  the source has one.
-/

namespace ScalarScript

/-! ## Separators -/

namespace Text

/-- Blanks, line feeds, and comments with the line feed that ends them. -/
inductive IsSeparator : Text → Prop
  | nil : IsSeparator []
  | blank {p : CodePoint} {rest : Text} (hp : p.isBlank = true) (h : IsSeparator rest) :
    IsSeparator (p :: rest)
  | newline {rest : Text} (h : IsSeparator rest) : IsSeparator (.scalar '\n' :: rest)
  | comment {text rest : Text} (ht : CodePoint.scalar '\n' ∉ text) (h : IsSeparator rest) :
    IsSeparator (Text.of "//" ++ text ++ .scalar '\n' :: rest)

/-- A text is pieces in order, with a separator that is not empty between each two of them, and with
any separator behind the last. -/
inductive Separates : List Text → Text → Prop
  | nil : Separates [] []
  | last {piece after : Text} (h : IsSeparator after) : Separates [piece] (piece ++ after)
  | cons {piece gap next rest : Text} {pieces : List Text} (hgap : IsSeparator gap) (hne : gap ≠ [])
    (h : Separates (next :: pieces) rest) :
    Separates (piece :: next :: pieces) (piece ++ (gap ++ rest))

/-- Every token ends where the text begins. -/
def EndsTokens (text : Text) : Prop :=
  ∀ p ∈ text.head?, p.continuesName = false ∧ p ≠ .scalar '='

theorem IsSeparator.endsTokens {gap : Text} (h : IsSeparator gap) : EndsTokens gap := by
  cases h with
  | nil => exact nofun
  | @blank p rest hp =>
    intro q hq
    cases hq
    have hblank : p = .scalar ' ' ∨ p = .scalar '\t' ∨ p = .scalar '\r' := by
      simpa [CodePoint.isBlank, CodePoint.is, or_assoc] using hp
    rcases hblank with rfl | rfl | rfl <;> decide
  | newline =>
    intro q hq
    cases hq
    decide
  | comment =>
    intro q hq
    cases hq
    decide

theorem EndsTokens.append {gap : Text} (h : EndsTokens gap) (hne : gap ≠ []) (rest : Text) :
    EndsTokens (gap ++ rest) := by
  obtain ⟨p, behind, rfl⟩ := List.exists_cons_of_ne_nil hne
  exact h

/-! ## Lines -/

theorem lines_newline (t : Text) : lines (.scalar '\n' :: t) = [] :: t.lines := by
  rw [lines]
  rfl

/-- A piece without line feeds goes in front of the first line. -/
theorem lines_append {piece rest first : Text} {others : List Text}
    (hpiece : CodePoint.scalar '\n' ∉ piece) (hrest : rest.lines = first :: others) :
    (piece ++ rest).lines = (piece ++ first) :: others := by
  induction piece with
  | nil => exact hrest
  | cons p piece ih =>
    obtain ⟨hp, hpiece⟩ := not_or.mp (List.mem_cons.not.mp hpiece)
    have hp : p.is '\n' = false := by simpa [CodePoint.is] using Ne.symm hp
    rw [List.cons_append, lines, hp, if_neg Bool.false_ne_true, ih hpiece]
    rfl

/-- Tokens end before the first line of a text at which tokens end. -/
theorem EndsTokens.endsBefore {text first : Text} {others : List Text} (h : EndsTokens text)
    (hlines : text.lines = first :: others) (kind : Token.Kind) : kind.EndsBefore first := by
  cases text with
  | nil =>
    cases hlines
    exact kind.endsBefore_nil
  | cons p rest =>
    cases hp : p.is '\n' with
    | true =>
      rw [lines, hp, if_pos rfl] at hlines
      cases hlines
      exact kind.endsBefore_nil
    | false =>
      obtain ⟨l, ls, hl⟩ := List.exists_cons_of_ne_nil (lines_ne_nil rest)
      rw [lines, hp, if_neg Bool.false_ne_true, hl] at hlines
      cases hlines
      obtain ⟨hname, hsign⟩ := h p rfl
      exact kind.endsBefore_cons hname hsign l

/-! ## What a text says -/

/-- The words that a text is scanned as, wherever it starts. -/
def Says (words : List Word) (text : Text) : Prop :=
  ∀ line column, ∃ first others here below, text.lines = first :: others ∧
    OnLine line column here first ∧ OnLines (line + 1) below others ∧
    (here ++ below).map Token.word = words

namespace Says

variable {words : List Word} {text : Text}

theorem nil : Says [] [] := fun _ _ => ⟨[], [], [], [], rfl, .nil, .nil, rfl⟩

/-- The lines of a text say what the text says. -/
theorem onLines (h : Says words text) (line : Nat) :
    ∃ tokens, OnLines line tokens text.lines ∧ tokens.map Token.word = words := by
  obtain ⟨first, others, here, below, hlines, hhere, hbelow, hwords⟩ := h line 1
  exact ⟨here ++ below, hlines ▸ .cons hhere hbelow, hwords⟩

theorem newline (h : Says words text) : Says words (.scalar '\n' :: text) := by
  intro line column
  obtain ⟨tokens, htokens, hwords⟩ := h.onLines (line + 1)
  exact ⟨[], text.lines, [], tokens, lines_newline text, .nil, htokens, hwords⟩

theorem comment {note : Text} (hnote : CodePoint.scalar '\n' ∉ note) (h : Says words text) :
    Says words (Text.of "//" ++ note ++ .scalar '\n' :: text) := by
  intro line column
  obtain ⟨tokens, htokens, hwords⟩ := h.onLines (line + 1)
  have hcomment : CodePoint.scalar '\n' ∉ Text.of "//" ++ note := by
    rw [List.mem_append]
    exact not_or.mpr ⟨by decide, hnote⟩
  refine ⟨Text.of "//" ++ note, text.lines, [], tokens, ?_, .comment note, htokens, hwords⟩
  rw [lines_append hcomment (lines_newline text), List.append_nil]

theorem blank {p : CodePoint} (hp : p.isBlank = true) (h : Says words text) :
    Says words (p :: text) := by
  intro line column
  obtain ⟨first, others, here, below, hlines, hhere, hbelow, hwords⟩ := h line (column + 1)
  have hnewline : CodePoint.scalar '\n' ∉ [p] := by
    rw [List.mem_singleton]
    rintro rfl
    exact absurd hp (by decide)
  exact ⟨p :: first, others, here, below, lines_append hnewline hlines, .blank hp hhere, hbelow,
    hwords⟩

/-- Separators say nothing. -/
theorem separator {gap : Text} (hgap : IsSeparator gap) (h : Says words text) :
    Says words (gap ++ text) := by
  induction hgap with
  | nil => exact h
  | blank hp _ ih => exact ih.blank hp
  | newline _ ih => exact ih.newline
  | @comment note rest hnote _ ih =>
    have hsays := ih.comment hnote
    rwa [← List.cons_append, ← List.append_assoc] at hsays

/-- A token says itself in front of a text at which tokens end. -/
theorem word {w : Word} (hs : w.kind.SpelledAs w.text) (hw : CodePoint.scalar '\n' ∉ w.text)
    (hends : EndsTokens text) (h : Says words text) : Says (w :: words) (w.text ++ text) := by
  intro line column
  obtain ⟨first, others, here, below, hlines, hhere, hbelow, rfl⟩ := h line (column + w.text.length)
  exact ⟨w.text ++ first, others, ⟨w.kind, w.text, ⟨line, column⟩⟩ :: here, below,
    lines_append hw hlines, .token hs (hends.endsBefore hlines w.kind) hhere, hbelow, rfl⟩

end Says

/-- Separated words say themselves. -/
theorem says_of_separates {words : List Word}
    (hwords : ∀ w ∈ words, w.kind.SpelledAs w.text ∧ CodePoint.scalar '\n' ∉ w.text) {text : Text}
    (h : Separates (words.map Word.text) text) : Says words text := by
  induction words generalizing text with
  | nil =>
    cases h
    exact .nil
  | cons w words ih =>
    obtain ⟨⟨hs, hw⟩, hrest⟩ := List.forall_mem_cons.mp hwords
    cases words with
    | nil =>
      cases h with
      | @last _ after hafter =>
        have hsays : Says [] (after ++ []) := Says.nil.separator hafter
        rw [List.append_nil] at hsays
        exact hsays.word hs hw hafter.endsTokens
    | cons next words =>
      cases h with
      | cons hgap hne h =>
        exact ((ih hrest h).separator hgap).word hs hw (hgap.endsTokens.append hne _)

end Text

/-! ## The same words -/

theorem forall₂_alike_of_words {tokens tokens' : List Token}
    (h : tokens'.map Token.word = tokens.map Token.word) :
    List.Forall₂ (Token.Alike .unplaced) tokens tokens' := by
  induction tokens generalizing tokens' with
  | nil =>
    rw [List.map_eq_nil_iff.mp h]
    exact .nil
  | cons t tokens ih =>
    obtain ⟨t', rest, rfl, ht, hrest⟩ := List.map_eq_cons_iff.mp h
    obtain ⟨hkind, htext⟩ := Word.mk.inj ht
    exact .cons ⟨hkind, htext, rfl⟩ (ih hrest)

/-- The same words are read as the same statements, wherever they stand. -/
theorem readStatements_of_words {k : Nat} {stop : Position} (stop' : Position)
    {tokens tokens' : List Token} {ss : List Statement}
    (hwords : tokens'.map Token.word = tokens.map Token.word)
    (h : Script.readStatements (Parser.expr k) stop tokens = .ok ss) :
    ∃ ss', Script.readStatements (Parser.expr k) stop' tokens' = .ok ss' ∧
      ss.map Statement.withoutPositions = ss'.map Statement.withoutPositions :=
  readStatements_alike (Nat.le_refl k) stop' (forall₂_alike_of_words hwords) h

/-- The tokens of a source are spelled as their kinds are, each on one line. -/
theorem spelledAs_of_scan {source : Text} {tokens : Tokens} (h : Tokens.scan source = .ok tokens) :
    ∀ w ∈ tokens.tokens.map Token.word,
      w.kind.SpelledAs w.text ∧ CodePoint.scalar '\n' ∉ w.text := by
  obtain ⟨ts, hts, rfl⟩ := Except.map_eq_ok_iff.mp h
  intro w hw
  obtain ⟨t, ht, rfl⟩ := List.mem_map.mp hw
  obtain ⟨hs, before, after, ⟨above, below, hlines, -⟩, -⟩ :=
    Tokens.spelledAs_of_mem (scanLines_eq_ok_iff.mp hts) ht
  refine ⟨hs, fun hm => source.newline_notMem_lines (before ++ t.text ++ after) ?_ ?_⟩
  · rw [hlines]
    simp
  · exact List.mem_append_left _ (List.mem_append_right _ hm)

/-- **Layout does not change meaning.** Let a source be scanned, and a text be the texts of its
tokens in order, with separators that are not empty between each two of them, and any separators
around them. Then the text is scanned as the same words, and if the source is parsed, the text is
parsed as the same script but for places. -/
theorem parse_of_separates {source before rest : Text} {tokens : Tokens}
    (hscan : Tokens.scan source = .ok tokens) (hbefore : before.IsSeparator)
    (hrest : Text.Separates (tokens.tokens.map Token.text) rest) :
    (∃ tokens', Tokens.scan (before ++ rest) = .ok tokens' ∧
      tokens'.tokens.map Token.word = tokens.tokens.map Token.word) ∧
    ∀ (name : Text) (script : Script), Script.parse source (.text name) = .ok script →
      ∃ script', Script.parse (before ++ rest) (.text name) = .ok script' ∧
        script'.withoutPositions = script.withoutPositions ∧ script.same script' = true := by
  have hspelled := spelledAs_of_scan hscan
  have htexts : (tokens.tokens.map Token.word).map Word.text = tokens.tokens.map Token.text := by
    rw [List.map_map]
    rfl
  have hsays : Text.Says (tokens.tokens.map Token.word) (before ++ rest) :=
    (Text.says_of_separates hspelled (htexts ▸ hrest)).separator hbefore
  obtain ⟨ts, hts, hwords⟩ := hsays.onLines 1
  have hscan' : Tokens.scan (before ++ rest) = .ok ⟨ts, stopOf (before ++ rest).lines⟩ := by
    rw [Tokens.scan, scanLines_eq_ok_iff.mpr hts]
    rfl
  refine ⟨⟨_, hscan', hwords⟩, fun name script hparse => ?_⟩
  obtain ⟨tokens₁, ss, hscan₁, hss, rfl⟩ := Grammar.parse_eq_ok_iff.mp hparse
  cases hscan.symm.trans hscan₁
  obtain ⟨ss', hss', hsame⟩ := readStatements_of_words (stopOf (before ++ rest).lines) hwords hss
  refine ⟨⟨ss', .text name⟩, Grammar.parse_eq_ok_iff.mpr ⟨_, ss', hscan', hss', rfl⟩, ?_, ?_⟩
  · exact congrArg (Script.mk · (.text name)) hsame.symm
  · exact (Script.same_iff (wellFormed_ofTokens hscan hss) (wellFormed_ofTokens hscan' hss')).mpr
      ⟨hsame, rfl⟩

/-! ### A sign of two characters and slashes in quotes, apart and together -/

/-- The script `y>="//"`. -/
def comparesSlashes : Grammar.ScriptDerivation :=
  .last (.expression (.expr
    (.additive (.bare (.operand (.name ⟨⟨.identifier, Text.of "y", ⟨1, 1⟩⟩, rfl⟩) .noSuffix))
      .noAddition)
    (.compare ⟨⟨.symbol .greaterEqual, Text.of ">=", ⟨1, 2⟩⟩, rfl⟩
      (.additive (.bare (.operand
        (.literal ⟨⟨.string (.ofScalars ['/', '/']), Text.of "\"//\"", ⟨1, 4⟩⟩, rfl⟩) .noSuffix))
        .noAddition))) rfl)

/-- A comment in front, a line feed and a comment before the sign, and a tab behind it. -/
theorem parse_of_separates_compares :
    (∃ tokens', Tokens.scan (Text.of "// a\ny\n// =\n>=\t\"//\" ") = .ok tokens' ∧
      tokens'.tokens.map Token.word = comparesSlashes.tokens.map Token.word) ∧
    ∃ script', Script.parse (Text.of "// a\ny\n// =\n>=\t\"//\" ") (.text (Text.of "s")) =
        .ok script' ∧
      script'.withoutPositions =
        Script.withoutPositions ⟨comparesSlashes.statements, .text (Text.of "s")⟩ := by
  have hscan : Tokens.scan (Text.of "y>=\"//\"") = .ok ⟨comparesSlashes.tokens, ⟨1, 8⟩⟩ := by
    decide +kernel
  have hparse : Script.parse (Text.of "y>=\"//\"") (.text (Text.of "s")) =
      .ok ⟨comparesSlashes.statements, .text (Text.of "s")⟩ := by
    refine Grammar.parse_of_derivation _ _ hscan ?_
    have hone : comparesSlashes.nesting = 1 := rfl
    rw [hone, Script.nestingLimit]
    omega
  have hbefore : Text.IsSeparator (Text.of "// a\n") :=
    @Text.IsSeparator.comment (Text.of " a") [] (by decide) .nil
  have hgap : Text.IsSeparator (Text.of "\n// =\n") :=
    .newline (@Text.IsSeparator.comment (Text.of " =") [] (by decide) .nil)
  have hrest : Text.Separates (comparesSlashes.tokens.map Token.text)
      (Text.of "y" ++ (Text.of "\n// =\n" ++ (Text.of ">=" ++ (Text.of "\t" ++
        (Text.of "\"//\"" ++ Text.of " "))))) :=
    .cons hgap (by decide) (.cons (.blank rfl .nil) (by decide) (.last (.blank rfl .nil)))
  obtain ⟨htokens, hscript⟩ := parse_of_separates hscan hbefore hrest
  obtain ⟨script', hparse', hplaces, -⟩ := hscript _ _ hparse
  exact ⟨htokens, script', hparse', hplaces⟩

end ScalarScript
