import ScalarScript.Proofs.Source.Spelling
import ScalarScript.Proofs.Text.Hexadecimal

/-!
# Words

A `Word` is a token without its place. Words that blanks separate are scanned as the tokens they
are: none runs into the next, and none is taken for another.

The scalars of a literal are written as escapes by their number, in eight digits.

Results:
* `readable_mark` to `readable_char`: words of every kind are read as what they are.
* `decode_escapes`: escapes decode to the scalars they number.
* **`scan_spaced`**: a source of readable words is scanned as these words.
-/

namespace ScalarScript

/-- A token without its place. -/
structure Word where
  kind : Token.Kind
  text : Text

/-- What a token is, wherever it stands. -/
def Token.word (t : Token) : Word := ⟨t.kind, t.text⟩

namespace Word

def mark (m : Mark) : Word := ⟨.mark m, [.scalar m.spelling]⟩

def symbol (s : Symbol) : Word := ⟨.symbol s, Text.of s.spelling⟩

def keyword (k : Keyword) : Word := ⟨.keyword k, Text.of k.spelling⟩

def name (t : Text) : Word := ⟨.identifier, t⟩

def number (n : Nat) : Word := ⟨.number n, Text.ofNat n⟩

/-- A scalar by its number. -/
def escape (c : Char) : Text := .scalar '\\' :: .scalar 'U' :: Text.hex 8 c.toNat

def string (s : ScalarString) : Word :=
  ⟨.string s, .scalar '"' :: (s.scalars.flatMap escape ++ [.scalar '"'])⟩

def char (c : Char) : Word := ⟨.char c, .scalar '\'' :: (escape c ++ [.scalar '\''])⟩

/-- Words with a blank behind each. -/
def spaced (words : List Word) : Text := words.flatMap fun w => w.text ++ [.scalar ' ']

/-- Whether a word is the first token of every text that starts with it and a blank. -/
def Readable (w : Word) : Prop :=
  ∃ p behind, w.text = p :: behind ∧ p.isBlank = false ∧ p ≠ .scalar '/' ∧
    CodePoint.scalar '\n' ∉ w.text ∧
    ∀ rest, lexeme p (behind ++ .scalar ' ' :: rest) = .ok (w.kind, w.text)

/-- A word is readable where its text spells its kind, since every token ends before a blank. -/
theorem readable_of_spelledAs {w : Word} (hs : w.kind.SpelledAs w.text)
    (hline : CodePoint.scalar '\n' ∉ w.text) : w.Readable := by
  obtain ⟨p, behind, htext, hblank, hslash⟩ := hs.exists_cons
  refine ⟨p, behind, htext, hblank, hslash, hline, fun rest => ?_⟩
  rw [htext] at hs ⊢
  exact lexeme_of_spelledAs hs (Token.Kind.endsBefore_cons (by decide) (by decide) rest w.kind)

/-! ## Signs and keywords -/

theorem readable_mark (m : Mark) : (mark m).Readable :=
  readable_of_spelledAs (.mark m) (by cases m <;> decide)

theorem readable_symbol (s : Symbol) : (symbol s).Readable :=
  readable_of_spelledAs (.symbol s) (by cases s <;> decide)

theorem readable_keyword (k : Keyword) : (keyword k).Readable :=
  readable_of_spelledAs (.keyword k) (by cases k <;> decide)

/-! ## Names and numbers -/

theorem newline_notMem_of_continuesName {word : Text} (h : ∀ p ∈ word, p.continuesName = true) :
    CodePoint.scalar '\n' ∉ word := fun hm =>
  (CodePoint.continuesName_spec (h _ hm)).2.2.2.2 rfl

theorem readable_number {n : Nat} (h : (n : Int) ≤ Integer.greatest) : (number n).Readable := by
  have hdigits : ∀ p ∈ Text.ofNat n, p.isDigit = true := by
    simpa using Text.all_isDigit_ofNat n
  have hvalue := Text.decimalValue_ofNat n
  have hs : (Token.Kind.number n).SpelledAs (Text.ofNat n) := by
    have hread := Token.Kind.SpelledAs.number (Text.ofNat_ne_nil n) hdigits (by rwa [hvalue])
    rwa [hvalue] at hread
  exact readable_of_spelledAs hs (newline_notMem_of_continuesName fun p hp =>
    CodePoint.continuesName_of_isDigit (hdigits p hp))

theorem readable_name {t : Text} (h : t.IsName) : (name t).Readable :=
  readable_of_spelledAs (.identifier h) (newline_notMem_of_continuesName h.continuesName)

/-! ## Literals -/

section Literals

variable {quote : Char}

theorem length_hex_toNat (c : Char) : (Text.hex 8 c.toNat).length = 8 := by
  have := Text.length_toDigits_toNat (.scalar c)
  exact Text.length_hex (Nat.le_trans this (by decide))

/-- An escape is a unit, whatever follows it. -/
theorem unit_escape (hq : quote ≠ '\\') (hu : quote ≠ 'U') (c : Char) (rest : Text) :
    Literal.unit (.scalar quote) (.scalar '\\') (.scalar 'U' :: (Text.hex 8 c.toNat ++ rest)) =
      .ok (.scalar c, 10) := by
  have htake : (Text.hex 8 c.toNat ++ rest).take 8 = Text.hex 8 c.toNat :=
    List.take_left' (length_hex_toNat c)
  have hvalue : Text.hexValue? (Text.hex 8 c.toNat) = some c.toNat := Text.hexValue?_hex 8 _
  have hdigits : (Text.hex 8 c.toNat).findIdx? (fun p => p.hexDigit?.isNone) = none := by
    refine List.findIdx?_eq_none_iff.mpr fun p hp => ?_
    have := Text.hexDigit?_of_hexValue? hvalue p hp
    simpa using this
  have hpoint : CodePoint.ofNat? c.toNat = some (.scalar c) := CodePoint.ofNat?_toNat (.scalar c)
  have hkey : Literal.directive? (.scalar 'U') = some (.hex 8) := by decide
  have hfirst : CodePoint.scalar '\\' ≠ .scalar quote := by simpa using hq.symm
  have hkeyne : CodePoint.scalar 'U' ≠ .scalar quote := by simpa using hu.symm
  unfold Literal.unit
  rw [if_neg hfirst, if_neg (by decide)]
  simp only
  rw [if_neg hkeyne, hkey]
  simp only
  unfold Literal.hexUnit
  rw [htake, hdigits]
  simp only
  rw [length_hex_toNat, if_neg (by decide), hvalue, Option.bind_some, hpoint]

theorem decodeFrom_escapes (hq : quote ≠ '\\') (hu : quote ≠ 'U') (cs : List Char)
    (offset : Nat) :
    Literal.decodeFrom (.scalar quote) offset (cs.flatMap escape) = .ok (Text.ofChars cs) := by
  induction cs generalizing offset with
  | nil => exact Literal.decodeFrom_nil _ _
  | cons c cs ih =>
    have hdrop : (CodePoint.scalar 'U' :: (Text.hex 8 c.toNat ++ cs.flatMap escape)).drop 9 =
        cs.flatMap escape := by
      rw [List.drop_succ_cons]
      exact List.drop_left' (length_hex_toNat c)
    have hcons : (c :: cs).flatMap escape =
        .scalar '\\' :: .scalar 'U' :: (Text.hex 8 c.toNat ++ cs.flatMap escape) := rfl
    rw [hcons, Literal.decodeFrom_cons, unit_escape hq hu]
    simp only
    rw [hdrop, ih]
    rfl

/-- Escapes decode to the scalars that they number. -/
theorem decode_escapes (hq : quote ≠ '\\') (hu : quote ≠ 'U') (cs : List Char) :
    Literal.decode (.scalar quote) (cs.flatMap escape) = .ok (Text.ofChars cs) :=
  decodeFrom_escapes hq hu cs 0

theorem newline_notMem_escape (c : Char) : CodePoint.scalar '\n' ∉ escape c := by
  intro hm
  have hdigit : CodePoint.scalar '\n' ∉ Text.hex 8 c.toNat := fun h =>
    absurd (Text.hexDigit?_of_hexValue? (Text.hexValue?_hex 8 _) _ h) (by decide)
  simp only [escape, List.mem_cons, CodePoint.scalar.injEq] at hm
  rcases hm with h | h | h
  · exact absurd h (by decide)
  · exact absurd h (by decide)
  · exact hdigit h

theorem readable_string (s : ScalarString) : (string s).Readable := by
  refine ⟨.scalar '"', s.scalars.flatMap escape ++ [.scalar '"'], rfl, by decide, by decide, ?_,
    fun rest => ?_⟩
  · have hraw : CodePoint.scalar '\n' ∉ s.scalars.flatMap escape := by
      intro hm
      obtain ⟨c, -, hc⟩ := List.mem_flatMap.mp hm
      exact newline_notMem_escape c hc
    simp [string, hraw]
  · have hdecode : Literal.decode (.scalar '"') (s.scalars.flatMap escape) =
        .ok (Text.ofChars s.scalars) := decode_escapes (by decide) (by decide) _
    have hvalue : ScalarString.ofScalars (Text.chars (Text.ofChars s.scalars)) = s := by
      rw [Text.chars_ofChars, ScalarString.ofScalars_scalars]
    rw [List.append_assoc]
    refine (Literal.lexeme_string hdecode).trans ?_
    rw [hvalue]
    rfl

theorem readable_char (c : Char) : (char c).Readable := by
  refine ⟨.scalar '\'', escape c ++ [.scalar '\''], rfl, by decide, by decide, ?_, fun rest => ?_⟩
  · simp [char, newline_notMem_escape]
  · have hdecode : Literal.decode (.scalar '\'') ([c].flatMap escape) = .ok [.scalar c] :=
      decode_escapes (by decide) (by decide) [c]
    rw [List.flatMap_singleton] at hdecode
    obtain ⟨d, hd, hchar⟩ := Literal.decodeChar_of_decode hdecode
    cases hd
    rw [List.append_assoc]
    exact Literal.lexeme_char hdecode hchar

end Literals

/-! ## Sources -/

theorem scanLine_spaced {words : List Word} (h : ∀ w ∈ words, w.Readable) (line column : Nat) :
    ∃ tokens, scanLine line column (spaced words) = .ok tokens ∧ tokens.map Token.word = words := by
  induction words generalizing column with
  | nil => exact ⟨[], scanLine_nil, rfl⟩
  | cons w words ih =>
    obtain ⟨hw, hwords⟩ := List.forall_mem_cons.mp h
    obtain ⟨p, behind, htext, hblank, hslash, -, hlexeme⟩ := hw
    obtain ⟨tokens, hscan, hmap⟩ := ih hwords (column + (behind.length + 1) + 1)
    have hspaced : spaced (w :: words) = p :: (behind ++ .scalar ' ' :: spaced words) := by
      rw [spaced, List.flatMap_cons, htext]
      simp [spaced]
    have hword := hlexeme (spaced words)
    rw [htext] at hword
    refine ⟨⟨w.kind, p :: behind, ⟨line, column⟩⟩ :: tokens, ?_, ?_⟩
    · rw [hspaced, scanLine_lexeme hblank (startsComment_eq_false hslash) hword,
        scanLine_blank (by decide), hscan]
      rfl
    · rw [List.map_cons, hmap, Token.word, ← htext]

theorem newline_notMem_spaced {words : List Word} (h : ∀ w ∈ words, w.Readable) :
    CodePoint.scalar '\n' ∉ spaced words := by
  intro hm
  obtain ⟨w, hw, hm⟩ := List.mem_flatMap.mp hm
  obtain ⟨p, behind, -, -, -, hline, -⟩ := h w hw
  rcases List.mem_append.mp hm with hm | hm
  · exact hline hm
  · cases List.mem_singleton.mp hm

/-- **A source of readable words is scanned as these words.** -/
theorem scan_spaced {words : List Word} (h : ∀ w ∈ words, w.Readable) :
    ∃ tokens, Tokens.scan (spaced words) = .ok tokens ∧
      tokens.tokens.map Token.word = words := by
  obtain ⟨tokens, hscan, hmap⟩ := scanLine_spaced h 1 1
  refine ⟨⟨tokens, ⟨1, (spaced words).length + 1⟩⟩, ?_, hmap⟩
  rw [Tokens.scan_eq_of_line (newline_notMem_spaced h), hscan]
  rfl

end Word

end ScalarScript
