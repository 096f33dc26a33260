import ScalarScript.Proofs.Literal.Content
import ScalarScript.Proofs.Literal.Numbers
import ScalarScript.Proofs.Source.WellFormed

/-!
# The spelling of tokens

What a token is can be read off its text alone: a literal is its content in quotes, a number its
digits, and so on. What is behind a token decides only where it ends. A name or a number goes on as
long as it can, and so does a sign, while a literal and a mark end by themselves.

* `Token.Kind.SpelledAs`: the texts of the tokens of a kind.
* `Token.Kind.EndsBefore`: a token of a kind ends where a text begins.

Results:
* `startOf?_eq_some_iff`: the sign that is read is the longest one.
* **`lexeme_eq_ok_iff`**: the scanner reads a token exactly where its spelling stands and ends.
* `Token.Kind.SpelledAs.unique`: a text spells one kind.
-/

namespace ScalarScript

/-! ## Classes of code points -/

namespace CodePoint

/-- A code point of a class is none that the class leaves out. -/
theorem ne_of_class {f : CodePoint → Bool} {p q : CodePoint} (hp : f p = true)
    (hq : f q = false) : p ≠ q := by
  rintro rfl
  rw [hp] at hq
  cases hq

theorem is_eq_false {p : CodePoint} {c : Char} (h : p ≠ .scalar c) : p.is c = false := by
  simpa [CodePoint.is] using h

theorem continuesName_of_isDigit {p : CodePoint} (h : p.isDigit = true) :
    p.continuesName = true := by
  rw [continuesName, h, Bool.or_true]

theorem continuesName_of_startsName {p : CodePoint} (h : p.startsName = true) :
    p.continuesName = true := by
  rw [continuesName, h, Bool.true_or]

theorem startsName_of_isLetter {p : CodePoint} (h : p.isLetter = true) : p.startsName = true := by
  rw [startsName, h, Bool.true_or]

/-- A code point that continues a name is neither a quote nor a blank nor a slash. -/
theorem continuesName_spec {p : CodePoint} (h : p.continuesName = true) :
    p.is '"' = false ∧ p.is '\'' = false ∧ p.isBlank = false ∧ p ≠ .scalar '/' ∧
      p ≠ .scalar '\n' := by
  have hne : ∀ q : CodePoint, q.continuesName = false → p ≠ q := fun q hq => ne_of_class h hq
  refine ⟨is_eq_false (hne _ (by decide)), is_eq_false (hne _ (by decide)), ?_, hne _ (by decide),
    hne _ (by decide)⟩
  rw [isBlank, is_eq_false (hne _ (by decide)), is_eq_false (hne _ (by decide)),
    is_eq_false (hne _ (by decide))]
  rfl

theorem bounds_of_isLetter {p : CodePoint} (h : p.isLetter = true) :
    65 ≤ p.toNat ∧ p.toNat ≤ 90 ∨ 97 ≤ p.toNat ∧ p.toNat ≤ 122 := by
  cases p with
  | surrogate i => cases h
  | scalar c =>
    have hletter : c.isAlpha = true := by simpa [isLetter, char?] using h
    delta Char.isAlpha Char.isUpper Char.isLower at hletter
    simp only [Bool.or_eq_true, Bool.and_eq_true, decide_eq_true_eq] at hletter
    exact hletter

/-- A code point that continues a name is in ASCII. -/
theorem ascii_of_continuesName {p : CodePoint} (h : p.continuesName = true) : p.toNat < 0x80 := by
  rw [continuesName, startsName, Bool.or_eq_true, Bool.or_eq_true] at h
  rcases h with (h | h) | h
  · have := bounds_of_isLetter h
    omega
  · rw [eq_of_is h]
    decide
  · have := bounds_of_isDigit h
    omega

/-- A letter is no digit. -/
theorem isDigit_eq_false {p : CodePoint} (h : p.isLetter = true) : p.isDigit = false := by
  by_contra hd
  have := bounds_of_isLetter h
  have := bounds_of_isDigit (Bool.not_eq_false _ |>.mp hd)
  omega

end CodePoint

/-! ## Names -/

namespace Text.IsName

variable {t : Text}

theorem continuesName (h : t.IsName) : ∀ p ∈ t, p.continuesName = true := by
  obtain ⟨⟨k, first, rest, rfl, hfirst, hrest⟩, -⟩ := h
  refine List.forall_mem_append.mpr ⟨fun p hp => ?_, List.forall_mem_cons.mpr
    ⟨CodePoint.continuesName_of_startsName (CodePoint.startsName_of_isLetter hfirst), hrest⟩⟩
  rw [List.eq_of_mem_replicate hp]
  decide

theorem ascii (h : t.IsName) : ∀ p ∈ t, p.toNat < 0x80 := fun p hp =>
  CodePoint.ascii_of_continuesName (h.continuesName p hp)

theorem isName_eq_true (h : t.IsName) : isName t = true := by
  obtain ⟨⟨k, first, rest, rfl, hfirst, -⟩, -⟩ := h
  have hunder : first.is '_' = false :=
    CodePoint.is_eq_false (CodePoint.ne_of_class hfirst (by decide))
  have hdrop : (List.replicate k (CodePoint.scalar '_') ++ first :: rest).dropWhile (·.is '_') =
      first :: rest := by
    rw [List.dropWhile_append_of_pos, List.dropWhile_cons, hunder, if_neg Bool.false_ne_true]
    intro p hp
    rw [List.eq_of_mem_replicate hp]
    rfl
  rw [isName, hdrop]
  exact hfirst

theorem ofText?_eq_none (h : t.IsName) : Keyword.ofText? t = none := by
  cases hk : Keyword.ofText? t with
  | none => rfl
  | some k => exact absurd (Keyword.ofText?_eq_some_iff.mp hk) (h.2 k)

/-- A name starts with a letter or an underscore, not with a digit. -/
theorem exists_cons (h : t.IsName) :
    ∃ p behind, t = p :: behind ∧ p.startsName = true ∧ p.isDigit = false := by
  obtain ⟨⟨k, first, rest, rfl, hfirst, -⟩, -⟩ := h
  cases k with
  | zero =>
    exact ⟨first, rest, rfl, CodePoint.startsName_of_isLetter hfirst,
      CodePoint.isDigit_eq_false hfirst⟩
  | succ k => exact ⟨.scalar '_', _, rfl, by decide, by decide⟩

end Text.IsName

/-! ## Signs -/

theorem Mark.ofCodePoint?_eq_some_iff {p : CodePoint} {m : Mark} :
    Mark.ofCodePoint? p = some m ↔ p = .scalar m.spelling := by
  constructor
  · intro h
    simpa [CodePoint.is] using List.find?_some h
  · rintro rfl
    cases m <;> decide

namespace Symbol

variable {t : Text} {s : Symbol}

theorem startsWith_eq_true_iff {spelling : String} :
    t.startsWith spelling = true ↔ Text.of spelling <+: t := List.isPrefixOf_iff_prefix

theorem mem_all (s : Symbol) : s ∈ all := by cases s <;> decide

theorem length_spelling (s : Symbol) : s.spelling.length = 1 ∨ s.spelling.length = 2 := by
  cases s <;> decide

/-- Signs go on with the equality sign only. -/
theorem eq_of_mem_tail (s : Symbol) : ∀ p ∈ (Text.of s.spelling).tail, p = .scalar '=' := by
  cases s <;> decide

/-- The signs of two characters come first. -/
theorem all_eq : all = (all.filter fun s => s.spelling.length == 2) ++
    all.filter fun s => s.spelling.length == 1 := by decide

theorem prefix_of_startOf? (h : startOf? t = some s) : Text.of s.spelling <+: t := by
  have hstarts := List.find?_some h
  exact startsWith_eq_true_iff.mp hstarts

theorem length_le_of_startOf? (h : startOf? t = some s) {longer : Symbol}
    (hl : Text.of longer.spelling <+: t) : longer.spelling.length ≤ s.spelling.length := by
  by_contra hlt
  obtain ⟨htwo, hone⟩ : longer.spelling.length = 2 ∧ s.spelling.length = 1 := by
    have := length_spelling s
    have := length_spelling longer
    omega
  obtain ⟨found, hfound⟩ : ∃ found, (all.filter fun s => s.spelling.length == 2).find?
      (fun s => t.startsWith s.spelling) = some found := by
    rw [← Option.isSome_iff_exists, List.find?_isSome]
    exact ⟨longer, List.mem_filter.mpr ⟨mem_all longer, by simp [htwo]⟩,
      startsWith_eq_true_iff.mpr hl⟩
  rw [startOf?, all_eq, List.find?_append, hfound] at h
  cases h
  have hlength := (List.mem_filter.mp (List.mem_of_find?_eq_some hfound)).2
  simp [hone] at hlength

theorem length_of (spelling : String) : (Text.of spelling).length = spelling.length := by
  rw [Text.of, List.length_map, String.length_toList]

/-- Two signs of one text are the same. -/
theorem eq_of_text_eq {s' : Symbol} (h : Text.of s.spelling = Text.of s'.spelling) : s = s' := by
  have hchars := congrArg Text.chars h
  rw [Text.of, ← Text.ofChars, Text.chars_ofChars, Text.of, ← Text.ofChars, Text.chars_ofChars]
    at hchars
  exact spelling_injective (String.toList_inj.mp hchars)

/-- **The sign that is read is the longest** that stands there. -/
theorem startOf?_eq_some_iff : startOf? t = some s ↔ Text.of s.spelling <+: t ∧
    ∀ longer : Symbol, Text.of longer.spelling <+: t →
      longer.spelling.length ≤ s.spelling.length := by
  constructor
  · exact fun h => ⟨prefix_of_startOf? h, fun _ => length_le_of_startOf? h⟩
  · rintro ⟨hstarts, hlongest⟩
    obtain ⟨found, hfound⟩ : ∃ found, startOf? t = some found := by
      rw [← Option.isSome_iff_exists, startOf?, List.find?_isSome]
      exact ⟨s, mem_all s, startsWith_eq_true_iff.mpr hstarts⟩
    have hle := hlongest found (prefix_of_startOf? hfound)
    have hge := length_le_of_startOf? hfound hstarts
    have htext : Text.of s.spelling = Text.of found.spelling := by
      refine (List.prefix_of_prefix_length_le hstarts (prefix_of_startOf? hfound) ?_).eq_of_length
        ?_ <;> rw [length_of, length_of] <;> omega
    rw [hfound, eq_of_text_eq htext]

end Symbol

/-! ## Tokens -/

/-- The content of a character literal decodes to one scalar. -/
theorem Literal.decodeChar_eq_ok_iff {raw : Text} {c : Char} :
    decodeChar raw = .ok c ↔ decodeScalars '\'' raw = .ok [c] := by
  unfold decodeChar
  constructor
  · intro h
    split at h
    · cases h
    · next hd =>
      cases h
      exact hd
    · cases h
  · intro h
    rw [h]

namespace Token.Kind

/-- A text is that of a token of a kind, wherever it stands: the content in quotes decodes to the
value of a literal, digits write a number in range, a name is no keyword. -/
inductive SpelledAs : Token.Kind → Text → Prop
  | string {raw : Text} {s : ScalarString} (h : Literal.decodeString raw = .ok s) :
    SpelledAs (.string s) (.scalar '"' :: (raw ++ [.scalar '"']))
  | char {raw : Text} {c : Char} (h : Literal.decodeChar raw = .ok c) :
    SpelledAs (.char c) (.scalar '\'' :: (raw ++ [.scalar '\'']))
  | number {digits : Text} (hne : digits ≠ []) (hd : ∀ p ∈ digits, p.isDigit = true)
    (hmax : (digits.decimalValue : Int) ≤ Integer.greatest) :
    SpelledAs (.number digits.decimalValue) digits
  | identifier {word : Text} (h : word.IsName) : SpelledAs .identifier word
  | keyword (k : Keyword) : SpelledAs (.keyword k) (Text.of k.spelling)
  | symbol (s : Symbol) : SpelledAs (.symbol s) (Text.of s.spelling)
  | mark (m : Mark) : SpelledAs (.mark m) [.scalar m.spelling]

/-- A token of a kind ends where a text begins: a name or a number does not go on there, and no
longer sign stands in its place. -/
def EndsBefore (rest : Text) : Token.Kind → Prop
  | .string _ | .char _ | .mark _ => True
  | .number _ | .identifier | .keyword _ => ∀ p ∈ rest.head?, p.continuesName = false
  | .symbol s => ∀ longer : Symbol, Text.of longer.spelling <+: Text.of s.spelling ++ rest →
    longer.spelling.length ≤ s.spelling.length

/-- No token goes on at a code point that is neither of a name nor the one that signs go on with. -/
theorem endsBefore_cons {p : CodePoint} (hname : p.continuesName = false) (hsign : p ≠ .scalar '=')
    (rest : Text) (kind : Token.Kind) : kind.EndsBefore (p :: rest) := by
  cases kind with
  | string | char | mark => trivial
  | number | identifier | keyword =>
    intro q hq
    cases hq
    exact hname
  | symbol s =>
    intro longer h
    by_contra hlt
    have hsecond : Text.of s.spelling ++ [p] <+: Text.of longer.spelling := by
      refine List.prefix_of_prefix_length_le ⟨rest, by simp⟩ h ?_
      rw [List.length_append, List.length_singleton, Symbol.length_of, Symbol.length_of]
      omega
    obtain ⟨q, behind, hq⟩ : ∃ q behind, Text.of s.spelling = q :: behind := by
      cases s <;> exact ⟨_, _, rfl⟩
    obtain ⟨tail, htail⟩ := hsecond
    refine hsign (Symbol.eq_of_mem_tail longer p ?_)
    rw [← htail, hq]
    simp

theorem endsBefore_nil (kind : Token.Kind) : kind.EndsBefore [] := by
  cases kind with
  | string | char | mark => trivial
  | number | identifier | keyword => exact nofun
  | symbol s =>
    intro longer h
    rw [List.append_nil] at h
    simpa only [Symbol.length_of] using h.length_le

/-- A token starts with neither a blank nor a slash. -/
theorem SpelledAs.exists_cons {kind : Token.Kind} {text : Text} (h : kind.SpelledAs text) :
    ∃ p behind, text = p :: behind ∧ p.isBlank = false ∧ p ≠ .scalar '/' := by
  have hname : ∀ {p : CodePoint}, p.continuesName = true → p.isBlank = false ∧ p ≠ .scalar '/' :=
    fun hp =>
      have hspec := CodePoint.continuesName_spec hp
      ⟨hspec.2.2.1, hspec.2.2.2.1⟩
  cases h with
  | string | char => exact ⟨_, _, rfl, by decide, by decide⟩
  | number hne hd _ =>
    obtain ⟨p, behind, rfl⟩ := List.exists_cons_of_ne_nil hne
    exact ⟨p, behind, rfl, hname (CodePoint.continuesName_of_isDigit (hd p List.mem_cons_self))⟩
  | identifier h =>
    obtain ⟨p, behind, rfl, hstart, -⟩ := Text.IsName.exists_cons h
    exact ⟨p, behind, rfl, hname (CodePoint.continuesName_of_startsName hstart)⟩
  | keyword k => cases k <;> exact ⟨_, _, rfl, by decide, by decide⟩
  | symbol s => cases s <;> exact ⟨_, _, rfl, by decide, by decide⟩
  | mark m => cases m <;> exact ⟨_, _, rfl, by decide, by decide⟩

end Token.Kind

section Lexemes

variable {t text rest : Text} {p : CodePoint} {kind : Token.Kind}

/-- A word of name characters that do not go on is what is taken. -/
theorem takeWhile_continuesName {word : Text} (h : ∀ p ∈ word, p.continuesName = true)
    (hrest : ∀ p ∈ rest.head?, p.continuesName = false) :
    (word ++ rest).takeWhile CodePoint.continuesName = word := by
  rw [List.takeWhile_append_of_pos h]
  cases rest with
  | nil => exact List.append_nil _
  | cons q rest =>
    rw [List.takeWhile_cons, if_neg (by simp [hrest q rfl]), List.append_nil]

/-- The name characters in front of a text, and that they do not go on behind. -/
theorem exists_word (t : Text) : ∃ rest, t = t.takeWhile CodePoint.continuesName ++ rest ∧
    (∀ p ∈ t.takeWhile CodePoint.continuesName, p.continuesName = true) ∧
    ∀ p ∈ rest.head?, p.continuesName = false := by
  refine ⟨t.dropWhile CodePoint.continuesName, List.takeWhile_append_dropWhile.symm,
    fun p hp => List.mem_takeWhile_imp hp, fun p hp => ?_⟩
  have hnot := List.head?_dropWhile_not CodePoint.continuesName t
  rw [hp] at hnot
  simpa using hnot

/-! ### What is read -/

theorem spelledAs_literalLexeme {quote : Char}
    {decode : Text → Except Literal.DecodeError Token.Kind}
    (h : literalLexeme quote decode rest = .ok (kind, text)) :
    ∃ raw after, text = .scalar quote :: (raw ++ [.scalar quote]) ∧
      rest = raw ++ [.scalar quote] ++ after ∧ decode raw = .ok kind := by
  unfold literalLexeme at h
  split at h
  · cases h
  · next raw after hsplit =>
    split at h
    · cases h
    · next hd =>
      cases h
      refine ⟨raw, after, rfl, ?_, hd⟩
      rw [splitLiteral_append hsplit, List.append_assoc]
      rfl

theorem spelledAs_numberLexeme (hp : p.isDigit = true)
    (h : numberLexeme (p :: rest) = .ok (kind, text)) :
    ∃ after, p :: rest = text ++ after ∧ kind.SpelledAs text ∧ kind.EndsBefore after := by
  obtain ⟨after, hsplit, -, hends⟩ := exists_word (p :: rest)
  have hne : (p :: rest).takeWhile CodePoint.continuesName ≠ [] := by
    rw [List.takeWhile_cons, if_pos (CodePoint.continuesName_of_isDigit hp)]
    exact List.cons_ne_nil _ _
  unfold numberLexeme at h
  simp only at h
  split at h
  · cases h
  · next n hn =>
    cases h
    split at hn
    · next hall =>
      have hd := List.all_eq_true.mp hall
      obtain ⟨rfl, hmax⟩ := (Integer.ofDigits?_eq_some_iff hd).mp hn
      exact ⟨after, hsplit, .number hne hd hmax, hends⟩
    · cases hn

theorem spelledAs_wordLexeme (h : wordLexeme t = .ok (kind, text)) :
    ∃ after, t = text ++ after ∧ kind.SpelledAs text ∧ kind.EndsBefore after := by
  obtain ⟨after, hsplit, hall, hends⟩ := exists_word t
  unfold wordLexeme at h
  simp only at h
  split at h
  · cases h
  · next hname =>
    cases h
    refine ⟨after, hsplit, ?_⟩
    cases hk : Keyword.ofText? (t.takeWhile CodePoint.continuesName) with
    | some k =>
      rw [Keyword.ofText?_eq_some_iff] at hk
      rw [hk]
      exact ⟨.keyword k, hends⟩
    | none => exact ⟨.identifier (Text.isName_of_word hall (by simpa using hname) hk), hends⟩

theorem spelledAs_signLexeme (h : signLexeme p (p :: rest) = .ok (kind, text)) :
    ∃ after, p :: rest = text ++ after ∧ kind.SpelledAs text ∧ kind.EndsBefore after := by
  unfold signLexeme at h
  split at h
  · next m hm =>
    cases h
    rw [Mark.ofCodePoint?_eq_some_iff] at hm
    rw [hm]
    exact ⟨rest, rfl, .mark m, trivial⟩
  · split at h
    · next s hs =>
      cases h
      obtain ⟨⟨after, hafter⟩, hlongest⟩ := Symbol.startOf?_eq_some_iff.mp hs
      rw [← hafter] at hlongest
      exact ⟨after, hafter.symm, .symbol s, hlongest⟩
    · cases h

/-- The token that is read in front of a text is spelled there, and ends there. -/
theorem spelledAs_lexeme (h : lexeme p rest = .ok (kind, text)) :
    ∃ after, p :: rest = text ++ after ∧ kind.SpelledAs text ∧ kind.EndsBefore after := by
  unfold lexeme at h
  split at h
  · next hp =>
    obtain ⟨raw, after, rfl, rfl, hraw⟩ := spelledAs_literalLexeme h
    obtain ⟨s, hs, rfl⟩ := Except.map_eq_ok_iff.mp hraw
    rw [CodePoint.is, beq_iff_eq] at hp
    exact ⟨after, by rw [hp]; rfl, .string hs, trivial⟩
  · split at h
    · next hp =>
      obtain ⟨raw, after, rfl, rfl, hraw⟩ := spelledAs_literalLexeme h
      obtain ⟨c, hc, rfl⟩ := Except.map_eq_ok_iff.mp hraw
      rw [CodePoint.is, beq_iff_eq] at hp
      exact ⟨after, by rw [hp]; rfl, .char hc, trivial⟩
    · split at h
      · next hp => exact spelledAs_numberLexeme hp h
      · split at h
        · exact spelledAs_wordLexeme h
        · exact spelledAs_signLexeme h

/-! ### What is spelled -/

/-- What is read at a code point that continues names depends on whether it is a digit. -/
theorem lexeme_of_continuesName (hp : p.continuesName = true) :
    lexeme p rest = if p.isDigit then numberLexeme (p :: rest) else wordLexeme (p :: rest) := by
  obtain ⟨hdouble, hsingle, -⟩ := CodePoint.continuesName_spec hp
  rw [lexeme, hdouble, hsingle, if_neg Bool.false_ne_true, if_neg Bool.false_ne_true]
  rw [CodePoint.continuesName, Bool.or_eq_true] at hp
  split
  · rfl
  · next hdigit => rw [if_pos (hp.resolve_right hdigit)]

/-- A code point that starts no literal, number, name or mark starts a sign. -/
theorem lexeme_of_sign {s : Symbol} {behind : Text} (hs : Text.of s.spelling = p :: behind) :
    lexeme p rest = ((Symbol.startOf? (p :: rest)).map fun s =>
      (Token.Kind.symbol s, Text.of s.spelling)).elim (.error ⟨.unexpectedChar, [p], 0, none⟩)
        .ok := by
  have hclass : p.is '"' = false ∧ p.is '\'' = false ∧ p.isDigit = false ∧
      p.startsName = false ∧ Mark.ofCodePoint? p = none := by
    cases s <;> cases hs <;> decide
  obtain ⟨hdouble, hsingle, hdigit, hstart, hmark⟩ := hclass
  rw [lexeme, hdouble, hsingle, hdigit, hstart]
  simp only [Bool.false_eq_true, if_false]
  rw [signLexeme, hmark]
  cases Symbol.startOf? (p :: rest) <;> rfl

theorem lexeme_keyword {k : Keyword} {behind : Text} (hk : Text.of k.spelling = p :: behind)
    (he : ∀ q ∈ rest.head?, q.continuesName = false) :
    lexeme p (behind ++ rest) = .ok (.keyword k, p :: behind) := by
  have hclass : p.startsName = true ∧ p.isDigit = false ∧
      (∀ q ∈ p :: behind, q.continuesName = true) ∧ isName (p :: behind) = true := by
    cases k <;> cases hk <;> decide
  obtain ⟨hstart, hdigit, hall, hname⟩ := hclass
  have hkeyword : Keyword.ofText? (p :: behind) = some k :=
    Keyword.ofText?_eq_some_iff.mpr hk.symm
  rw [lexeme_of_continuesName (CodePoint.continuesName_of_startsName hstart), hdigit,
    if_neg Bool.false_ne_true, wordLexeme, ← List.cons_append, takeWhile_continuesName hall he]
  simp only [hname, hkeyword, Bool.not_true, Bool.false_eq_true, if_false, Option.map_some,
    Option.getD_some]

/-- The tokens that are spelled are read, whatever stands behind their end. -/
theorem lexeme_of_spelledAs {behind : Text} (hs : kind.SpelledAs (p :: behind))
    (he : kind.EndsBefore rest) : lexeme p (behind ++ rest) = .ok (kind, p :: behind) := by
  generalize hword : p :: behind = word at hs
  cases hs with
  | @string raw s h =>
    cases hword
    rw [Literal.decodeString] at h
    obtain ⟨cs, hcs, rfl⟩ := Except.map_eq_ok_iff.mp h
    rw [List.append_assoc]
    refine (Literal.lexeme_string (Literal.text_decodeScalars.mp hcs)).trans ?_
    rw [Text.chars_ofChars]
  | @char raw c h =>
    cases hword
    have hcs := Literal.decodeChar_eq_ok_iff.mp h
    rw [List.append_assoc]
    exact Literal.lexeme_char (Literal.text_decodeScalars.mp hcs) h
  | number hne hd hmax =>
    obtain ⟨hp, -⟩ := List.forall_mem_cons.mp (hword ▸ hd)
    have hall : ∀ q ∈ word, q.continuesName = true := fun q hq =>
      CodePoint.continuesName_of_isDigit (hd q hq)
    rw [lexeme_of_continuesName (CodePoint.continuesName_of_isDigit hp), if_pos hp, numberLexeme,
      ← List.cons_append, hword, takeWhile_continuesName hall he]
    simp only [List.all_eq_true.mpr hd, if_true,
      (Integer.ofDigits?_eq_some_iff hd).mpr ⟨rfl, hmax⟩]
  | identifier h =>
    obtain ⟨q, tail, heq, hstart, hdigit⟩ := h.exists_cons
    cases hword.trans heq
    rw [lexeme_of_continuesName (CodePoint.continuesName_of_startsName hstart), hdigit,
      if_neg Bool.false_ne_true, wordLexeme, ← List.cons_append, hword,
      takeWhile_continuesName h.continuesName he]
    simp only [h.isName_eq_true, h.ofText?_eq_none, Bool.not_true, Bool.false_eq_true, if_false,
      Option.map_none, Option.getD_none]
  | keyword k =>
    rw [lexeme_keyword hword.symm he, hword]
  | symbol s =>
    have hread : Symbol.startOf? (p :: (behind ++ rest)) = some s := by
      rw [← List.cons_append, hword]
      exact Symbol.startOf?_eq_some_iff.mpr ⟨List.prefix_append _ _, he⟩
    rw [lexeme_of_sign hword.symm, hread]
    rfl
  | mark m =>
    cases hword
    cases m <;> rfl

/-- **The scanner reads a token exactly where its spelling stands and ends.** -/
theorem lexeme_eq_ok_iff : lexeme p rest = .ok (kind, text) ↔
    ∃ behind after, text = p :: behind ∧ rest = behind ++ after ∧ kind.SpelledAs text ∧
      kind.EndsBefore after := by
  constructor
  · intro h
    obtain ⟨after, hsplit, hs, he⟩ := spelledAs_lexeme h
    obtain ⟨q, behind, rfl, -⟩ := hs.exists_cons
    cases hsplit
    exact ⟨behind, after, rfl, rfl, hs, he⟩
  · rintro ⟨behind, after, rfl, rfl, hs, he⟩
    exact lexeme_of_spelledAs hs he

/-- **A text spells one kind**, with one value. -/
theorem Token.Kind.SpelledAs.unique {kind' : Token.Kind} (h : kind.SpelledAs text)
    (h' : kind'.SpelledAs text) : kind = kind' := by
  obtain ⟨p, behind, rfl, -⟩ := h.exists_cons
  have hread := lexeme_of_spelledAs h kind.endsBefore_nil
  rw [lexeme_of_spelledAs h' kind'.endsBefore_nil] at hread
  cases hread
  rfl

end Lexemes

end ScalarScript
