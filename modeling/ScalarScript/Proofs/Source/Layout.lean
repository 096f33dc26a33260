import ScalarScript.Proofs.Source.Spelling

/-!
# The layout of a source

A source is its lines with a line feed between each two. On a line lie tokens with blanks between
them, and two slashes between tokens start a comment, which is the rest of the line. So nothing of a
source is lost and nothing is invented: each token is the piece of its line at its place, and what
no token covers is blank or a comment. The end of the source is no token but has a place of its
own, just past the last line.

* `OnLine`, `OnLines`: the tokens that a line, or several lines, lay out.
* `Text.StandsAt`: a piece of a source stands at a place.
* `Tokens.LieOn`: the tokens of a source, with their places and spellings.

Results:
* `scanLine_eq_ok_iff`, `scanLines_eq_ok_iff`: the scanner reads exactly what is laid out.
* **`lieOn_of_scan`**: the tokens that are read lie on the source and cover what is no layout.
-/

namespace ScalarScript

/-! ## Lines -/

namespace Text

theorem lines_ne_nil (t : Text) : t.lines ≠ [] := by
  fun_induction lines t <;> exact List.cons_ne_nil _ _

/-- A source is its lines with line feeds between them. -/
theorem join_lines (t : Text) : join [.scalar '\n'] t.lines = t := by
  fun_induction lines t with
  | case1 => rfl
  | case2 c rest hc ih =>
    have hnewline : c = .scalar '\n' := CodePoint.eq_of_is hc
    obtain ⟨l, ls, hl⟩ := List.exists_cons_of_ne_nil (lines_ne_nil rest)
    rw [hl] at ih ⊢
    rw [hnewline, join, ih]
    · rfl
    · exact List.cons_ne_nil _ _
  | case3 c rest hc hrest => exact absurd hrest (lines_ne_nil rest)
  | case4 c rest hc l ls hl ih =>
    rw [hl] at ih
    cases ls with
    | nil => exact congrArg (c :: ·) ih
    | cons l' ls => exact congrArg (c :: ·) ih

theorem newline_notMem_lines (t : Text) : ∀ line ∈ t.lines, CodePoint.scalar '\n' ∉ line := by
  fun_induction lines t with
  | case1 => simp
  | case2 c rest hc ih => simpa using ih
  | case3 c rest hc hrest => exact absurd hrest (lines_ne_nil rest)
  | case4 c rest hc l ls hl ih =>
    rw [hl] at ih
    have hne : c ≠ .scalar '\n' := by simpa [CodePoint.is] using hc
    obtain ⟨hfirst, hothers⟩ := List.forall_mem_cons.mp ih
    refine List.forall_mem_cons.mpr ⟨fun hm => ?_, hothers⟩
    rcases List.mem_cons.mp hm with h | h
    · exact hne h.symm
    · exact hfirst h

/-- A code point of a text in two parts is in the first part or in the second. -/
theorem lt_or_exists_of_append {first second before after : Text} {p : CodePoint}
    (h : first ++ second = before ++ p :: after) :
    before.length < first.length ∨
      ∃ between, before = first ++ between ∧ second = between ++ p :: after := by
  rcases List.append_eq_append_iff.mp h with ⟨between, hbefore, hsecond⟩ | ⟨tail, hfirst, hsecond⟩
  · exact .inr ⟨between, hbefore, hsecond⟩
  · cases tail with
    | nil => exact .inr ⟨[], by simpa using hfirst.symm, hsecond.symm⟩
    | cons q tail =>
      rw [hfirst, List.length_append, List.length_cons]
      exact .inl (by omega)

/-- A piece of a source stands at a place: the line there is the piece between what stands before
it and what stands after it. -/
def StandsAt (source : Text) (pos : Position) (before piece after : Text) : Prop :=
  ∃ above below, source.lines = above ++ (before ++ piece ++ after) :: below ∧
    pos = ⟨above.length + 1, before.length + 1⟩

/-- What stands before a piece and after it depends on its place. -/
theorem StandsAt.unique {source before piece after before' after' : Text} {pos : Position}
    (h : source.StandsAt pos before piece after) (h' : source.StandsAt pos before' piece after') :
    before = before' ∧ after = after' := by
  obtain ⟨above, below, hlines, rfl⟩ := h
  obtain ⟨above', below', hlines', hpos⟩ := h'
  simp only [Position.mk.injEq, Nat.add_right_cancel_iff] at hpos
  rw [hlines] at hlines'
  obtain ⟨-, hline⟩ := List.append_inj hlines' hpos.1
  obtain ⟨hline, -⟩ := List.cons.inj hline
  rw [List.append_assoc, List.append_assoc] at hline
  obtain ⟨hbefore, hbehind⟩ := List.append_inj hline hpos.2
  exact ⟨hbefore, List.append_cancel_left hbehind⟩

end Text

/-! ## One line -/

/-- One token comes before another, and they share no place. -/
def Token.Before (t u : Token) : Prop :=
  t.position.line < u.position.line ∨
    t.position.line = u.position.line ∧ t.position.column + t.text.length ≤ u.position.column

/-- The tokens that lie on the rest of a line, from a column on. -/
inductive OnLine (line : Nat) : Nat → List Token → Text → Prop
  | nil {column : Nat} : OnLine line column [] []
  | comment {column : Nat} (text : Text) : OnLine line column [] (Text.of "//" ++ text)
  | blank {column : Nat} {p : CodePoint} {tokens : List Token} {text : Text}
    (hp : p.isBlank = true) (h : OnLine line (column + 1) tokens text) :
    OnLine line column tokens (p :: text)
  | token {column : Nat} {kind : Token.Kind} {text rest : Text} {tokens : List Token}
    (hs : kind.SpelledAs text) (he : kind.EndsBefore rest)
    (h : OnLine line (column + text.length) tokens rest) :
    OnLine line column (⟨kind, text, ⟨line, column⟩⟩ :: tokens) (text ++ rest)

section OneLine

variable {line column : Nat} {tokens : List Token} {text : Text}

theorem onLine_of_scanLine (h : scanLine line column text = .ok tokens) :
    OnLine line column tokens text := by
  fun_induction scanLine line column text generalizing tokens with
  | case1 =>
    cases h
    exact .nil
  | case2 column p rest hp ih => exact .blank hp (ih h)
  | case3 column p rest hp hcomment =>
    cases h
    obtain ⟨behind, hbehind⟩ := Symbol.startsWith_eq_true_iff.mp hcomment
    rw [← hbehind]
    exact .comment behind
  | case4 => cases h
  | case5 column p rest hp hcomment kind text hl ih =>
    obtain ⟨others, ho, rfl⟩ := Except.map_eq_ok_iff.mp h
    obtain ⟨behind, after, rfl, rfl, hs, he⟩ := lexeme_eq_ok_iff.mp hl
    rw [List.length_cons, Nat.add_sub_cancel, List.drop_left] at ih ho
    exact .token hs he (ih ho)

theorem scanLine_of_onLine (h : OnLine line column tokens text) :
    scanLine line column text = .ok tokens := by
  induction h with
  | nil => exact scanLine_nil
  | comment text => exact scanLine_comment
  | blank hp _ ih => rw [scanLine_blank hp, ih]
  | token hs he _ ih =>
    obtain ⟨p, behind, rfl, hblank, hslash⟩ := hs.exists_cons
    rw [List.cons_append, scanLine_lexeme hblank (startsComment_eq_false hslash)
      (lexeme_of_spelledAs hs he)]
    rw [List.length_cons] at ih
    rw [ih]
    rfl

/-- **The scanner reads exactly what lies on a line.** -/
theorem scanLine_eq_ok_iff :
    scanLine line column text = .ok tokens ↔ OnLine line column tokens text :=
  ⟨onLine_of_scanLine, scanLine_of_onLine⟩

namespace OnLine

theorem place (h : OnLine line column tokens text) :
    ∀ t ∈ tokens, t.position.line = line ∧ column ≤ t.position.column := by
  induction h with
  | nil | comment => simp
  | blank _ _ ih => exact fun t ht => ⟨(ih t ht).1, by have := (ih t ht).2; omega⟩
  | token _ _ _ ih =>
    refine List.forall_mem_cons.mpr ⟨⟨rfl, Nat.le_refl _⟩, fun t ht => ⟨(ih t ht).1, ?_⟩⟩
    have := (ih t ht).2
    omega

theorem ordered (h : OnLine line column tokens text) : tokens.Pairwise Token.Before := by
  induction h with
  | nil | comment => exact .nil
  | blank _ _ ih => exact ih
  | token _ _ h ih =>
    refine .cons (fun t ht => ?_) ih
    obtain ⟨hline, hcolumn⟩ := h.place t ht
    exact .inr ⟨hline.symm, hcolumn⟩

/-- Each token is spelled at its place, and ends where what is behind it begins. -/
theorem slice (h : OnLine line column tokens text) :
    ∀ t ∈ tokens, t.kind.SpelledAs t.text ∧ ∃ before after, text = before ++ t.text ++ after ∧
      t.position = ⟨line, column + before.length⟩ ∧ t.kind.EndsBefore after := by
  induction h with
  | nil | comment => simp
  | @blank column p tokens text _ _ ih =>
    intro t ht
    obtain ⟨hs, before, after, rfl, hpos, he⟩ := ih t ht
    refine ⟨hs, p :: before, after, rfl, ?_, he⟩
    rw [hpos, List.length_cons, Nat.add_right_comm, Nat.add_assoc]
  | @token column kind text rest tokens hs he _ ih =>
    refine List.forall_mem_cons.mpr ⟨⟨hs, [], rest, rfl, rfl, he⟩, fun t ht => ?_⟩
    obtain ⟨hs', before, after, rfl, hpos, he'⟩ := ih t ht
    refine ⟨hs', text ++ before, after, by simp only [List.append_assoc], ?_, he'⟩
    rw [hpos, List.length_append, Nat.add_assoc]

/-- Each code point of a line is in a token, or blank, or in a comment behind all tokens. -/
theorem covered (h : OnLine line column tokens text) {before after : Text} {p : CodePoint}
    (htext : text = before ++ p :: after) :
    (∃ t ∈ tokens, t.position.column ≤ column + before.length ∧
      column + before.length < t.position.column + t.text.length) ∨
    p.isBlank = true ∨
    ∃ start behind, text = start ++ Text.of "//" ++ behind ∧ start.length ≤ before.length ∧
      ∀ t ∈ tokens, t.position.column + t.text.length ≤ column + start.length := by
  induction h generalizing before with
  | nil => cases before <;> cases htext
  | comment text => exact .inr (.inr ⟨[], text, rfl, Nat.zero_le _, nofun⟩)
  | @blank column q tokens text hq _ ih =>
    cases before with
    | nil =>
      cases htext
      exact .inr (.inl hq)
    | cons q' before =>
      obtain ⟨rfl, hrest⟩ := List.cons.inj htext
      have hcolumn : column + (q :: before).length = column + 1 + before.length := by
        rw [List.length_cons]
        omega
      rw [hcolumn]
      refine (ih hrest).imp_right (Or.imp_right ?_)
      rintro ⟨start, behind, rfl, hstart, hbehind⟩
      refine ⟨q :: start, behind, rfl, Nat.succ_le_succ hstart, fun t ht => ?_⟩
      have := hbehind t ht
      rw [List.length_cons]
      omega
  | @token column kind text rest tokens hs _ h ih =>
    rcases Text.lt_or_exists_of_append htext with hin | ⟨between, rfl, hrest⟩
    · exact .inl ⟨_, List.mem_cons_self, Nat.le_add_right _ _, Nat.add_lt_add_left hin _⟩
    · rw [List.length_append, ← Nat.add_assoc]
      refine (ih hrest).imp (fun ⟨t, ht, hcover⟩ => ⟨t, List.mem_cons_of_mem _ ht, hcover⟩)
        (Or.imp_right ?_)
      rintro ⟨start, behind, rfl, hstart, htokens⟩
      refine ⟨text ++ start, behind, by simp only [List.append_assoc], ?_, ?_⟩
      · rw [List.length_append]
        exact Nat.add_le_add_left hstart _
      · rw [List.length_append, ← Nat.add_assoc]
        exact List.forall_mem_cons.mpr ⟨Nat.le_add_right _ _, htokens⟩

end OnLine

end OneLine

/-! ## Several lines -/

/-- The tokens that lie on lines counted from a line on. -/
inductive OnLines : Nat → List Token → List Text → Prop
  | nil {line : Nat} : OnLines line [] []
  | cons {line : Nat} {tokens others : List Token} {text : Text} {texts : List Text}
    (h : OnLine line 1 tokens text) (hs : OnLines (line + 1) others texts) :
    OnLines line (tokens ++ others) (text :: texts)

section Lines

variable {line : Nat} {tokens : List Token} {texts : List Text}

/-- **The scanner reads exactly what lies on the lines.** -/
theorem scanLines_eq_ok_iff : scanLines line texts = .ok tokens ↔ OnLines line tokens texts := by
  constructor
  · intro h
    induction texts generalizing line tokens with
    | nil =>
      cases h
      exact .nil
    | cons text texts ih =>
      obtain ⟨here, hhere, h⟩ := Except.bind_eq_ok_iff.mp h
      obtain ⟨others, hothers, h⟩ := Except.bind_eq_ok_iff.mp h
      rw [← Except.pure_eq_ok_iff.mp h]
      exact .cons (onLine_of_scanLine hhere) (ih hothers)
  · intro h
    induction h with
    | nil => rfl
    | cons h _ ih =>
      rw [scanLines, scanLine_of_onLine h, ih]
      rfl

namespace OnLines

theorem le_line (h : OnLines line tokens texts) : ∀ t ∈ tokens, line ≤ t.position.line := by
  induction h with
  | nil => exact nofun
  | cons h _ ih =>
    refine List.forall_mem_append.mpr ⟨fun t ht => Nat.le_of_eq (h.place t ht).1.symm, ?_⟩
    exact fun t ht => Nat.le_of_succ_le (ih t ht)

theorem ordered (h : OnLines line tokens texts) : tokens.Pairwise Token.Before := by
  induction h with
  | nil => exact .nil
  | cons h hs ih =>
    refine List.pairwise_append.mpr ⟨h.ordered, ih, fun t ht u hu => .inl ?_⟩
    rw [(h.place t ht).1]
    exact hs.le_line u hu

/-- Each line lays out the tokens on it. -/
theorem exists_line (h : OnLines line tokens texts) {above below : List Text} {text : Text}
    (htexts : texts = above ++ text :: below) :
    ∃ here, OnLine (line + above.length) 1 here text ∧
      ∀ t, t ∈ here ↔ t ∈ tokens ∧ t.position.line = line + above.length := by
  induction h generalizing above with
  | nil => cases above <;> cases htexts
  | @cons line tokens others first texts h hs ih =>
    cases above with
    | nil =>
      cases htexts
      refine ⟨tokens, h, fun t => ⟨fun ht => ⟨List.mem_append_left _ ht, (h.place t ht).1⟩, ?_⟩⟩
      rintro ⟨ht, hline⟩
      refine (List.mem_append.mp ht).resolve_right fun ht => ?_
      have := hs.le_line t ht
      simp only [List.length_nil] at hline
      omega
    | cons first' above =>
      obtain ⟨rfl, htexts'⟩ := List.cons.inj htexts
      obtain ⟨here, hhere, hmem⟩ := ih htexts'
      have hline : line + 1 + above.length = line + (first :: above).length := by
        rw [List.length_cons]
        omega
      rw [hline] at hhere hmem
      refine ⟨here, hhere, fun t => (hmem t).trans (and_congr_left fun ht => ?_)⟩
      refine ⟨List.mem_append_right _, fun hm => (List.mem_append.mp hm).resolve_left fun hm => ?_⟩
      have := (h.place t hm).1
      simp only [List.length_cons] at ht
      omega

/-- Each token lies on one of the lines. -/
theorem exists_of_mem (h : OnLines line tokens texts) {t : Token} (ht : t ∈ tokens) :
    ∃ above text below, texts = above ++ text :: below ∧ t.position.line = line + above.length := by
  induction h with
  | nil => cases ht
  | @cons line tokens others text texts h _ ih =>
    rcases List.mem_append.mp ht with ht | ht
    · exact ⟨[], text, texts, rfl, (h.place t ht).1⟩
    · obtain ⟨above, text', below, rfl, hline⟩ := ih ht
      refine ⟨text :: above, text', below, rfl, ?_⟩
      rw [hline, List.length_cons]
      omega

end OnLines

end Lines

/-! ## Whole sources -/

/-- A token covers the place of one of its code points. -/
def Token.Covers (t : Token) (pos : Position) : Prop :=
  t.position.line = pos.line ∧ t.position.column ≤ pos.column ∧
    pos.column < t.position.column + t.text.length

namespace Tokens

/-- A place is in a comment: at two slashes or behind them on their line, where all tokens of the
line end before the slashes. -/
def CommentedAt (ts : Tokens) (source : Text) (pos : Position) : Prop :=
  ∃ start before after, source.StandsAt start before (Text.of "//") after ∧
    start.line = pos.line ∧ start.column ≤ pos.column ∧
    ∀ t ∈ ts.tokens, t.position.line = start.line →
      t.position.column + t.text.length ≤ start.column

/-- The tokens of a source lie on it. -/
structure LieOn (ts : Tokens) (source : Text) : Prop where
  /-- The source ends just past its last line. -/
  stop : ∃ above last, source.lines = above ++ [last] ∧
    ts.stop = ⟨above.length + 1, last.length + 1⟩
  /-- The tokens follow each other and share no place. -/
  ordered : ts.tokens.Pairwise Token.Before
  /-- Each is a piece of the line at its place. -/
  slice : ∀ t ∈ ts.tokens, t.text ≠ [] ∧
    ∃ before after, source.StandsAt t.position before t.text after
  /-- Each goes on as long as tokens of its kind can. -/
  ends : ∀ t ∈ ts.tokens, ∀ before after, source.StandsAt t.position before t.text after →
    t.kind.EndsBefore after
  /-- What is in no token is blank or in a comment. -/
  covered : ∀ pos before p after, source.StandsAt pos before [p] after →
    (∃ t ∈ ts.tokens, t.Covers pos) ∨ p.isBlank = true ∨ ts.CommentedAt source pos
  /-- The text of a token says what it is and what its value is. -/
  spelled : ∀ t ∈ ts.tokens, ∀ kind : Token.Kind, kind.SpelledAs t.text ↔ kind = t.kind

section Sources

variable {source : Text} {tokens : List Token}

/-- Each token of the lines is spelled at its place in the source, and ends there. -/
theorem spelledAs_of_mem (h : OnLines 1 tokens source.lines) {t : Token} (ht : t ∈ tokens) :
    t.kind.SpelledAs t.text ∧ ∃ before after, source.StandsAt t.position before t.text after ∧
      t.kind.EndsBefore after := by
  obtain ⟨above, text, below, hlines, hline⟩ := h.exists_of_mem ht
  obtain ⟨here, hhere, hmem⟩ := h.exists_line hlines
  obtain ⟨hs, before, after, rfl, hpos, he⟩ := hhere.slice t ((hmem t).mpr ⟨ht, hline⟩)
  refine ⟨hs, before, after, ⟨above, below, hlines, ?_⟩, he⟩
  rw [hpos, Nat.add_comm, Nat.add_comm 1]

theorem covered_of_standsAt (h : OnLines 1 tokens source.lines) {pos : Position}
    {before after : Text} {p : CodePoint} (hp : source.StandsAt pos before [p] after)
    (stop : Position) :
    (∃ t ∈ tokens, t.Covers pos) ∨ p.isBlank = true ∨ CommentedAt ⟨tokens, stop⟩ source pos := by
  obtain ⟨above, below, hlines, rfl⟩ := hp
  obtain ⟨here, hhere, hmem⟩ := h.exists_line hlines
  have hline : before ++ [p] ++ after = before ++ p :: after := by simp
  refine (hhere.covered hline).imp ?_ (Or.imp_right ?_)
  · rintro ⟨t, ht, hleft, hright⟩
    obtain ⟨ht, htline⟩ := (hmem t).mp ht
    exact ⟨t, ht, htline.trans (Nat.add_comm ..), by rwa [Nat.add_comm] at hleft,
      by rwa [Nat.add_comm] at hright⟩
  · rintro ⟨start, behind, hcomment, hstart, htokens⟩
    refine ⟨⟨above.length + 1, start.length + 1⟩, start, behind, ⟨above, below, ?_, rfl⟩, rfl,
      Nat.succ_le_succ hstart, fun t ht htline => ?_⟩
    · rw [hlines, hcomment]
    · rw [Nat.add_comm start.length]
      exact htokens t ((hmem t).mpr ⟨ht, htline.trans (Nat.add_comm ..)⟩)

theorem lieOn_of_onLines (h : OnLines 1 tokens source.lines) :
    LieOn ⟨tokens, stopOf source.lines⟩ source where
  stop := by
    have hne := source.lines_ne_nil
    refine ⟨_, _, (List.dropLast_concat_getLast hne).symm, ?_⟩
    have hlength := List.length_pos_iff.mpr hne
    rw [stopOf, List.getLast?_eq_some_getLast hne, Option.getD_some, List.length_dropLast,
      Nat.sub_add_cancel hlength]
  ordered := h.ordered
  slice t ht := by
    obtain ⟨hs, before, after, hstands, -⟩ := spelledAs_of_mem h ht
    obtain ⟨p, behind, htext, -⟩ := hs.exists_cons
    exact ⟨htext ▸ List.cons_ne_nil _ _, before, after, hstands⟩
  ends t ht before after hstands := by
    obtain ⟨-, before', after', hstands', he⟩ := spelledAs_of_mem h ht
    obtain ⟨-, rfl⟩ := hstands.unique hstands'
    exact he
  covered pos before p after hp := covered_of_standsAt h hp _
  spelled t ht kind := by
    have hs := (spelledAs_of_mem h ht).1
    exact ⟨fun h => h.unique hs, fun h => h ▸ hs⟩

/-- A sign of one character is not followed by the equality sign. -/
theorem ne_equal_of_endsBefore {s : Symbol} (hs : s ∈ [.assign, .not, .less, .greater])
    {after : Text} (h : (Token.Kind.symbol s).EndsBefore after) :
    after.head? ≠ some (.scalar '=') := by
  intro hhead
  obtain ⟨rest, rfl⟩ : ∃ rest, after = .scalar '=' :: rest := by
    cases after with
    | nil => cases hhead
    | cons p rest =>
      cases hhead
      exact ⟨rest, rfl⟩
  have hlonger : ∃ longer : Symbol, Text.of longer.spelling = Text.of s.spelling ++ [.scalar '='] ∧
      s.spelling.length < longer.spelling.length := by
    simp only [List.mem_cons, List.not_mem_nil, or_false] at hs
    rcases hs with rfl | rfl | rfl | rfl
    · exact ⟨.equal, by decide⟩
    · exact ⟨.notEqual, by decide⟩
    · exact ⟨.lessEqual, by decide⟩
    · exact ⟨.greaterEqual, by decide⟩
  obtain ⟨longer, hspelling, hlt⟩ := hlonger
  exact Nat.not_lt.mpr (h longer ⟨rest, by rw [hspelling, List.append_assoc]; rfl⟩) hlt

end Sources

/-- **The scanner loses and invents nothing.** A source that is scanned is its lines with line feeds
between them, and its tokens lie on it: they are in order and share no place, each is the piece of
its line at its place and as long as it can be, its text says what it is and what its value is, and
what is in no token is blank or in a comment that starts outside all tokens. So the equality sign
never follows a sign that it would make longer. -/
theorem lieOn_of_scan {source : Text} {ts : Tokens} (h : scan source = .ok ts) :
    (Text.join [.scalar '\n'] source.lines = source ∧
      ∀ line ∈ source.lines, CodePoint.scalar '\n' ∉ line) ∧
    ts.LieOn source ∧
    ∀ t ∈ ts.tokens, ∀ s ∈ [Symbol.assign, .not, .less, .greater], t.kind = .symbol s →
      ∀ before after, source.StandsAt t.position before t.text after →
        after.head? ≠ some (.scalar '=') := by
  obtain ⟨tokens, htokens, rfl⟩ := Except.map_eq_ok_iff.mp h
  have hlie := lieOn_of_onLines (scanLines_eq_ok_iff.mp htokens)
  refine ⟨⟨source.join_lines, source.newline_notMem_lines⟩, hlie, ?_⟩
  intro t ht s hs hkind before after hstands
  have he := hlie.ends t ht before after hstands
  rw [hkind] at he
  exact ne_equal_of_endsBefore hs he

/-! ### Two slashes in a literal and two behind it -/

/-- A literal with slashes, a sign that goes on, and a comment; then one more line. -/
def slashes : Text := Text.of "a>=\"//\" // =\n7"

/-- The tokens of `slashes`. -/
def slashTokens : Tokens where
  tokens := [⟨.identifier, Text.of "a", ⟨1, 1⟩⟩, ⟨.symbol .greaterEqual, Text.of ">=", ⟨1, 2⟩⟩,
    ⟨.string (.ofScalars ['/', '/']), Text.of "\"//\"", ⟨1, 4⟩⟩,
    ⟨.number 7, Text.of "7", ⟨2, 1⟩⟩]
  stop := ⟨2, 2⟩

/-- The slashes in quotes are in a token, and those behind it start a comment up to the end of the
line. -/
theorem lieOn_of_scan_slashes : scan slashes = .ok slashTokens ∧ slashTokens.LieOn slashes := by
  have hscan : scan slashes = .ok slashTokens := by decide +kernel
  exact ⟨hscan, (lieOn_of_scan hscan).2.1⟩

end Tokens

end ScalarScript
