import ScalarScript.Proofs.Yaml.Characters

/-!
# Folded scalars

A scalar without quotes or in single quotes is folded at spaces that stand alone, and its own line
breaks are written out. Reading takes the folds away again; what it does not give back is U+0085.

* `Scans` says what a scan takes and where it ends. How much it passes matters to keys only.
* `FoldGap`, `PlainGap`: the gaps in which a scan can be in front of the rest of a folded text.
* `restoredFrom` is what is left of a text in single quotes.

Results:
* **`quotedFrom_foldFrom`**: what single quotes give back.
* **`plainFrom_foldFrom`**: a text without quotes is read back wherever it is folded.
* `restoredFrom_eq_self_iff`: single quotes lose a text exactly if it holds U+0085.
-/

namespace ScalarScript.Yaml

/-- Whether a scan takes the text `t` and ends at `c`. -/
def Scans (t : Text) (c : Cursor) (s : Option Scanned) : Prop :=
  ∃ crossed size, s = some ⟨t, crossed, size, c⟩

namespace Scans

variable {t : Text} {c : Cursor} {s : Option Scanned}

theorem passing (n : Nat) (h : Scans t c s) : Scans t c (s.map (Scanned.passing n)) := by
  obtain ⟨crossed, size, rfl⟩ := h
  exact ⟨crossed, n + size, rfl⟩

theorem after (g : Gap) (u : Text) (n : Nat) (h : Scans t c s) :
    Scans (g.text ++ u ++ t) c (s.map fun s => s.after g u n) := by
  obtain ⟨crossed, size, rfl⟩ := h
  exact ⟨g.crossed || crossed, n + size, rfl⟩

theorem ending (g : Gap) (n : Nat) (c : Cursor) : Scans g.text c (some (Scanned.ending g n c)) :=
  ⟨g.crossed, n, rfl⟩

end Scans

/-! ## Passing gaps -/

section Passing

variable {double : Bool} {g : Gap} {p : CodePoint} {t : Text}

theorem isBlank_of_isBreak (h : isBreak p = true) : isBlank p = false := by
  rw [isBlank, is_eq_false_of_isBreak h (by decide), is_eq_false_of_isBreak h (by decide)]
  rfl

theorem quotedFrom_blank (h : isBlank p = true) : quotedFrom double g (p :: t) =
    (quotedFrom double (g.blank p) t).map (Scanned.passing 1) := by
  rw [quotedFrom.eq_def double g (p :: t)]
  exact if_pos h

theorem quotedFrom_break (h : isBreak p = true) : quotedFrom double g (p :: t) =
    (quotedFrom double (g.lineBreak p) t).map (Scanned.passing 1) := by
  have hmarker : startsWithMarker (p :: t) = false := not_startsWithMarker_cons
    (is_eq_false_of_isBreak h (by decide)) (is_eq_false_of_isBreak h (by decide)) t
  rw [quotedFrom.eq_def double g (p :: t)]
  simp only
  rw [isBlank_of_isBreak h, if_neg Bool.false_ne_true, hmarker, Bool.and_false,
    if_neg Bool.false_ne_true, if_pos h]

/-- A character that means nothing between the quotes stands for itself. -/
theorem Scans.quotedFrom_char {x : Text} {c : Cursor} (hblank : isBlank p = false)
    (hbreak : isBreak p = false) (hg : g.column? ≠ some 0)
    (hsingle : (p.is '\'' && !double) = false)
    (hdouble : (p.is '"' && double) = false) (hescape : (p.is '\\' && double) = false)
    (h : Scans x c (quotedFrom double .none t)) :
    Scans (g.text ++ [p] ++ x) c (quotedFrom double g (p :: t)) := by
  have hcolumn : (g.column? == some 0) = false := beq_eq_false_iff_ne.mpr hg
  rw [quotedFrom.eq_def double g (p :: t)]
  simp only [hblank, hcolumn, hbreak, hsingle, hdouble, hescape, Bool.false_and, Bool.false_eq_true,
    if_false]
  exact h.after g [p] 1

/-- The gap with some more spaces passed. -/
def Gap.spaces (k : Nat) : Gap → Gap
  | blanks t => blanks (t ++ pad k)
  | lines first more column => lines first more (column + k)
  | joined more column => joined more (column + k)

theorem Gap.spaces_succ (k : Nat) (g : Gap) :
    g.spaces (k + 1) = (g.blank (.scalar ' ')).spaces k := by
  cases g with
  | blanks t => exact congrArg blanks (by rw [pad_succ, List.append_cons])
  | lines first more column => exact congrArg (lines first more) (Nat.add_right_comm column k 1)
  | joined more column => exact congrArg (joined more) (Nat.add_right_comm column k 1)

theorem Gap.spaces_zero (g : Gap) : g.spaces 0 = g := by
  cases g with
  | blanks t => exact congrArg blanks (List.append_nil t)
  | lines first more column => rfl
  | joined more column => rfl

/-- Spaces are passed. -/
theorem Scans.quotedFrom_pad {x : Text} {c : Cursor} (k : Nat)
    (h : Scans x c (quotedFrom double (g.spaces k) t)) :
    Scans x c (quotedFrom double g (pad k ++ t)) := by
  induction k generalizing g with
  | zero => rwa [Gap.spaces_zero] at h
  | succ k ih =>
    rw [Gap.spaces_succ] at h
    rw [pad_succ, List.cons_append, quotedFrom_blank (by decide)]
    exact (ih h).passing 1

/-- A new line is passed. -/
theorem Scans.quotedFrom_newLine {x : Text} {c : Cursor} {s : Text} (k : Nat)
    (h : Scans x c (quotedFrom double (.lines (.scalar '\n') [] k) t)) :
    Scans x c (quotedFrom double (.blanks s) (newLine k ++ t)) := by
  rw [newLine, List.cons_append, quotedFrom_break (by decide)]
  refine Scans.passing 1 (Scans.quotedFrom_pad k ?_)
  show Scans x c (quotedFrom double (.lines (.scalar '\n') [] (0 + k)) t)
  rwa [Nat.zero_add]

variable {x : Text} {c : Cursor}

theorem Scans.quotedFrom_quote (hg : g.column? ≠ some 0)
    (h : Scans x c (quotedFrom false .none t)) :
    Scans (g.text ++ [.scalar '\''] ++ x) c
      (quotedFrom false g (.scalar '\'' :: .scalar '\'' :: t)) := by
  have hcolumn : (g.column? == some 0) = false := beq_eq_false_iff_ne.mpr hg
  rw [quotedFrom.eq_def false g (.scalar '\'' :: .scalar '\'' :: t)]
  have hblank : isBlank (.scalar '\'') = false := by decide
  have hbreak : isBreak (.scalar '\'') = false := by decide
  have hquote : (CodePoint.scalar '\'').is '\'' = true := by decide
  simp only [hblank, hcolumn, hbreak, hquote, Bool.false_and, Bool.false_eq_true, if_false,
    Bool.not_false, Bool.and_true, if_true]
  exact h.after g [.scalar '\''] 2

/-- A closing single quote, which no other quote follows. -/
theorem Scans.quotedFrom_close (hg : g.column? ≠ some 0) (h : t.head?.any (·.is '\'') = false) :
    Scans g.text ⟨t, none⟩ (quotedFrom false g (.scalar '\'' :: t)) := by
  have hcolumn : (g.column? == some 0) = false := beq_eq_false_iff_ne.mpr hg
  rw [quotedFrom.eq_def false g (.scalar '\'' :: t)]
  have hblank : isBlank (.scalar '\'') = false := by decide
  have hbreak : isBreak (.scalar '\'') = false := by decide
  have hquote : (CodePoint.scalar '\'').is '\'' = true := by decide
  simp only [hblank, hcolumn, hbreak, hquote, Bool.false_and, Bool.false_eq_true, if_false,
    Bool.not_false, Bool.and_true, if_true]
  split
  · cases h
  · exact .ending g 1 _

end Passing

/-! ## Between single quotes -/

/-- What single quotes give back of a text, `inRun` behind a line break. U+0085 becomes a line feed;
where it begins a run of breaks it is lost, and where it stands alone it becomes a space. -/
def restoredFrom (inRun : Bool) : Text → Text
  | [] => []
  | p :: rest =>
    if isBreak p then
      (if p.is '\u0085' && !inRun then (if rest.head?.any isBreak then [] else [.scalar ' '])
        else [lineFeed p]) ++ restoredFrom true rest
    else p :: restoredFrom false rest

/-- The gaps in front of what is left of a folded text: spaces, the fold of a space, or the line
breaks of the text itself, which end where no break follows. -/
inductive FoldGap : Option CodePoint → Text → Gap → Prop
  | none {previous : Option CodePoint} {t : Text} (h : previous.any isBreak = false) :
    FoldGap previous t .none
  | blanks {t : Text} (s : Text) (h : t.head?.any isBreak = false) :
    FoldGap (some (.scalar ' ')) t (.blanks s)
  | lines {previous : Option CodePoint} {t : Text} (first : CodePoint) (more : Text) {column : Nat}
    (hc : column ≠ 0) (hb : t.head?.any isBreak = false) (hs : t.head?.any (·.is ' ') = false) :
    FoldGap previous t (.lines first more column)
  | run {previous : Option CodePoint} {t : Text} (first : CodePoint) (more : Text)
    (hp : previous.any isBreak = true) (hb : t.head?.any isBreak = true) :
    FoldGap previous t (.lines first more 0)

/-- What a gap stands for in front of what is left of a text. A single line feed stands for nothing
where more breaks follow. -/
def Gap.textBefore (t : Text) : Gap → Text
  | lines first [] column =>
    if first.is '\n' && t.head?.any isBreak then [] else (lines first [] column).text
  | g => g.text

theorem Gap.textBefore_of_head (t : Text) (h : t.head?.any isBreak = false) (g : Gap) :
    g.textBefore t = g.text := by
  unfold textBefore
  split
  · rw [h, Bool.and_false, if_neg Bool.false_ne_true]
  · rfl

/-- One more break in a run. -/
theorem Gap.textBefore_concat {first q : CodePoint} {more t : Text}
    (h : t.head?.any isBreak = true) (u : Text) (column column' : Nat) :
    (lines first (more ++ [q]) column).textBefore u =
      (lines first more column').textBefore t ++ [q] := by
  cases more with
  | nil =>
    by_cases hfirst : first.is '\n' = true
    · simp [textBefore, text, hfirst, h]
    · simp [textBefore, text, hfirst]
  | cons r more =>
    by_cases hfirst : first.is '\n' = true
    · simp [textBefore, text, hfirst]
    · simp [textBefore, text, hfirst]

/-- The first break that has been passed. A line feed would stand for itself twice. -/
theorem Gap.textBefore_lineFeed {p : CodePoint} (hp : p.is '\n' = false) (t : Text)
    (column : Nat) :
    (lines (lineFeed p) [] column).textBefore t =
      if p.is '\u0085' then (if t.head?.any isBreak then [] else [.scalar ' '])
        else [lineFeed p] := by
  unfold lineFeed
  by_cases hnext : p.is '\u0085' = true
  · -- U+0085 is read as a single line feed
    rw [if_pos hnext, if_pos hnext]
    by_cases hb : t.head?.any isBreak = true
    · rw [if_pos hb, textBefore, hb]
      rfl
    · rw [if_neg hb, textBefore_of_head t (by rwa [Bool.not_eq_true] at hb)]
      rfl
  · rw [if_neg hnext, if_neg hnext, textBefore, hp, Bool.false_and, if_neg Bool.false_ne_true,
      text, hp]
    rfl

theorem Gap.textBefore_lines (first : CodePoint) (more t : Text) (column column' : Nat) :
    (lines first more column).textBefore t = (lines first more column').textBefore t := by
  cases more <;> rfl

section SingleQuotes

variable {previous : Option CodePoint} {p : CodePoint} {t rest : Text} {g : Gap}
  {indent column : Nat}

theorem FoldGap.column?_ne (h : FoldGap previous t g) (hb : t.head?.any isBreak = false) :
    g.column? ≠ some 0 := by
  cases h with
  | none | blanks => exact nofun
  | lines first more hc _ _ => exact fun h => hc (Option.some.inj h)
  | run first more _ hb' =>
    rw [hb] at hb'
    cases hb'

/-- In front of a space no break has been passed, and nothing at all unless spaces precede it. -/
theorem FoldGap.blanks_of_space (h : FoldGap previous (.scalar ' ' :: t) g) :
    ∃ s, g = .blanks s ∧ (previous = some (.scalar ' ') ∨ s = []) := by
  cases h with
  | none _ => exact ⟨[], rfl, .inr rfl⟩
  | blanks s _ => exact ⟨s, rfl, .inl rfl⟩
  | lines _ _ _ _ hs => cases hs
  | run _ _ _ hb => cases hb

/-- What is read of a code point that is no break. -/
theorem restoredFrom_cons (inRun : Bool) (hp : isBreak p = false) (t : Text) :
    restoredFrom inRun (p :: t) = p :: restoredFrom ((some p).any isBreak) t := by
  rw [restoredFrom, hp, if_neg Bool.false_ne_true, Option.any_some, hp]

/-- What is written of a character that is neither a space nor a break. -/
theorem foldFrom_cons (quoting : Bool) (hp : isBreak p = false) (hs : p.is ' ' = false) (t : Text) :
    foldFrom quoting indent previous column (p :: t) =
      if p.is '\'' && quoting then p :: p :: foldFrom quoting indent (some p) (column + 2) t
      else p :: foldFrom quoting indent (some p) (column + 1) t := by
  rw [foldFrom, hp, if_neg Bool.false_ne_true, hs, Bool.false_and, Bool.false_and, Bool.false_and,
    if_neg Bool.false_ne_true]

theorem mem_foldFrom {quoting : Bool} {q : CodePoint}
    (h : q ∈ foldFrom quoting indent previous column t) : q ∈ t ∨ isVerbatim q = true := by
  have hpad : ∀ q ∈ pad indent, isVerbatim q = true := fun q hq =>
    isVerbatim_of_mem_newLine (List.mem_cons_of_mem _ hq)
  induction t generalizing previous column with
  | nil => cases h
  | cons p t ih =>
    have hrest {previous : Option CodePoint} {column : Nat}
        (h : q ∈ foldFrom quoting indent previous column t) : q ∈ p :: t ∨ isVerbatim q = true :=
      (ih h).imp_left (List.mem_cons_of_mem p)
    rw [foldFrom] at h
    split at h
    · rcases List.mem_append.mp h with h | h
      · split at h
        · exact .inl (List.mem_singleton.mp h ▸ List.mem_cons_self)
        · cases h
      · rcases List.mem_cons.mp h with rfl | h
        · exact .inl List.mem_cons_self
        · split at h
          · exact hrest h
          · exact (List.mem_append.mp h).elim (fun h => .inr (hpad q h)) hrest
    · split at h
      · exact (List.mem_append.mp h).elim (fun h => .inr (isVerbatim_of_mem_newLine h)) hrest
      · split at h
        · rcases List.mem_cons.mp h with rfl | h
          · exact .inl List.mem_cons_self
          · rcases List.mem_cons.mp h with rfl | h
            · exact .inl List.mem_cons_self
            · exact hrest h
        · rcases List.mem_cons.mp h with rfl | h
          · exact .inl List.mem_cons_self
          · exact hrest h

/-- Whether a text in single quotes is read back, up to what is lost, from every gap. -/
def SinglyRead (indent : Nat) (rest t : Text) : Prop :=
  ∀ (previous : Option CodePoint) (column : Nat) (g : Gap), FoldGap previous t g →
    Scans (g.textBefore t ++ restoredFrom (previous.any isBreak) t) ⟨rest, none⟩
      (quotedFrom false g
        ((foldFrom true indent previous column t).map lineFeed ++ .scalar '\'' :: rest))

namespace SinglyRead

theorem nil (hrest : rest.head?.any (·.is '\'') = false) : SinglyRead indent rest [] := by
  intro previous column g hg
  rw [Gap.textBefore_of_head [] rfl, restoredFrom, List.append_nil]
  exact Scans.quotedFrom_close (hg.column?_ne rfl) hrest

/-- Line breaks that have been passed, and what is written behind the last of them. -/
theorem behindBreak (hi : indent ≠ 0) (hp : isBreak p = true)
    (hs : t.head?.any (·.is ' ') = false) (ih : SinglyRead indent rest t) (first : CodePoint)
    (more : Text) :
    Scans ((Gap.lines first more 0).textBefore t ++ restoredFrom true t) ⟨rest, none⟩
      (quotedFrom false (.lines first more 0)
        ((if t.head?.any isBreak then foldFrom true indent (some p) 0 t
          else pad indent ++ foldFrom true indent (some p) indent t).map lineFeed ++
            .scalar '\'' :: rest)) := by
  have hbehind := ih (some p)
  rw [Option.any_some, hp] at hbehind
  by_cases hb : t.head?.any isBreak = true
  · rw [if_pos hb]
    exact hbehind 0 _ (.run first more hp hb)
  · rw [if_neg hb, List.map_append, map_lineFeed_pad, List.append_assoc,
      Gap.textBefore_lines first more t 0 (0 + indent)]
    refine Scans.quotedFrom_pad indent (hbehind indent _ (.lines first more ?_ ?_ hs))
    · rwa [Nat.zero_add]
    · rwa [Bool.not_eq_true] at hb

theorem cons_break (hi : indent ≠ 0) (hp : isBreak p = true) (hs : t.head?.any (·.is ' ') = false)
    (ih : SinglyRead indent rest t) : SinglyRead indent rest (p :: t) := by
  intro previous column g hg
  have hhead : (p :: t).head?.any isBreak = true := hp
  have hread := isBreak_lineFeed hp
  rw [foldFrom, if_pos hp, restoredFrom, if_pos hp]
  cases hg with
  | lines _ _ _ hb _ =>
    rw [hhead] at hb
    cases hb
  | blanks _ hb =>
    rw [hhead] at hb
    cases hb
  | run first more hprevious _ =>
    -- the run goes on: one more break is kept
    rw [hprevious, Bool.not_true, Bool.and_false, if_neg Bool.false_ne_true, Bool.and_false,
      if_neg Bool.false_ne_true, ← List.append_assoc,
      ← Gap.textBefore_concat hhead t 0 0]
    simp only [List.nil_append, List.map_cons, List.cons_append]
    rw [quotedFrom_break hread]
    exact Scans.passing 1 (behindBreak hi hp hs ih first (more ++ [lineFeed p]))
  | none hprevious =>
    rw [hprevious, Bool.not_false, Bool.and_true, Bool.and_true]
    by_cases hfeed : p.is '\n' = true
    · -- a line feed is written twice, and the first of the two is folded away
      obtain rfl := CodePoint.eq_of_is hfeed
      rw [if_pos hfeed, if_neg (by decide)]
      simp only [List.nil_append, List.map_cons, List.cons_append]
      rw [quotedFrom_break hread]
      refine Scans.passing 1 ?_
      rw [quotedFrom_break hread]
      exact Scans.passing 1 (behindBreak hi hp hs ih (.scalar '\n') [.scalar '\n'])
    · have hbehind := behindBreak hi hp hs ih (lineFeed p) []
      rw [if_neg hfeed, ← Gap.textBefore_lineFeed (by rwa [Bool.not_eq_true] at hfeed) t 0]
      simp only [List.nil_append, List.map_cons, List.cons_append]
      rw [quotedFrom_break hread]
      exact Scans.passing 1 hbehind

theorem cons_space (hi : indent ≠ 0) (ht : t.head?.any isBreak = false)
    (ih : SinglyRead indent rest t) :
    SinglyRead indent rest (.scalar ' ' :: t) := by
  intro previous column g hg
  have hhead : (CodePoint.scalar ' ' :: t).head?.any isBreak = false := rfl
  have hspace : (CodePoint.scalar ' ').is ' ' = true := by decide
  have hquote : (CodePoint.scalar ' ').is '\'' = false := by decide
  obtain ⟨s, rfl, hs⟩ := hg.blanks_of_space
  rw [Gap.textBefore_of_head _ hhead, restoredFrom_cons _ not_isBreak_space, foldFrom,
    not_isBreak_space, if_neg Bool.false_ne_true, hspace, Bool.true_and]
  split
  · next hfold =>
    -- the space becomes a line break; none has been passed in front of it
    simp only [Bool.and_eq_true] at hfold
    obtain ⟨⟨hprevious, hnext⟩, -⟩ := hfold
    have hnot : t.head?.any (·.is ' ') = false := by
      cases t with
      | nil => rfl
      | cons q t => simpa using hnext
    obtain rfl : s = [] := hs.resolve_left fun h => by
      rw [h] at hprevious
      cases hprevious
    rw [List.map_append, map_lineFeed_newLine, List.append_assoc]
    have hbehind := ih (some (.scalar ' ')) indent _ (.lines (.scalar '\n') [] hi ht hnot)
    rw [Gap.textBefore_of_head t ht] at hbehind
    exact Scans.quotedFrom_newLine indent hbehind
  · have hbehind := ih (some (.scalar ' ')) (column + 1) _ (.blanks (s ++ [.scalar ' ']) ht)
    rw [Gap.textBefore_of_head t ht] at hbehind
    rw [hquote, Bool.false_and, if_neg Bool.false_ne_true, List.map_cons, List.cons_append,
      lineFeed_of_not_isBreak not_isBreak_space, quotedFrom_blank (by decide), List.append_cons]
    exact Scans.passing 1 hbehind

theorem cons_char (hp : isBreak p = false) (hs : isBlank p = false)
    (ih : SinglyRead indent rest t) :
    SinglyRead indent rest (p :: t) := by
  intro previous column g hg
  have hhead : (p :: t).head?.any isBreak = false := hp
  have hcolumn := hg.column?_ne hhead
  have hspace : p.is ' ' = false := by
    simp only [isBlank, Bool.or_eq_false_iff] at hs
    exact hs.1
  have hbehind (column : Nat) := ih (some p) column .none (.none (by simpa using hp))
  rw [Gap.textBefore_of_head _ hhead, restoredFrom_cons _ hp, foldFrom_cons true hp hspace,
    Bool.and_true, List.append_cons]
  by_cases hquote : p.is '\'' = true
  · obtain rfl := CodePoint.eq_of_is hquote
    rw [if_pos hquote]
    exact Scans.quotedFrom_quote hcolumn (hbehind (column + 2))
  · rw [Bool.not_eq_true] at hquote
    rw [hquote, if_neg Bool.false_ne_true, List.map_cons, lineFeed_of_not_isBreak hp]
    refine Scans.quotedFrom_char hs hp hcolumn ?_ (Bool.and_false _) (Bool.and_false _)
      (hbehind (column + 1))
    rw [hquote, Bool.false_and]

end SinglyRead

/-- A text that needs no escapes is read back from single quotes, up to what is lost. -/
theorem singlyRead (hi : indent ≠ 0) (hrest : rest.head?.any (·.is '\'') = false)
    (h : needsEscapes t = false) : SinglyRead indent rest t := by
  induction t with
  | nil => exact .nil hrest
  | cons p t ih =>
    obtain ⟨hp, ht, hspace, hbreak⟩ := needsEscapes_cons h
    by_cases hb : isBreak p = true
    · exact .cons_break hi hb (hbreak hb) (ih ht)
    · rw [Bool.not_eq_true] at hb
      by_cases hs : p.is ' ' = true
      · have hnext := hspace hs
        obtain rfl := CodePoint.eq_of_is hs
        exact .cons_space hi hnext (ih ht)
      · rw [Bool.not_eq_true] at hs
        exact .cons_char hb ((isBlank_eq hp).trans hs) (ih ht)

/-- **What single quotes give back** of a text that needs no escapes. -/
theorem quotedFrom_foldFrom (hi : indent ≠ 0) (hrest : rest.head?.any (·.is '\'') = false)
    (h : needsEscapes t = false) (column : Nat) :
    Scans (restoredFrom false t) ⟨rest, none⟩ (quotedFrom false .none
      ((foldFrom true indent none column t).map lineFeed ++ .scalar '\'' :: rest)) :=
  singlyRead hi hrest h none column .none (.none rfl)

theorem mem_restoredFrom {inRun : Bool} (h : p ∈ restoredFrom inRun t) :
    (p ∈ t ∧ p.is '\u0085' = false) ∨ p = .scalar ' ' ∨ p = .scalar '\n' := by
  induction t generalizing inRun with
  | nil => cases h
  | cons q t ih =>
    have hrest : ∀ {inRun : Bool}, p ∈ restoredFrom inRun t →
        (p ∈ q :: t ∧ p.is '\u0085' = false) ∨ p = .scalar ' ' ∨ p = .scalar '\n' := fun h =>
      (ih h).imp_left (And.imp_left (List.mem_cons_of_mem q))
    rw [restoredFrom] at h
    split at h
    · rcases List.mem_append.mp h with h | h
      · split at h
        · split at h
          · cases h
          · exact .inr (.inl (List.mem_singleton.mp h))
        · rw [List.mem_singleton, lineFeed] at h
          split at h
          · exact .inr (.inr h)
          · next hnext =>
            subst h
            exact .inl ⟨List.mem_cons_self, by rwa [Bool.not_eq_true] at hnext⟩
      · exact hrest h
    · next hbreak =>
      rcases List.mem_cons.mp h with rfl | h
      · refine .inl ⟨List.mem_cons_self, ?_⟩
        simp only [isBreak, Bool.or_eq_true, not_or, Bool.not_eq_true] at hbreak
        exact hbreak.1.1.2
      · exact hrest h

theorem restoredFrom_of_forall (h : ∀ p ∈ t, p.is '\u0085' = false) (inRun : Bool) :
    restoredFrom inRun t = t := by
  induction t generalizing inRun with
  | nil => rfl
  | cons p t ih =>
    obtain ⟨hp, ht⟩ := List.forall_mem_cons.mp h
    rw [restoredFrom, hp, Bool.false_and, if_neg Bool.false_ne_true, ih ht, ih ht, lineFeed, hp,
      if_neg Bool.false_ne_true, List.singleton_append, ite_self]

/-- **Single quotes lose a text exactly if it holds U+0085.** -/
theorem restoredFrom_eq_self_iff : restoredFrom false t = t ↔ .scalar '\u0085' ∉ t := by
  constructor
  · intro h hmem
    rw [← h] at hmem
    rcases mem_restoredFrom hmem with ⟨-, hmem⟩ | hmem | hmem
    · cases hmem
    · cases hmem
    · cases hmem
  · intro h
    refine restoredFrom_of_forall (fun p hp => ?_) false
    refine Bool.eq_false_iff.mpr fun hnext => h ?_
    rwa [CodePoint.eq_of_is hnext] at hp

end SingleQuotes

/-! ## Without quotes -/

section Plain

variable {least : Nat} {g : Gap} {p : CodePoint} {x t rest : Text} {c : Cursor}

theorem plainFrom_space :
    plainFrom false least g (.scalar ' ' :: t) =
      (plainFrom false least (g.blank (.scalar ' ')) t).passing 1 := rfl

theorem plainFrom_break (h : isBreak p = true) :
    plainFrom false least g (p :: t) = (plainFrom false least (g.lineBreak p) t).passing 1 := by
  rw [plainFrom, is_eq_false_of_isBreak h (by decide), if_neg Bool.false_ne_true, if_pos h]

theorem plainFrom_char (hs : p.is ' ' = false) (hb : isBreak p = false)
    (h : goesOn false least g p t = true) :
    plainFrom false least g (p :: t) = (plainFrom false least .none t).after g [p] 1 := by
  rw [plainFrom, hs, if_neg Bool.false_ne_true, hb, if_neg Bool.false_ne_true, if_pos h]

theorem Scans.plainFrom_pad (k : Nat)
    (h : Scans x c (some (plainFrom false least (g.spaces k) t))) :
    Scans x c (some (plainFrom false least g (pad k ++ t))) := by
  induction k generalizing g with
  | zero => rwa [Gap.spaces_zero] at h
  | succ k ih =>
    rw [Gap.spaces_succ] at h
    exact (ih h).passing 1

theorem Scans.plainFrom_newLine {s : Text} (k : Nat)
    (h : Scans x c (some (plainFrom false least (.lines (.scalar '\n') [] k) t))) :
    Scans x c (some (plainFrom false least (.blanks s) (newLine k ++ t))) := by
  rw [newLine, List.cons_append, plainFrom_break (by decide)]
  refine Scans.passing 1 (Scans.plainFrom_pad k ?_)
  show Scans x c (some (plainFrom false least (.lines (.scalar '\n') [] (0 + k)) t))
  rwa [Nat.zero_add]

/-- The relation between neighbours in which a mark stands inside a text. -/
def isMarkAt (p q : CodePoint) : Bool := (p.is ':' && isSpace q) || (isSpace p && q.is '#')

/-- Text that a plain scalar may hold: spaces inside and no marks. -/
structure PlainText (t : Text) : Prop where
  special : ∀ p ∈ t, isSpecial p = false
  breaks : ∀ p ∈ t, isBreak p = false
  marks : anyNeighbours isMarkAt t = false
  colon : t.getLast?.any (·.is ':') = false
  last : t.getLast?.any (·.is ' ') = false

theorem PlainText.tail (h : PlainText (p :: t)) : PlainText t := by
  cases t with
  | nil => exact ⟨nofun, nofun, rfl, rfl, rfl⟩
  | cons q t =>
    obtain ⟨hspecial, hbreaks, hmarks, hcolon, hlast⟩ := h
    simp only [anyNeighbours, Bool.or_eq_false_iff] at hmarks
    exact ⟨(List.forall_mem_cons.mp hspecial).2, (List.forall_mem_cons.mp hbreaks).2, hmarks.2,
      hcolon, hlast⟩

/-- The gaps in front of what is left of a text without quotes: spaces, or the fold of one. -/
inductive PlainGap (indent : Nat) : Option CodePoint → Text → Gap → Prop
  | none {previous : Option CodePoint} {t : Text} : PlainGap indent previous t .none
  | blanks {q : CodePoint} {t : Text} (s : Text) (hq : q.is '#' = false) :
    PlainGap indent (some (.scalar ' ')) (q :: t) (.blanks s)
  | line {q : CodePoint} {t : Text} (hq : q.is '#' = false) (hs : q.is ' ' = false) :
    PlainGap indent (some (.scalar ' ')) (q :: t) (.lines (.scalar '\n') [] indent)

variable {indent column : Nat} {previous : Option CodePoint}

/-- In front of a space no line has been folded, and nothing passed unless spaces precede it. -/
theorem PlainGap.blanks_of_space (h : PlainGap indent previous (.scalar ' ' :: t) g) :
    ∃ s, g = .blanks s ∧ (previous = some (.scalar ' ') ∨ s = []) := by
  cases h with
  | none => exact ⟨[], rfl, .inr rfl⟩
  | blanks s _ => exact ⟨s, rfl, .inl rfl⟩
  | line _ hs => cases hs

/-- Folding puts no space in front of a text. -/
theorem startsWithSpace_foldFrom (h : startsWithSpace t = false) :
    startsWithSpace (foldFrom false indent previous column t ++ rest) = false := by
  cases t with
  | nil => cases h
  | cons q t =>
    have hq : isSpace q = false := h
    have hparts := hq
    simp only [isSpace, isBlank, Bool.or_eq_false_iff] at hparts
    obtain ⟨⟨⟨⟨hspace, -⟩, -⟩, -⟩, hbreak⟩ := hparts
    rw [foldFrom_cons false hbreak hspace, Bool.and_false, if_neg Bool.false_ne_true]
    exact hq

/-- No plain scalar ends at a character of a plain text. -/
theorem endsPlain_eq_false (h : PlainText (p :: t)) (hs : p.is ' ' = false) (indent column : Nat)
    (rest : Text) :
    endsPlain false p (foldFrom false indent (some p) column t ++ rest) = false := by
  have hspace : isSpace p = false := by
    rw [isSpace_eq (h.special p List.mem_cons_self), hs, h.breaks p List.mem_cons_self]
    rfl
  rw [endsPlain, hspace, Bool.false_and, Bool.false_and, Bool.or_false, Bool.or_false,
    Bool.false_or]
  by_cases hcolon : p.is ':' = true
  · rw [hcolon, Bool.true_and]
    cases t with
    | nil =>
      have hlast : p.is ':' = false := h.colon
      rw [hlast] at hcolon
      cases hcolon
    | cons q t =>
      have hmarks := h.marks
      simp only [anyNeighbours, isMarkAt, hcolon, Bool.true_and, Bool.or_eq_false_iff] at hmarks
      have hq : startsWithSpace (q :: t) = false := hmarks.1.1
      exact startsWithSpace_foldFrom hq
  · rw [Bool.not_eq_true] at hcolon
    rw [hcolon, Bool.false_and]

theorem goesOn_of_plainGap (hg : PlainGap indent previous (p :: t) g) (hi : indent ≠ 0)
    (hl : least ≤ indent) {u : Text} (h : endsPlain false p u = false) :
    goesOn false least g p u = true := by
  unfold goesOn
  rw [h]
  cases hg with
  | none => rfl
  | blanks s hq =>
    cases s with
    | nil => rfl
    | cons r s => simp [hq]
  | line hq _ => simp [hq, hl, hi]

/-- A text without quotes is read back from every gap, if what is behind it ends it. -/
theorem plainFrom_foldFrom_of_gap (hi : indent ≠ 0) (hl : least ≤ indent)
    (hrest : Scans [] c (some (plainFrom false least .none rest))) (h : PlainText t)
    (hg : PlainGap indent previous t g) (column : Nat) :
    Scans (g.text ++ t) c
      (some (plainFrom false least g (foldFrom false indent previous column t ++ rest))) := by
  induction t generalizing previous g column with
  | nil =>
    cases hg
    exact hrest
  | cons p t ih =>
    have hbreak : isBreak p = false := h.breaks p List.mem_cons_self
    by_cases hs : p.is ' ' = true
    · obtain rfl := CodePoint.eq_of_is hs
      obtain ⟨q, u, rfl⟩ : ∃ q u, t = q :: u := by
        cases t with
        | nil => cases h.last
        | cons q u => exact ⟨q, u, rfl⟩
      have hq : q.is '#' = false := by
        have hmarks := h.marks
        rw [anyNeighbours, Bool.or_eq_false_iff] at hmarks
        exact hmarks.1
      have hquote : (CodePoint.scalar ' ').is '\'' = false := by decide
      obtain ⟨s, rfl, hgap⟩ := hg.blanks_of_space
      rw [foldFrom, not_isBreak_space, if_neg Bool.false_ne_true, hs, Bool.true_and]
      split
      · next hfold =>
        simp only [Bool.and_eq_true] at hfold
        obtain ⟨⟨hprevious, hnext⟩, -⟩ := hfold
        obtain rfl : s = [] := hgap.resolve_left fun h => by
          rw [h] at hprevious
          cases hprevious
        have hnot : q.is ' ' = false := by simpa using hnext
        rw [List.append_assoc]
        exact Scans.plainFrom_newLine indent (ih h.tail (.line hq hnot) indent)
      · have hbehind := ih h.tail (.blanks (s ++ [.scalar ' ']) hq) (column + 1)
        rw [hquote, Bool.false_and, if_neg Bool.false_ne_true, List.cons_append, plainFrom_space,
          List.append_cons]
        exact hbehind.passing 1
    · rw [Bool.not_eq_true] at hs
      have hends := endsPlain_eq_false h hs indent (column + 1) rest
      rw [foldFrom_cons false hbreak hs, Bool.and_false, if_neg Bool.false_ne_true,
        List.cons_append, plainFrom_char hs hbreak (goesOn_of_plainGap hg hi hl hends),
        List.append_cons]
      exact (ih h.tail .none (column + 1)).after g [p] 1

/-- **A text without quotes is read back**, wherever it is folded. -/
theorem plainFrom_foldFrom (hi : indent ≠ 0) (hl : least ≤ indent)
    (hrest : Scans [] c (some (plainFrom false least .none rest))) (h : PlainText t)
    (column : Nat) :
    Scans t c (some (plainFrom false least .none (foldFrom false indent none column t ++ rest))) :=
  plainFrom_foldFrom_of_gap hi hl hrest h .none column

end Plain

end ScalarScript.Yaml
