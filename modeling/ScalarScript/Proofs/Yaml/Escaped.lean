import ScalarScript.Proofs.Text.Hexadecimal
import ScalarScript.Proofs.Yaml.Folding

/-!
# Scalars in double quotes

Between double quotes every code point can be written, and lines are broken at spaces and behind
escapes. A break is escaped itself, so that it counts for nothing.

* Where an escape is followed by a space and the line is broken between them, the space is escaped
  as well. If even the first column of the new line is past `width`, the line is broken once more
  in front of that space, and the backslash that was to escape the space escapes a backslash.

Results:
* **`quotedFrom_doubleFrom`**: but for this, double quotes give back every text.
* **`Scans.quotedFrom_brokenTwice`**: what they give back where it happens.
-/

namespace ScalarScript.Yaml

variable {p : CodePoint} {e : Text}

/-- The letters of the escapes by number, and how many digits follow them. -/
def numberedEscapes : List (Char × Nat) := [('x', 2), ('u', 4), ('U', 8)]

/-- An escape is a letter behind a backslash, or the number of the code point. -/
theorem escape?_cases (h : escape? p = some e) :
    (∃ c d, (c, d) ∈ shortEscapes ∧ p = .scalar c ∧ e = [.scalar '\\', .scalar d]) ∨
      ∃ q w, (q, w) ∈ numberedEscapes ∧ (Text.upperHex w p.toNat).length = w ∧
        e = .scalar '\\' :: .scalar q :: Text.upperHex w p.toNat := by
  unfold escape? at h
  split at h
  · next cd hcd =>
    have hp : p.is cd.1 = true := by simpa using List.find?_some hcd
    exact .inl ⟨cd.1, cd.2, List.mem_of_find?_eq_some hcd, CodePoint.eq_of_is hp,
      (Option.some.inj h).symm⟩
  · refine .inr ?_
    simp only at h
    split at h
    · cases h
    split at h
    · next hn =>
      have hlength : (Nat.toDigits 16 p.toNat).length ≤ 2 :=
        (Nat.length_toDigits_le_iff (by decide) (by decide)).mpr (Nat.lt_succ_of_le hn)
      exact ⟨'x', 2, by decide, Text.length_upperHex hlength, (Option.some.inj h).symm⟩
    split at h
    · next hn =>
      exact ⟨'u', 4, by decide, Text.length_upperHex
        (Text.length_toDigits_of_lt (Nat.lt_succ_of_le hn)), (Option.some.inj h).symm⟩
    · exact ⟨'U', 8, by decide, Text.length_upperHex
        (Nat.le_trans (Text.length_toDigits_toNat p) (by decide)), (Option.some.inj h).symm⟩

/-- What needs no escape is neither special nor a break, a quote or a backslash. -/
theorem not_isSpecial_of_escape? (h : escape? p = none) :
    isSpecial p = false ∧ isBreak p = false ∧ p.is '"' = false ∧ p.is '\\' = false := by
  unfold escape? at h
  split at h
  · cases h
  · next hfind =>
    have hshort : ∀ cd ∈ shortEscapes, p.is cd.1 = false := by
      simpa using List.find?_eq_none.mp hfind
    have hbreak : isBreak p = false := by
      have hfeed : p.is '\n' = false := hshort ('\n', 'n') (by decide)
      have hnext : p.is '\u0085' = false := hshort ('\u0085', 'N') (by decide)
      have hline : p.is '\u2028' = false := hshort ('\u2028', 'L') (by decide)
      have hparagraph : p.is '\u2029' = false := hshort ('\u2029', 'P') (by decide)
      rw [isBreak, hfeed, hnext, hline, hparagraph]
      rfl
    refine ⟨?_, hbreak, hshort ('"', '"') (by decide), hshort ('\\', '\\') (by decide)⟩
    simp only at h
    split at h
    · next hn =>
      simp only [isSpecial, Bool.not_eq_false', Bool.or_eq_true, Bool.and_eq_true,
        decide_eq_true_eq] at hn ⊢
      omega
    · split at h
      · cases h
      · split at h <;> cases h

theorem verbatim_escape? (he : escape? p = some e) : ∀ q ∈ e, isVerbatim q = true := by
  rcases escape?_cases he with ⟨c, d, hcd, -, rfl⟩ | ⟨r, w, hr, -, rfl⟩
  · have hall : ∀ cd ∈ shortEscapes, ∀ q ∈ [CodePoint.scalar '\\', .scalar cd.2],
        isVerbatim q = true := by decide
    exact hall _ hcd
  · have hall : ∀ rw ∈ numberedEscapes, isVerbatim (.scalar rw.1) = true := by decide
    refine List.forall_mem_cons.mpr ⟨by decide, List.forall_mem_cons.mpr ⟨hall (r, w) hr, ?_⟩⟩
    intro q hq
    have hdigit := Text.toNat_of_hexDigit?
      (Text.hexDigit?_of_hexValue? (Text.hexValue?_upperHex w p.toNat) q hq)
    exact isVerbatim_of_ascii (Nat.le_trans (by decide) hdigit.1)
      (Nat.le_trans hdigit.2 (by decide))

theorem isVerbatim_of_not_escape? (he : escape? p = none) : isVerbatim p = true := by
  obtain ⟨hspecial, hbreak, -, -⟩ := not_isSpecial_of_escape? he
  simp only [isBreak, Bool.or_eq_false_iff] at hbreak
  exact isVerbatim_iff.mpr ⟨hspecial, hbreak.1.1.2⟩

/-- Between double quotes, everything is read as it is written. -/
theorem verbatim_doubleFrom {indent : Nat} {first pending : Bool} {column : Nat} {t : Text} :
    ∀ q ∈ doubleFrom indent first pending column t, isVerbatim q = true := by
  have hbackslash : isVerbatim (.scalar '\\') = true := by decide
  have hline : ∀ q ∈ newLine indent, isVerbatim q = true := fun q => isVerbatim_of_mem_newLine
  induction t generalizing first pending column with
  | nil => exact nofun
  | cons p t ih =>
    rw [doubleFrom]
    cases he : escape? p with
    | none =>
      have hp := isVerbatim_of_not_escape? he
      simp only
      split
      · refine List.forall_mem_append.mpr ⟨List.forall_mem_cons.mpr ⟨hbackslash, hline⟩, ?_⟩
        split
        · exact List.forall_mem_cons.mpr ⟨hbackslash, List.forall_mem_cons.mpr ⟨hp, ih⟩⟩
        · exact List.forall_mem_cons.mpr ⟨hp, ih⟩
      · exact List.forall_mem_cons.mpr ⟨hp, ih⟩
    | some e =>
      have hescape := verbatim_escape? he
      simp only
      split
      · refine List.forall_mem_append.mpr ⟨List.forall_mem_append.mpr
          ⟨hescape, List.forall_mem_cons.mpr ⟨hbackslash, hline⟩⟩, ?_⟩
        split
        · exact List.forall_mem_cons.mpr ⟨hbackslash, ih⟩
        · exact ih
      · exact List.forall_mem_append.mpr ⟨hescape, ih⟩

section Reading

variable {g : Gap} {x t : Text} {k : Cursor}

/-- The escapes with a letter are read back. -/
theorem Scans.quotedFrom_short {c d : Char} (hcd : (c, d) ∈ shortEscapes) (hg : g.column? ≠ some 0)
    (h : Scans x k (quotedFrom true .none t)) :
    Scans (g.text ++ [.scalar c] ++ x) k
      (quotedFrom true g (.scalar '\\' :: .scalar d :: t)) := by
  have hcolumn : (g.column? == some 0) = false := beq_eq_false_iff_ne.mpr hg
  have hafter := h.after g [.scalar c] 2
  rw [quotedFrom.eq_def true g (.scalar '\\' :: .scalar d :: t)]
  simp only [hcolumn, Bool.false_and, Bool.false_eq_true, if_false]
  simp only [shortEscapes, List.mem_cons, Prod.mk.injEq, List.not_mem_nil, or_false] at hcd
  rcases hcd with ⟨rfl, rfl⟩ | ⟨rfl, rfl⟩ | ⟨rfl, rfl⟩ | ⟨rfl, rfl⟩ | ⟨rfl, rfl⟩ | ⟨rfl, rfl⟩ |
    ⟨rfl, rfl⟩ | ⟨rfl, rfl⟩ | ⟨rfl, rfl⟩ | ⟨rfl, rfl⟩ | ⟨rfl, rfl⟩ | ⟨rfl, rfl⟩ | ⟨rfl, rfl⟩ |
    ⟨rfl, rfl⟩ <;> exact hafter

/-- An escaped space. -/
theorem Scans.quotedFrom_escapedSpace (hg : g.column? ≠ some 0)
    (h : Scans x k (quotedFrom true .none t)) :
    Scans (g.text ++ [.scalar ' '] ++ x) k
      (quotedFrom true g (.scalar '\\' :: .scalar ' ' :: t)) := by
  have hcolumn : (g.column? == some 0) = false := beq_eq_false_iff_ne.mpr hg
  rw [quotedFrom.eq_def true g (.scalar '\\' :: .scalar ' ' :: t)]
  simp only [hcolumn, Bool.false_and, Bool.false_eq_true, if_false]
  exact h.after g [.scalar ' '] 2

/-- An escaped break, and the spaces behind it. -/
theorem Scans.quotedFrom_escapedBreak (hg : g.column? ≠ some 0) (n : Nat)
    (h : Scans x k (quotedFrom true (.joined [] n) t)) :
    Scans (g.text ++ x) k (quotedFrom true g (.scalar '\\' :: (newLine n ++ t))) := by
  have hcolumn : (g.column? == some 0) = false := beq_eq_false_iff_ne.mpr hg
  have hspaces : Scans x k (quotedFrom true (.joined [] 0) (pad n ++ t)) := by
    refine Scans.quotedFrom_pad n ?_
    show Scans x k (quotedFrom true (.joined [] (0 + n)) t)
    rwa [Nat.zero_add]
  have hafter := hspaces.after g [] 2
  rw [List.append_nil] at hafter
  rw [newLine, List.cons_append, quotedFrom.eq_def true g (.scalar '\\' :: .scalar '\n' :: _)]
  simp only [hcolumn, Bool.false_and, Bool.false_eq_true, if_false]
  exact hafter

theorem numbered?_upperHex (w : Nat) (p : CodePoint) :
    numbered? (Text.upperHex w p.toNat) = some p := by
  rw [numbered?, Text.hexValue?_upperHex, Option.bind_some, CodePoint.ofNat?_toNat]

theorem Scans.numberedAfter {digits : Text} {s : Option Scanned} (hp : numbered? digits = some p)
    (h : Scans x k s) : Scans (g.text ++ [p] ++ x) k (numberedAfter g digits s) := by
  unfold Yaml.numberedAfter
  rw [hp]
  exact h.after g [p] (digits.length + 2)

/-- The escapes by number are read back. -/
theorem Scans.quotedFrom_numbered {q : Char} {w : Nat} (hq : (q, w) ∈ numberedEscapes)
    (hg : g.column? ≠ some 0) {digits : Text} (hw : digits.length = w)
    (hp : numbered? digits = some p) (h : Scans x k (quotedFrom true .none t)) :
    Scans (g.text ++ [p] ++ x) k
      (quotedFrom true g (.scalar '\\' :: .scalar q :: (digits ++ t))) := by
  have hcolumn : (g.column? == some 0) = false := beq_eq_false_iff_ne.mpr hg
  have hafter := Scans.numberedAfter (g := g) hp h
  rw [quotedFrom.eq_def true g (.scalar '\\' :: .scalar q :: (digits ++ t))]
  simp only [hcolumn, Bool.false_and, Bool.false_eq_true, if_false]
  simp only [numberedEscapes, List.mem_cons, Prod.mk.injEq, List.not_mem_nil, or_false] at hq
  rcases hq with ⟨rfl, rfl⟩ | ⟨rfl, rfl⟩ | ⟨rfl, rfl⟩
  · rcases digits with _ | ⟨a, _ | ⟨b, _ | ⟨c, u⟩⟩⟩ <;> cases hw
    exact hafter
  · rcases digits with _ | ⟨a, _ | ⟨b, _ | ⟨c, _ | ⟨d, _ | ⟨e, u⟩⟩⟩⟩⟩ <;> cases hw
    exact hafter
  · rcases digits with _ | ⟨a, _ | ⟨b, _ | ⟨c, _ | ⟨d, _ | ⟨e, _ | ⟨f, _ | ⟨i, _ | ⟨j, _ |
      ⟨l, u⟩⟩⟩⟩⟩⟩⟩⟩⟩ <;> cases hw
    exact hafter

/-- An escape is read back, whichever it is. -/
theorem Scans.quotedFrom_escape (he : escape? p = some e) (hg : g.column? ≠ some 0)
    (h : Scans x k (quotedFrom true .none t)) :
    Scans (g.text ++ [p] ++ x) k (quotedFrom true g (e ++ t)) := by
  rcases escape?_cases he with ⟨c, d, hcd, rfl, rfl⟩ | ⟨q, w, hq, hw, rfl⟩
  · exact Scans.quotedFrom_short hcd hg h
  · exact Scans.quotedFrom_numbered hq hg hw (numbered?_upperHex w p) h

end Reading

/-! ## Texts -/

/-- Whether an escape stands directly in front of a space that is not the last code point. -/
def escapesBeforeSpace : Text → Bool
  | p :: q :: r :: rest => (escape? p).isSome && q.is ' ' || escapesBeforeSpace (q :: r :: rest)
  | _ => false

/-- Whether no line is broken twice in a row when a text is written with lines that go on in the
column `indent`. No line is broken behind the first code point. -/
def BrokenOnce (indent : Nat) (t : Text) : Prop :=
  indent < width ∨ escapesBeforeSpace t.tail = false

theorem escapesBeforeSpace_cons {t : Text} (h : escapesBeforeSpace (p :: t) = false) :
    escapesBeforeSpace t = false ∧
      ((escape? p).isSome = true → ∀ u : Text, t = .scalar ' ' :: u → u = []) := by
  rcases t with _ | ⟨q, _ | ⟨r, u⟩⟩
  · exact ⟨rfl, nofun⟩
  · refine ⟨rfl, fun _ u hu => ?_⟩
    injection hu with _ hu
    exact hu.symm
  · rw [escapesBeforeSpace, Bool.or_eq_false_iff] at h
    refine ⟨h.2, fun hp u hu => ?_⟩
    injection hu with hq _
    rw [hp, hq] at h
    cases h.1

/-- The gaps in front of what is left of a text between double quotes: spaces, or an escaped
break. -/
inductive DoubleGap : Text → Gap → Prop
  | blanks {t : Text} (s : Text) : DoubleGap t (.blanks s)
  | joined {t : Text} {column : Nat} (hc : column ≠ 0) (hs : t.head?.any (·.is ' ') = false) :
    DoubleGap t (.joined [] column)

theorem DoubleGap.column?_ne {t : Text} {g : Gap} (h : DoubleGap t g) : g.column? ≠ some 0 := by
  cases h with
  | blanks s => exact nofun
  | joined hc _ => exact fun h => hc (Option.some.inj h)

/-- Whether a text in double quotes, or what is left of one unless `first`, is read back from every
gap. -/
def DoublyRead (indent : Nat) (rest : Text) (first : Bool) (t : Text) : Prop :=
  ∀ (pending : Bool) (column : Nat) (g : Gap), DoubleGap t g →
    Scans (g.text ++ t) ⟨rest, none⟩
      (quotedFrom true g (doubleFrom indent first pending column t ++ .scalar '"' :: rest))

namespace DoublyRead

variable {indent : Nat} {first : Bool} {rest t : Text}

theorem nil : DoublyRead indent rest first [] := by
  intro pending column g hg
  have hcolumn : (g.column? == some 0) = false := beq_eq_false_iff_ne.mpr hg.column?_ne
  rw [List.append_nil, doubleFrom, List.nil_append, quotedFrom.eq_def true g (.scalar '"' :: rest)]
  simp only [hcolumn, Bool.false_and, Bool.false_eq_true, if_false]
  exact .ending g 1 _

theorem not_escape?_space : escape? (.scalar ' ') = none := by decide

/-- Behind the first column of a new line that is not past `width`, a space is written as it is. -/
theorem doubleFrom_space (h : indent < width ∨ t = []) :
    doubleFrom indent false false (indent + 1) (.scalar ' ' :: t) =
      .scalar ' ' :: doubleFrom indent false true (indent + 2) t := by
  have hstay : (!t.isEmpty && decide (width < indent + 1)) = false := by
    rcases h with h | rfl
    · rw [decide_eq_false (Nat.not_lt.mpr h), Bool.and_false]
    · rfl
  have hspace : (CodePoint.scalar ' ').is ' ' = true := by decide
  rw [doubleFrom, not_escape?_space]
  simp only [hspace, Bool.not_false, Bool.true_and, Bool.true_or, Bool.and_true, hstay,
    Bool.false_eq_true, if_false]

theorem cons_escape {e : Text} (hi : indent ≠ 0) (he : escape? p = some e)
    (hb : first = false → indent < width ∨ escapesBeforeSpace (p :: t) = false)
    (ih : DoublyRead indent rest false t) (ihtail : DoublyRead indent rest false t.tail) :
    DoublyRead indent rest first (p :: t) := by
  intro pending column g hg
  have hcolumn := hg.column?_ne
  have hnone : Gap.column? .none ≠ some 0 := nofun
  rw [doubleFrom, he, List.append_cons]
  simp only
  split
  · next hbreak =>
    simp only [Bool.and_eq_true, Bool.not_eq_true'] at hbreak
    simp only [List.append_assoc e, List.append_assoc (newLine indent), List.cons_append]
    refine Scans.quotedFrom_escape he hcolumn (Scans.quotedFrom_escapedBreak hnone indent ?_)
    by_cases hs : t.head?.any (·.is ' ') = true
    · -- the line is broken in front of a space, which is escaped
      obtain ⟨u, rfl⟩ : ∃ u, t = .scalar ' ' :: u := by
        cases t with
        | nil => cases hs
        | cons q u => exact ⟨u, by rw [CodePoint.eq_of_is hs]⟩
      have hescape : (escape? p).isSome = true := by rw [he]; rfl
      have hstay : indent < width ∨ u = [] := (hb hbreak.1.1).imp_right fun h =>
        (escapesBeforeSpace_cons h).2 hescape u rfl
      rw [if_pos hs, doubleFrom_space hstay]
      exact Scans.quotedFrom_escapedSpace (fun h => hi (Option.some.inj h))
        (ihtail true (indent + 2) .none (.blanks []))
    · rw [if_neg hs]
      rw [Bool.not_eq_true] at hs
      exact ih false indent _ (.joined hi hs)
  · rw [List.append_assoc e]
    exact Scans.quotedFrom_escape he hcolumn (ih false _ .none (.blanks []))

theorem cons_char (hi : indent ≠ 0) (he : escape? p = none) (ih : DoublyRead indent rest false t) :
    DoublyRead indent rest first (p :: t) := by
  intro pending column g hg
  have hcolumn := hg.column?_ne
  obtain ⟨hspecial, hbreak, hquote, hbackslash⟩ := not_isSpecial_of_escape? he
  have hjoined : (Gap.joined [] indent).column? ≠ some 0 := fun h => hi (Option.some.inj h)
  have hread (pending : Bool) (column : Nat) {g : Gap} (hg : g.column? ≠ some 0)
      (hs : p.is ' ' = false) : Scans (g.text ++ [p] ++ t) ⟨rest, none⟩
        (quotedFrom true g (p :: (doubleFrom indent false pending column t ++
          .scalar '"' :: rest))) := by
    refine Scans.quotedFrom_char ((isBlank_eq hspecial).trans hs) hbreak hg (Bool.and_false _) ?_ ?_
      (ih pending column .none (.blanks []))
    · rw [hquote, Bool.false_and]
    · rw [hbackslash, Bool.false_and]
  rw [doubleFrom, he]
  simp only
  split
  · rw [List.cons_append, List.cons_append, List.append_assoc (newLine indent)]
    refine Scans.quotedFrom_escapedBreak hcolumn indent ?_
    by_cases hs : p.is ' ' = true
    · obtain rfl := CodePoint.eq_of_is hs
      rw [if_pos hs]
      exact Scans.quotedFrom_escapedSpace hjoined (ih true (indent + 2) .none (.blanks []))
    · rw [if_neg hs]
      rw [Bool.not_eq_true] at hs
      exact hread true (indent + 1) hjoined hs
  · by_cases hs : p.is ' ' = true
    · obtain rfl := CodePoint.eq_of_is hs
      cases hg with
      | blanks s =>
        rw [List.cons_append, quotedFrom_blank (by decide), List.append_cons]
        exact (ih true (column + 1) _ (.blanks (s ++ [.scalar ' ']))).passing 1
      | joined _ hs => cases hs
    · rw [Bool.not_eq_true] at hs
      rw [List.append_cons]
      exact hread true (column + 1) hcolumn hs

end DoublyRead

/-- What is left of a text in double quotes is read back if no line is broken twice in a row. -/
theorem doublyRead {indent : Nat} {t : Text} (hi : indent ≠ 0)
    (hb : indent < width ∨ escapesBeforeSpace t = false) (rest : Text) :
    DoublyRead indent rest false t ∧ DoublyRead indent rest false t.tail := by
  induction t with
  | nil => exact ⟨.nil, .nil⟩
  | cons p t ih =>
    obtain ⟨ht, htail⟩ := ih (hb.imp_right fun h => (escapesBeforeSpace_cons h).1)
    refine ⟨?_, ht⟩
    cases he : escape? p with
    | none => exact .cons_char hi he ht
    | some e => exact .cons_escape hi he (fun _ => hb) ht htail

/-- **What double quotes give back** of a text of which no line is broken twice in a row. -/
theorem quotedFrom_doubleFrom {indent : Nat} {t : Text} (hi : indent ≠ 0) (hb : BrokenOnce indent t)
    (column : Nat) (rest : Text) :
    Scans t ⟨rest, none⟩ (quotedFrom true .none
      (doubleFrom indent true false column t ++ .scalar '"' :: rest)) := by
  cases t with
  | nil => exact DoublyRead.nil false column .none (.blanks [])
  | cons p t =>
    obtain ⟨ht, htail⟩ := doublyRead hi hb rest
    have hread : DoublyRead indent rest true (p :: t) := by
      cases he : escape? p with
      | none => exact .cons_char hi he ht
      | some e => exact .cons_escape hi he nofun ht htail
    exact hread false column .none (.blanks [])

/-- **What is lost where a line is broken twice in a row**, behind an escape and in front of a space
that is not the last code point: a backslash and a second space are read as well. -/
theorem Scans.quotedFrom_brokenTwice {indent column : Nat} {pending : Bool} {e x t rest : Text}
    {g : Gap} {k : Cursor} (hi : width ≤ indent) (hcolumn : indent ≤ column)
    (he : escape? p = some e) (ht : t ≠ []) (hg : g.column? ≠ some 0)
    (h : Scans x k (quotedFrom true .none (doubleFrom indent false true (indent + 2) t ++ rest))) :
    Scans (g.text ++ [p] ++ (Text.of "\\  " ++ x)) k (quotedFrom true g
      (doubleFrom indent false pending column (p :: .scalar ' ' :: t) ++ rest)) := by
  have hindent : indent ≠ 0 := by
    unfold width at hi
    omega
  have hne : some indent ≠ some 0 := fun h => hindent (Option.some.inj h)
  have hnonempty : t.isEmpty = false := List.isEmpty_eq_false_iff.mpr ht
  have hspace : (CodePoint.scalar ' ').is ' ' = true := by decide
  have hlength : 2 ≤ e.length := by
    rcases escape?_cases he with ⟨c, d, -, -, rfl⟩ | ⟨q, w, -, -, rfl⟩
    · exact Nat.le_refl 2
    · exact Nat.le_add_left 2 _
  have hescape : decide (width + 1 < column + e.length) = true := decide_eq_true (by omega)
  have hstart : decide (width < indent + 1) = true := decide_eq_true (Nat.lt_succ_of_le hi)
  have hwritten : doubleFrom indent false pending column (p :: .scalar ' ' :: t) ++ rest =
      e ++ (.scalar '\\' :: (newLine indent ++ (.scalar '\\' :: .scalar '\\' :: (newLine indent ++
        (.scalar '\\' :: .scalar ' ' ::
          (doubleFrom indent false true (indent + 2) t ++ rest)))))) := by
    rw [doubleFrom, he, doubleFrom, DoublyRead.not_escape?_space]
    simp only [Bool.not_false, Bool.true_and, List.isEmpty_cons, hescape, List.head?_cons,
      Option.any_some, hspace, hnonempty, Bool.true_or, hstart, if_true, List.append_assoc,
      List.cons_append]
  -- the second break folds to a space, for its backslash belongs to the one in front of it
  have hfold := Scans.quotedFrom_newLine (s := []) indent
    (Scans.quotedFrom_escapedSpace (g := .lines (.scalar '\n') [] indent) hne h)
  have hshort : ('\\', '\\') ∈ shortEscapes := by decide
  have hbackslash := Scans.quotedFrom_short (g := .joined [] indent) hshort hne hfold
  rw [hwritten]
  exact Scans.quotedFrom_escape he hg (Scans.quotedFrom_escapedBreak (g := .none) nofun indent
    hbackslash)

end ScalarScript.Yaml
