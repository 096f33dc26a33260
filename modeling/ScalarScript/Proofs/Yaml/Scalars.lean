import ScalarScript.Proofs.Text.Decimal
import ScalarScript.Proofs.Yaml.Escaped

/-!
# Scalars that are read back

A scalar stands behind a key or a dash, its further lines further to the right. Behind it a line
begins in a column that does not belong to it, with a key, a dash, or nothing.

* `LineStart` is what such a line holds behind its indentation.
* `ScalarReads`: what a text is read as wherever such a line follows it.
* `LeafReads`: what it is read as where a node is expected; it is not taken for a key.

Results:
* `leafReads_of_scalarReads`: a text in one of the three styles is no key of a mapping.
* **`leafReads_textScalar`**: a text is read back in every style, up to what single quotes lose.
-/

namespace ScalarScript.Yaml

/-! ## Lines -/

/-- A letter that the name of a field may hold. -/
def isKeyLetter (p : CodePoint) : Bool := 0x61 ≤ p.toNat && p.toNat ≤ 0x7A

/-- What a line holds behind its indentation: nothing, a key, or an item. -/
inductive LineStart : Text → Prop
  | nil : LineStart []
  | key {p : CodePoint} (hp : isKeyLetter p = true) (rest : Text) : LineStart (p :: rest)
  | item (rest : Text) : LineStart (.scalar '-' :: .scalar ' ' :: rest)

section Lines

variable {p : CodePoint} {t u : Text} {k : Nat}

theorem is_eq_false_of_isKeyLetter (h : isKeyLetter p = true) {c : Char}
    (hc : isKeyLetter (.scalar c) = false) : p.is c = false := by
  refine Bool.eq_false_iff.mpr fun hp => ?_
  rw [CodePoint.eq_of_is hp, hc] at h
  cases h

/-- Whether something to read begins here: neither space nor a comment. -/
def StartsToken (p : CodePoint) : Prop := isBreak p = false ∧ p.is ' ' = false ∧ p.is '#' = false

theorem startsToken_of_isKeyLetter (h : isKeyLetter p = true) : StartsToken p := by
  have hfeed : p.is '\n' = false := is_eq_false_of_isKeyLetter h (by decide)
  have hnext : p.is '\u0085' = false := is_eq_false_of_isKeyLetter h (by decide)
  have hline : p.is '\u2028' = false := is_eq_false_of_isKeyLetter h (by decide)
  have hparagraph : p.is '\u2029' = false := is_eq_false_of_isKeyLetter h (by decide)
  refine ⟨?_, is_eq_false_of_isKeyLetter h (by decide), is_eq_false_of_isKeyLetter h (by decide)⟩
  rw [isBreak, hfeed, hnext, hline, hparagraph]
  rfl

theorem LineStart.startsToken (h : LineStart u) : ∀ p ∈ u.head?, StartsToken p := by
  cases h with
  | nil => exact nofun
  | key hp rest =>
    rintro p ⟨⟩
    exact startsToken_of_isKeyLetter hp
  | item rest =>
    rintro p ⟨⟩
    exact ⟨rfl, rfl, rfl⟩

theorem LineStart.not_startsWithMarker (h : LineStart u) : startsWithMarker u = false := by
  cases h with
  | nil => rfl
  | key hp rest =>
    exact not_startsWithMarker_cons (is_eq_false_of_isKeyLetter hp (by decide))
      (is_eq_false_of_isKeyLetter hp (by decide)) rest
  | item rest => rfl

theorem skipFrom_of_startsToken (h : ∀ p ∈ u.head?, StartsToken p) (column : Nat) (fresh : Bool) :
    skipFrom false column fresh u = ⟨u, if fresh then some column else none⟩ := by
  cases u with
  | nil => rfl
  | cons p u =>
    obtain ⟨hbreak, hspace, hcomment⟩ := h p rfl
    rw [skipFrom, hbreak, if_neg Bool.false_ne_true, if_neg Bool.false_ne_true, hspace,
      if_neg Bool.false_ne_true, hcomment, if_neg Bool.false_ne_true]

theorem skipFrom_pad (column : Nat) (fresh : Bool) :
    skipFrom false column fresh (pad k ++ u) = skipFrom false (column + k) fresh u := by
  induction k generalizing column with
  | zero => rfl
  | succ k ih =>
    have hstep := ih (column + 1)
    rw [Nat.add_right_comm] at hstep
    exact hstep

theorem skip_newLine (h : ∀ p ∈ u.head?, StartsToken p) (column? : Option Nat) :
    Cursor.skip ⟨newLine k ++ u, column?⟩ = ⟨u, some k⟩ := by
  have hline : skipFrom false 0 true (pad k ++ u) = ⟨u, some (0 + k)⟩ := by
    rw [skipFrom_pad, skipFrom_of_startsToken h]
    rfl
  rw [Nat.zero_add] at hline
  exact hline

theorem skip_of_startsToken (h : ∀ p ∈ u.head?, StartsToken p) (column? : Option Nat) :
    Cursor.skip ⟨u, column?⟩ = ⟨u, column?⟩ := by
  cases column? with
  | none => exact skipFrom_of_startsToken h 0 false
  | some column => exact skipFrom_of_startsToken h column true

theorem skip_space (h : ∀ p ∈ u.head?, StartsToken p) (column? : Option Nat) :
    Cursor.skip ⟨.scalar ' ' :: u, column?⟩ = ⟨u, column?.map (· + 1)⟩ := by
  cases column? with
  | none => exact skipFrom_of_startsToken h 1 false
  | some column => exact skipFrom_of_startsToken h (column + 1) true

end Lines

/-! ## Where scalars end -/

section Ends

variable {least k : Nat} {p : CodePoint} {x t u : Text} {column? : Option Nat}

/-- A plain scalar ends in front of a line that begins before the columns of its own. -/
theorem plainFrom_newLine (hu : LineStart u) (hk : k < least) :
    Scans [] ⟨u, some k⟩ (some (plainFrom false least .none (newLine k ++ u))) := by
  refine Scans.plainFrom_newLine k ?_
  cases u with
  | nil => exact .ending .none 0 _
  | cons p u =>
    obtain ⟨hbreak, hspace, -⟩ := hu.startsToken p rfl
    have hstop : goesOn false least (.lines (.scalar '\n') [] k) p u = false := by
      have hleast : decide (least ≤ k) = false := decide_eq_false (Nat.not_le.mpr hk)
      unfold goesOn
      simp only [hleast, Bool.or_false, Bool.and_false, Bool.false_and]
    rw [plainFrom, hspace, if_neg Bool.false_ne_true, hbreak, if_neg Bool.false_ne_true, hstop,
      if_neg Bool.false_ne_true]
    exact .ending .none 0 _

/-- What a text is read as wherever a line behind it begins before the columns of its own. -/
def ScalarReads (least : Nat) (x : Text) (s : Scalar) : Prop :=
  ∀ (k : Nat) (u : Text) (column? : Option Nat), LineStart u → k < least →
    ∃ scanned, scalar? false least ⟨x ++ (newLine k ++ u), column?⟩ = some (s, scanned) ∧
      (scanned.cursor = ⟨u, some k⟩ ∨ scanned.cursor = ⟨newLine k ++ u, none⟩)

/-- What is read behind an opening quote. -/
theorem scalarReads_quoted (hp : p.is '\'' = true ∨ p.is '"' = true)
    (h : ∀ rest : Text, rest.head?.any (·.is '\'') = false →
      Scans t ⟨rest, none⟩ (quotedFrom (p.is '"') .none (x ++ rest))) :
    ScalarReads least (p :: x) ⟨true, t⟩ := by
  intro k u column? hu hk
  obtain ⟨crossed, size, hscan⟩ := h (newLine k ++ u) rfl
  have hquote : (p.is '\'' || p.is '"') = true := by simpa using hp
  refine ⟨⟨t, crossed, 1 + size, ⟨newLine k ++ u, none⟩⟩, ?_, .inr rfl⟩
  rw [scalar?, List.cons_append]
  simp only [hquote, if_true, hscan, Option.map_some]
  rfl

theorem isOneOf_eq_false {marks characters : String} (h : isOneOf marks p = false)
    (hsub : ∀ q ∈ Text.of characters, q ∈ Text.of marks) : isOneOf characters p = false := by
  refine Bool.eq_false_iff.mpr fun hp => ?_
  rw [isOneOf, List.contains_iff_mem] at hp
  rw [isOneOf, List.contains_eq_mem, decide_eq_false_iff_not] at h
  exact h (hsub p hp)

theorem is_eq_false_of_isOneOf {marks : String} (h : isOneOf marks p = false) {c : Char}
    (hc : .scalar c ∈ Text.of marks) : p.is c = false := by
  refine Bool.eq_false_iff.mpr fun hp => ?_
  rw [CodePoint.eq_of_is hp, isOneOf, List.contains_eq_mem, decide_eq_false_iff_not] at h
  exact h hc

/-- Whether a plain scalar begins with `p` when `x` is written behind it. -/
structure StartsPlain (p : CodePoint) (x : Text) : Prop where
  mark : isOneOf "#,[]\x7b\x7d&*!|>'\"%@\x60" p = false
  space : isSpace p = false
  behind : isOneOf "?:-" p = true → ∀ rest : Text, startsWithSpace (x ++ rest) = false

namespace StartsPlain

theorem startsPlain_eq (h : StartsPlain p x) (rest : Text) :
    startsPlain false p (x ++ rest) = true := by
  have hmark : isOneOf ",[]\x7b\x7d#&*!|>'\"%@\x60" p = false := isOneOf_eq_false h.mark (by decide)
  by_cases hp : isOneOf "?:-" p = true
  · have hbehind := h.behind hp rest
    simp [startsPlain, hbehind, hmark, h.space]
  · rw [Bool.not_eq_true] at hp
    have hdash : p.is '-' = false := is_eq_false_of_isOneOf hp (by decide)
    have hquestion : p.is '?' = false := is_eq_false_of_isOneOf hp (by decide)
    have hcolon : p.is ':' = false := is_eq_false_of_isOneOf hp (by decide)
    simp [startsPlain, hdash, hquestion, hcolon, hmark, h.space]

theorem afterMark?_eq (h : StartsPlain p x) (rest : Text) :
    afterMark? '-' (p :: x ++ rest) = none := by
  have hmark : (p.is '-' && startsWithSpace (x ++ rest)) = false := by
    by_cases hp : isOneOf "?:-" p = true
    · rw [h.behind hp rest, Bool.and_false]
    · rw [Bool.not_eq_true] at hp
      rw [is_eq_false_of_isOneOf hp (by decide), Bool.false_and]
  rw [List.cons_append, afterMark?, hmark, if_neg Bool.false_ne_true]

theorem startsToken (h : StartsPlain p x) : StartsToken p := by
  have hspace := h.space
  simp only [isSpace, isBlank, Bool.or_eq_false_iff] at hspace
  exact ⟨hspace.2, hspace.1.1.1.1, is_eq_false_of_isOneOf h.mark (by decide)⟩

end StartsPlain

/-- What is read where no quote stands. -/
theorem scalarReads_plain (hs : StartsPlain p x)
    (h : ∀ (k : Nat) (u : Text), LineStart u → k < least →
      Scans t ⟨u, some k⟩ (some (plainFrom false least .none (p :: x ++ (newLine k ++ u))))) :
    ScalarReads least (p :: x) ⟨false, t⟩ := by
  intro k u column? hu hk
  obtain ⟨crossed, size, hscan⟩ := h k u hu hk
  have hsingle : p.is '\'' = false := is_eq_false_of_isOneOf hs.mark (by decide)
  have hdouble : p.is '"' = false := is_eq_false_of_isOneOf hs.mark (by decide)
  refine ⟨_, ?_, .inl (congrArg Scanned.cursor (Option.some.inj hscan))⟩
  have htext := congrArg Scanned.text (Option.some.inj hscan)
  rw [scalar?]
  simp only [List.cons_append] at htext ⊢
  rw [hsingle, hdouble, Bool.or_false, if_neg Bool.false_ne_true, hs.startsPlain_eq, if_pos rfl,
    htext]

/-- Whether a text is read as a datum where a node is expected behind a key or a dash. -/
structure LeafReads (least : Nat) (x : Text) (d : Datum) : Prop where
  starts : ∀ rest : Text, ∀ p ∈ (x ++ rest).head?, StartsToken p
  nonempty : x ≠ []
  noItem : ∀ rest : Text, afterMark? '-' (x ++ rest) = none
  noKey : ∀ (k : Nat) (u : Text) (column? : Option Nat), LineStart u → k < least →
    key? false least ⟨x ++ (newLine k ++ u), column?⟩ = none
  read : ∀ (bound k : Nat) (u : Text) (column? : Option Nat), x.length ≤ bound → LineStart u →
    k < least → ∃ node c, leaf bound least ⟨x ++ (newLine k ++ u), column?⟩ = some (node, c) ∧
      c.skip = ⟨u, some k⟩ ∧ node.toDatum = .ok d

/-- A scalar that ends where a line begins is no key. -/
theorem leafReads_of_scalarReads {s : Scalar} {d : Datum} (hp : StartsToken p)
    (hb : isOneOf "[\x7b" p = false) (hdash : ∀ rest : Text, afterMark? '-' (p :: x ++ rest) = none)
    (hs : s.toDatum = .ok d) (h : ScalarReads least (p :: x) s) : LeafReads least (p :: x) d := by
  refine ⟨?_, List.cons_ne_nil p x, hdash, fun k u column? hu hk => ?_,
    fun bound k u column? _ hu hk => ?_⟩
  · rintro rest q ⟨⟩
    exact hp
  · obtain ⟨scanned, hscan, hcursor⟩ := h k u column? hu hk
    have hafter : afterKey? false scanned = none := by
      rcases hcursor with hcursor | hcursor
      · rw [afterKey?, hcursor]
        simp only [Option.isSome_some, Bool.or_true, Bool.true_or, if_true]
      · have hline : afterMark? ':' (newLine k ++ u) = none := rfl
        have htake : (newLine k ++ u).takeWhile (·.is ' ') = [] := rfl
        rw [afterKey?, hcursor]
        simp only [htake, List.length_nil, List.drop_zero, Bool.false_eq_true, if_false, hline,
          ite_self]
    rw [key?, hscan]
    simp only [hafter, Option.map_none]
  · obtain ⟨scanned, hscan, hcursor⟩ := h k u column? hu hk
    have hskip : scanned.cursor.skip = ⟨u, some k⟩ := by
      rcases hcursor with hcursor | hcursor
      · rw [hcursor, skip_of_startsToken hu.startsToken]
      · rw [hcursor, skip_newLine hu.startsToken]
    have hbracket : (p :: x ++ (newLine k ++ u)).head?.any (isOneOf "[\x7b") = false := hb
    refine ⟨.scalar s, scanned.cursor, ?_, hskip, hs⟩
    rw [leaf, hbracket, if_neg Bool.false_ne_true, hscan]
    rfl

end Ends

/-! ## Texts -/

/-- What YAML gives back of a text. -/
def restoredText (t : Text) : Text := if style t = .single then restoredFrom false t else t

section Texts

variable {least indent : Nat} {p : CodePoint} {t : Text}

theorem plainText_of_style (h : style t = .plain) : PlainText t := by
  have hplain := allowsPlain_of_style h
  simp only [allowsPlain, holdsMark, Bool.and_eq_true, Bool.not_eq_true', Bool.or_eq_false_iff]
    at hplain
  obtain ⟨⟨⟨⟨⟨⟨-, hescapes⟩, hbreaks⟩, -⟩, hcolon, hmarks⟩, -⟩, hlast⟩ := hplain
  exact ⟨isSpecial_of_needsEscapes hescapes, by simpa using hbreaks, hmarks, hcolon, hlast⟩

/-- A text in plain style begins a plain scalar, wherever it is folded. -/
theorem startsPlain_of_style (h : style (p :: t) = .plain) (indent column : Nat) :
    StartsPlain p (foldFrom false indent (some p) column t) := by
  have hplain := allowsPlain_of_style h
  simp only [allowsPlain, startsAsMark, Bool.and_eq_true, Bool.not_eq_true', Bool.or_eq_false_iff]
    at hplain
  obtain ⟨⟨⟨⟨⟨⟨-, hescapes⟩, hbreaks⟩, ⟨-, hmark, hbehind⟩⟩, -⟩, hhead⟩, -⟩ := hplain
  have hspace : p.is ' ' = false := hhead
  rw [List.any_cons, Bool.or_eq_false_iff] at hbreaks
  refine ⟨hmark, ?_, fun hp rest => ?_⟩
  · rw [isSpace_eq (isSpecial_of_needsEscapes hescapes p List.mem_cons_self), hspace, hbreaks.1]
    rfl
  · rw [hp, Bool.true_and] at hbehind
    exact startsWithSpace_foldFrom hbehind

theorem leafReads_plain (hi : indent ≠ 0) (hl : least ≤ indent) (h : style t = .plain)
    (column : Nat) : LeafReads least ((foldFrom false indent none column t).map lineFeed)
      (.text t) := by
  have hplain := plainText_of_style h
  have hverbatim : ∀ q ∈ foldFrom false indent none column t, isVerbatim q = true := by
    intro q hq
    rcases mem_foldFrom hq with hq | hq
    · have hbreak := hplain.breaks q hq
      simp only [isBreak, Bool.or_eq_false_iff] at hbreak
      exact isVerbatim_iff.mpr ⟨hplain.special q hq, hbreak.1.1.2⟩
    · exact hq
  rw [map_lineFeed_eq_self hverbatim]
  have hscan (k : Nat) (u : Text) (hu : LineStart u) (hk : k < least) :=
    plainFrom_foldFrom hi hl (plainFrom_newLine hu hk) hplain column
  cases t with
  | nil => cases h
  | cons p t =>
    have hstart := startsPlain_of_style h indent (column + 1)
    have hp := hstart.startsToken
    have hresolve : Scalar.toDatum ⟨false, p :: t⟩ = .ok (.text (p :: t)) := by
      rw [Scalar.toDatum]
      simp only [Bool.false_eq_true, if_false, resolve_of_style_plain h]
    rw [foldFrom_cons false hp.1 hp.2.1, Bool.and_false, if_neg Bool.false_ne_true] at hscan ⊢
    exact leafReads_of_scalarReads hp (isOneOf_eq_false hstart.mark (by decide))
      hstart.afterMark?_eq hresolve (scalarReads_plain hstart hscan)

theorem leafReads_single (hi : indent ≠ 0) (h : style t = .single) (column : Nat) :
    LeafReads least
      ((.scalar '\'' :: (foldFrom true indent none column t ++ [.scalar '\''])).map lineFeed)
      (.text (restoredFrom false t)) := by
  have hquote : lineFeed (.scalar '\'') = .scalar '\'' := by decide
  rw [List.map_cons, List.map_append, List.map_singleton, hquote]
  refine leafReads_of_scalarReads ⟨rfl, rfl, rfl⟩ (by decide) (fun _ => rfl)
    (Scalar.toDatum_quoted _) (scalarReads_quoted (.inl (by decide)) fun rest hrest => ?_)
  rw [List.append_assoc]
  exact quotedFrom_foldFrom hi hrest (not_needsEscapes_of_style h) column

theorem leafReads_double (hi : indent ≠ 0) (hb : BrokenOnce indent t) (column : Nat) :
    LeafReads least
      ((.scalar '"' :: (doubleFrom indent true false column t ++ [.scalar '"'])).map lineFeed)
      (.text t) := by
  have hquote : lineFeed (.scalar '"') = .scalar '"' := by decide
  rw [List.map_cons, List.map_append, List.map_singleton, hquote,
    map_lineFeed_eq_self verbatim_doubleFrom]
  refine leafReads_of_scalarReads ⟨rfl, rfl, rfl⟩ (by decide) (fun _ => rfl)
    (Scalar.toDatum_quoted _) (scalarReads_quoted (.inr (by decide)) fun rest _ => ?_)
  rw [List.append_assoc]
  exact quotedFrom_doubleFrom hi hb column rest

/-- Texts are read back, up to what single quotes lose. -/
theorem leafReads_textScalar (hi : indent ≠ 0) (hl : least ≤ indent)
    (hb : style t = .double → BrokenOnce indent t) (column : Nat) :
    LeafReads least ((textScalar indent column t).map lineFeed) (.text (restoredText t)) := by
  unfold textScalar restoredText
  cases h : style t with
  | plain => exact leafReads_plain hi hl h column
  | single => exact leafReads_single hi h (column + 1)
  | double => exact leafReads_double hi (hb h) (column + 1)

end Texts

end ScalarScript.Yaml
