/-!
# Code points and text

Model of host text: of sources, names and messages.

A `CodePoint` is a Unicode scalar value or a surrogate. A `Text` is any sequence of them: what a
host hands over need not be well-formed Unicode, so two surrogates in a row stay two code points.

Results:
* `CodePoint.toNat_injective`: the number of a code point determines it.
* `CodePoint.ofNat?_toNat`, `CodePoint.ofNat?_eq_some_iff`: `ofNat?` reads exactly those numbers.
-/

namespace ScalarScript

/-- A code point: a scalar value, or the `i`-th of the 2048 surrogates from U+D800 on. -/
inductive CodePoint where
  | scalar (c : Char)
  | surrogate (i : Fin 0x800)
deriving DecidableEq, Repr

/-- Host text: a sequence of code points, surrogates included. -/
abbrev Text := List CodePoint

namespace CodePoint

instance : Inhabited CodePoint := ⟨.scalar ' '⟩

/-- The number of a code point. -/
def toNat : CodePoint → Nat
  | scalar c => c.toNat
  | surrogate i => 0xD800 + i

/-- The code point with number `n`, if there is one. -/
def ofNat? (n : Nat) : Option CodePoint :=
  if h : n.isValidChar then some (.scalar (Char.ofNatAux n h))
  else if h : 0xD800 ≤ n ∧ n < 0xE000 then some (.surrogate ⟨n - 0xD800, by omega⟩)
  else none

/-- The scalar value, unless the code point is a surrogate. -/
def char? : CodePoint → Option Char
  | scalar c => some c
  | surrogate _ => none

/-- Whether a code point is a scalar value. -/
def isScalar (c : CodePoint) : Bool := c.char?.isSome

/-- Whether a code point is the character `c`. -/
def is (p : CodePoint) (c : Char) : Bool := p == .scalar c

theorem eq_of_is {p : CodePoint} {c : Char} (h : p.is c = true) : p = .scalar c :=
  eq_of_beq h

theorem toNat_ofNatAux (n : Nat) (h : n.isValidChar) : (Char.ofNatAux n h).toNat = n := rfl

theorem ofNat?_toNat (c : CodePoint) : ofNat? c.toNat = some c := by
  cases c with
  | scalar c =>
    have h : c.toNat.isValidChar := c.valid
    have hc : Char.ofNatAux c.toNat h = c := Char.ext (UInt32.toNat.inj (toNat_ofNatAux _ h))
    unfold ofNat? toNat
    rw [dif_pos h, hc]
  | surrogate i =>
    have hn : ¬ (0xD800 + i.1).isValidChar := by
      unfold Nat.isValidChar
      have := i.2
      omega
    have hs : 0xD800 ≤ 0xD800 + i.1 ∧ 0xD800 + i.1 < 0xE000 := by
      have := i.2
      omega
    have hi : 0xD800 + i.1 - 0xD800 = i.1 := Nat.add_sub_cancel_left _ _
    unfold ofNat? toNat
    rw [dif_neg hn, dif_pos hs]
    exact congrArg (some <| surrogate ·) (Fin.ext hi)

theorem toNat_injective {a b : CodePoint} (h : a.toNat = b.toNat) : a = b := by
  have ha := ofNat?_toNat a
  rw [h, ofNat?_toNat b] at ha
  exact (Option.some.inj ha).symm

theorem ofNat?_eq_some_iff {n : Nat} {c : CodePoint} : ofNat? n = some c ↔ c.toNat = n := by
  constructor
  · intro h
    unfold ofNat? at h
    by_cases hv : n.isValidChar
    · rw [dif_pos hv] at h
      cases h
      exact toNat_ofNatAux n hv
    rw [dif_neg hv] at h
    by_cases hs : 0xD800 ≤ n ∧ n < 0xE000
    · rw [dif_pos hs] at h
      cases h
      exact Nat.add_sub_of_le hs.1
    · rw [dif_neg hs] at h
      cases h
  · rintro rfl
    exact ofNat?_toNat c

theorem isScalar_iff {p : CodePoint} : p.isScalar = true ↔ ∃ c, p = .scalar c := by
  cases p <;> simp [isScalar, char?]

end CodePoint

namespace Text

/-- The text of a string. -/
def of (s : String) : Text := s.toList.map .scalar

/-- The text of a list of characters. -/
def ofChars (cs : List Char) : Text := cs.map .scalar

/-- The first surrogate of a text. -/
def firstSurrogate? (t : Text) : Option CodePoint := t.find? fun c => !c.isScalar

/-- The characters of a text, its surrogates left out. -/
def chars (t : Text) : List Char := t.filterMap CodePoint.char?

/-- The string of a text that holds no surrogate. -/
def toString? (t : Text) : Option String :=
  if t.all CodePoint.isScalar then some (String.ofList t.chars) else none

/-- Whether a text starts with the characters of `s`. -/
def startsWith (t : Text) (s : String) : Bool := (Text.of s).isPrefixOf t

/-- The parts of `t` joined with `separator` between them. -/
def join (separator : Text) : List Text → Text
  | [] => []
  | [t] => t
  | t :: rest => t ++ separator ++ join separator rest

/-- The lines of a text, which line feeds separate: one more than there are line feeds. -/
def lines : Text → List Text
  | [] => [[]]
  | c :: rest =>
    if c.is '\n' then [] :: lines rest
    else match lines rest with
      | [] => [[c]]
      | l :: ls => (c :: l) :: ls

/-- The order of two texts by the numbers of their code points, a strict prefix first. -/
def compare : Text → Text → Ordering
  | [], [] => .eq
  | [], _ :: _ => .lt
  | _ :: _, [] => .gt
  | a :: as, b :: bs => (Ord.compare a.toNat b.toNat).then (compare as bs)

theorem chars_ofChars (cs : List Char) : chars (ofChars cs) = cs := by
  induction cs with
  | nil => rfl
  | cons c cs ih =>
    simp only [chars, ofChars, List.map_cons, List.filterMap_cons, CodePoint.char?] at ih ⊢
    exact congrArg (c :: ·) ih

theorem ofChars_chars {t : Text} (h : ∀ c ∈ t, c.isScalar = true) : ofChars (chars t) = t := by
  induction t with
  | nil => rfl
  | cons c t ih =>
    obtain ⟨x, rfl⟩ := CodePoint.isScalar_iff.mp (h c List.mem_cons_self)
    have := ih fun d hd => h d (List.mem_cons_of_mem _ hd)
    simp only [chars, ofChars, List.filterMap_cons, CodePoint.char?, List.map_cons] at this ⊢
    exact congrArg (CodePoint.scalar x :: ·) this

end Text

end ScalarScript
