import Mathlib.Data.List.Forall2
import ScalarScript.Syntax.Parse

/-!
# How far readers look

A reader takes tokens off the front and looks at the one behind them, or at the end. Nothing else
that follows bears on what it does, whether it succeeds or misses something: on the same tokens with
other tokens behind the one that it looks at, it does the same. Nor do places bear on it, except for
the places in the tree that it builds. More depth does not change it either; where the depth ends, a
reader has not seen anything.

* `Relocation`: two ways of reading places, so that trees and tokens with other places are compared.
* `Token.Alike`, `SameNext`, `Relocation.SameTree`: the same word, the same word next, the same
  tree.
* `Peeks`: what a reader does, and that another reader does the same on such tokens.

Results: **`Peeks.bind`**, `Peeks.cons`, and `peeks_of_takes` with one lemma for each reader of a
single token.
-/

namespace ScalarScript

/-- Two ways of reading places; whatever the first makes of a place, the second makes of some. -/
structure Relocation where
  left : Option Position → Option Position
  right : Option Position → Option Position
  reaches : ∀ p : Position, ∃ p' : Position, right p' = left p

/-- Places are not read at all. -/
def Relocation.unplaced : Relocation := ⟨fun _ => none, fun _ => none, fun p => ⟨p, rfl⟩⟩

/-- Two tokens are the same word, at places that are read as the same. -/
structure Token.Alike (r : Relocation) (t t' : Token) : Prop where
  kind : t'.kind = t.kind
  text : t'.text = t.text
  place : r.right t'.position = r.left t.position

/-- The same word stands next, or both lists end. -/
inductive SameNext (r : Relocation) : List Token → List Token → Prop
  | nil : SameNext r [] []
  | cons {t t' : Token} {rest rest' : List Token} (h : t.Alike r t') :
    SameNext r (t :: rest) (t' :: rest')

namespace Relocation

variable (r : Relocation)

/-- Two trees differ in places only, which are read as the same. -/
def SameTree (e e' : Expr) : Prop := e.mapPositions r.left = e'.mapPositions r.right

/-- Two lists of trees differ in places only, which are read as the same. -/
def SameTrees (es es' : List Expr) : Prop :=
  Expr.mapPositions.listMapPositions r.left es = Expr.mapPositions.listMapPositions r.right es'

theorem exists_alike (t : Token) : ∃ t', t.Alike r t' := by
  obtain ⟨p, hp⟩ := r.reaches t.position
  exact ⟨⟨t.kind, t.text, p⟩, rfl, rfl, hp⟩

theorem exists_forall₂ (tokens : List Token) :
    ∃ tokens', List.Forall₂ (Token.Alike r) tokens tokens' := by
  induction tokens with
  | nil => exact ⟨[], .nil⟩
  | cons t tokens ih =>
    obtain ⟨t', ht⟩ := r.exists_alike t
    obtain ⟨tokens', h⟩ := ih
    exact ⟨t' :: tokens', .cons ht h⟩

theorem sameNext_of_forall₂ {tokens tokens' : List Token}
    (h : List.Forall₂ (Token.Alike r) tokens tokens') : SameNext r tokens tokens' := by
  cases h with
  | nil => exact .nil
  | cons ht _ => exact .cons ht

end Relocation

namespace Token.Alike

variable {r : Relocation} {t t' : Token}

theorem isMark (h : t.Alike r t') (m : Mark) : t'.isMark m = t.isMark m := by
  rw [Token.isMark, Token.isMark, h.kind]

theorem isSymbol (h : t.Alike r t') (s : Symbol) : t'.isSymbol s = t.isSymbol s := by
  rw [Token.isSymbol, Token.isSymbol, h.kind]

theorem additive? (h : t.Alike r t') : t'.additive? = t.additive? := by
  rw [Token.additive?, Token.additive?, h.kind]

theorem comparison? (h : t.Alike r t') : t'.comparison? = t.comparison? := by
  rw [Token.comparison?, Token.comparison?, h.kind]

theorem unary? (h : t.Alike r t') : t'.unary? = t.unary? := by
  rw [Token.unary?, Token.unary?, h.kind]

/-- A literal is the same leaf, at its own place. -/
theorem literal?_eq_none (h : t.Alike r t') (ht : t.literal? = none) : t'.literal? = none := by
  obtain ⟨kind, text, position⟩ := t
  obtain ⟨kind', text', position'⟩ := t'
  cases h.kind
  cases kind with
  | string | char | number => cases ht
  | keyword k =>
    cases k with
    | true_ | false_ => cases ht
    | let_ | const => rfl
  | identifier | symbol s | mark m => rfl

theorem literal?_eq_some (h : t.Alike r t') {e : Expr} (ht : t.literal? = some e) :
    ∃ e', t'.literal? = some e' ∧ r.SameTree e e' := by
  obtain ⟨kind, text, position⟩ := t
  obtain ⟨kind', text', position'⟩ := t'
  cases h.kind
  have hplace : r.left position = r.right position' := h.place.symm
  cases kind with
  | string | char | number =>
    cases ht
    exact ⟨_, rfl, congrArg _ hplace⟩
  | keyword k =>
    cases k with
    | true_ | false_ =>
      cases ht
      exact ⟨_, rfl, congrArg _ hplace⟩
    | let_ | const => cases ht
  | identifier | symbol s | mark m => cases ht

end Token.Alike

/-! ## Readers that look one token ahead -/

section Peeks

variable {α β : Type} {r : Relocation} {V : α → α → Prop} {W : β → β → Prop}

/-- What is left of the tokens where a reader ends; where the depth ends, nothing is known of it. -/
def restOf : Except Halt (α × List Token) → Option (List Token)
  | .ok (_, rest) => some rest
  | .error (.missing _ rest) => some rest
  | .error .tooDeep => none

/-- Two outcomes are the same, and `rest'` is left by the second. -/
inductive SameEnd (V : α → α → Prop) (rest' : List Token) :
    Except Halt (α × List Token) → Except Halt (α × List Token) → Prop
  | ok {a a' : α} {rest : List Token} (h : V a a') :
    SameEnd V rest' (.ok (a, rest)) (.ok (a', rest'))
  | missing {expected : Expected} {rest : List Token} :
    SameEnd V rest' (.error (.missing expected rest)) (.error (.missing expected rest'))

namespace SameEnd

variable {expected : Expected} {a : α} {rest rest' : List Token}
  {out' : Except Halt (α × List Token)}

theorem eq_ok (h : SameEnd V rest' (.ok (a, rest)) out') :
    ∃ a', V a a' ∧ out' = .ok (a', rest') := by
  cases h with
  | ok ha => exact ⟨_, ha, rfl⟩

theorem eq_missing (h : SameEnd V rest' (.error (.missing expected rest)) out') :
    out' = .error (.missing expected rest') := by
  cases h
  rfl

end SameEnd

/-- What a reader comes to on `tokens`, another reader comes to on all tokens that begin alike: with
the tokens that were taken, and with the same word next. -/
def Peeks (r : Relocation) (V : α → α → Prop) (tokens : List Token)
    (out : Except Halt (α × List Token)) (run' : List Token → Except Halt (α × List Token)) :
    Prop :=
  ∀ rest ∈ restOf out, ∃ used, tokens = used ++ rest ∧
    ∀ used' rest', List.Forall₂ (Token.Alike r) used used' → SameNext r rest rest' →
      SameEnd V rest' out (run' (used' ++ rest'))

theorem sameNext_append {used used' rest rest' : List Token}
    (hused : List.Forall₂ (Token.Alike r) used used') (hnext : SameNext r rest rest') :
    SameNext r (used ++ rest) (used' ++ rest') := by
  cases hused with
  | nil => exact hnext
  | cons ht _ => exact .cons ht

theorem exists_of_forall₂_append {used more both' : List Token}
    (h : List.Forall₂ (Token.Alike r) (used ++ more) both') :
    ∃ used' more', List.Forall₂ (Token.Alike r) used used' ∧
      List.Forall₂ (Token.Alike r) more more' ∧ both' = used' ++ more' := by
  induction used generalizing both' with
  | nil => exact ⟨[], both', .nil, h, rfl⟩
  | cons t used ih =>
    cases h with
    | cons ht h =>
      obtain ⟨used', more', hused, hmore, rfl⟩ := ih h
      exact ⟨_ :: used', more', .cons ht hused, hmore, rfl⟩

namespace Peeks

variable {tokens rest : List Token} {t : Token} {out : Except Halt (α × List Token)}
  {run' : List Token → Except Halt (α × List Token)}

theorem tooDeep : Peeks r V tokens (.error .tooDeep) run' := nofun

/-- A reader that takes nothing. -/
theorem done {a : α}
    (h : ∀ rest', SameNext r tokens rest' → ∃ a', run' rest' = .ok (a', rest') ∧ V a a') :
    Peeks r V tokens (.ok (a, tokens)) run' := by
  intro rest hrest
  cases hrest
  refine ⟨[], rfl, fun used' rest' hused hnext => ?_⟩
  cases hused
  obtain ⟨a', hrun, ha⟩ := h rest' hnext
  rw [List.nil_append, hrun]
  exact .ok ha

/-- A reader that misses something at once. -/
theorem fail {expected : Expected}
    (h : ∀ rest', SameNext r tokens rest' → run' rest' = .error (.missing expected rest')) :
    Peeks r V tokens (.error (.missing expected tokens)) run' := by
  intro rest hrest
  cases hrest
  refine ⟨[], rfl, fun used' rest' hused hnext => ?_⟩
  cases hused
  rw [List.nil_append, h rest' hnext]
  exact .missing

/-- A reader that takes a token, and goes on. -/
theorem cons (h : ∀ t', t.Alike r t' → Peeks r V rest out fun ts => run' (t' :: ts)) :
    Peeks r V (t :: rest) out run' := by
  intro behind hbehind
  obtain ⟨t₀, ht₀⟩ := r.exists_alike t
  obtain ⟨used, hused₀, -⟩ := h t₀ ht₀ behind hbehind
  refine ⟨t :: used, congrArg _ hused₀, fun used' rest' hused hnext => ?_⟩
  cases hused with
  | @cons _ t' _ used' ht hused =>
    obtain ⟨used₁, hused₁, hrun⟩ := h t' ht behind hbehind
    cases List.append_cancel_right (hused₀.symm.trans hused₁)
    exact hrun used' rest' hused hnext

/-- The other reader may be chosen by the tokens that it is to read, if the same word is next. -/
theorem of_each (run₁ : List Token → List Token → Except Halt (α × List Token))
    (h : ∀ ts, SameNext r tokens ts → Peeks r V tokens out (run₁ ts))
    (hrun : ∀ ts, SameNext r tokens ts → run' ts = run₁ ts ts) : Peeks r V tokens out run' := by
  intro behind hbehind
  obtain ⟨tokens₀, htokens₀⟩ := r.exists_forall₂ tokens
  obtain ⟨used, rfl, -⟩ := h tokens₀ (r.sameNext_of_forall₂ htokens₀) behind hbehind
  refine ⟨used, rfl, fun used' rest' hused hnext => ?_⟩
  have hboth := sameNext_append hused hnext
  obtain ⟨used₁, hused₁, hsame⟩ := h _ hboth behind hbehind
  cases List.append_cancel_right hused₁
  rw [hrun _ hboth]
  exact hsame used' rest' hused hnext

/-- What the other reader does where another word is next does not matter. -/
theorem of_next {run₁ : List Token → Except Halt (α × List Token)} (h : Peeks r V tokens out run₁)
    (hrun : ∀ ts, SameNext r tokens ts → run' ts = run₁ ts) : Peeks r V tokens out run' :=
  of_each (fun _ => run₁) (fun _ _ => h) hrun

/-- What the other reader does where its depth would end does not matter. -/
theorem of_ne_tooDeep {run₁ : List Token → Except Halt (α × List Token)}
    (h : Peeks r V tokens out run₁) (hrun : ∀ ts, run₁ ts ≠ .error .tooDeep → run' ts = run₁ ts) :
    Peeks r V tokens out run' := by
  intro behind hbehind
  obtain ⟨used, rfl, hsame⟩ := h behind hbehind
  refine ⟨used, rfl, fun used' rest' hused hnext => ?_⟩
  have hsame := hsame used' rest' hused hnext
  rw [hrun _ fun hdeep => ?_]
  · exact hsame
  · rw [hdeep] at hsame
    cases hsame

theorem of_eq {out₁ : Except Halt (α × List Token)}
    {run₁ : List Token → Except Halt (α × List Token)} (h : Peeks r V tokens out₁ run₁)
    (hout : out = out₁) (hrun : ∀ ts, run' ts = run₁ ts) : Peeks r V tokens out run' := by
  obtain rfl : run' = run₁ := funext hrun
  exact hout ▸ h

/-- One reader after another. -/
theorem bind {k k' : α × List Token → Except Halt (β × List Token)} (h : Peeks r V tokens out run')
    (hk : ∀ a rest, out = .ok (a, rest) → ∀ a', V a a' →
      Peeks r W rest (k (a, rest)) fun ts => k' (a', ts)) :
    Peeks r W tokens (out >>= k) fun ts => run' ts >>= k' := by
  intro behind hbehind
  match out with
  | .error .tooDeep => cases hbehind
  | .error (.missing expected rest) =>
    cases hbehind
    obtain ⟨used, htokens, hsame⟩ := h _ rfl
    refine ⟨used, htokens, fun used' rest' hused hnext => ?_⟩
    simp only [(hsame used' rest' hused hnext).eq_missing]
    exact .missing
  | .ok (a, mid) =>
    obtain ⟨used, rfl, hsame⟩ := h mid rfl
    -- The second reader starts where the first one ends, whatever its value is.
    obtain ⟨used₀, hused₀⟩ := r.exists_forall₂ used
    obtain ⟨mid₀, hmid₀⟩ := r.exists_forall₂ mid
    obtain ⟨a₀, ha₀, -⟩ := (hsame used₀ mid₀ hused₀ (r.sameNext_of_forall₂ hmid₀)).eq_ok
    obtain ⟨more, rfl, -⟩ := hk a mid rfl a₀ ha₀ behind hbehind
    refine ⟨used ++ more, (List.append_assoc ..).symm, fun both' rest' hboth hnext => ?_⟩
    obtain ⟨used', more', hused, hmore, rfl⟩ := exists_of_forall₂_append hboth
    obtain ⟨a', ha', hrun⟩ := (hsame used' _ hused (sameNext_append hmore hnext)).eq_ok
    obtain ⟨more₁, hmore₁, hsame'⟩ := hk a _ rfl a' ha' behind hbehind
    cases List.append_cancel_right hmore₁
    simp only [List.append_assoc, hrun]
    exact hsame' more' rest' hmore hnext

/-- A reader whose value is made into another. -/
theorem map {g g' : α → β} (h : Peeks r V tokens out run') (hg : ∀ a a', V a a' → W (g a) (g' a')) :
    Peeks r W tokens (out.map fun p => (g p.1, p.2)) fun ts =>
      (run' ts).map fun p => (g' p.1, p.2) := by
  intro behind hbehind
  match out with
  | .error .tooDeep => cases hbehind
  | .error (.missing expected rest) =>
    obtain ⟨used, htokens, hsame⟩ := h behind hbehind
    refine ⟨used, htokens, fun used' rest' hused hnext => ?_⟩
    simp only [(hsame used' rest' hused hnext).eq_missing]
    exact .missing
  | .ok (a, rest) =>
    obtain ⟨used, htokens, hsame⟩ := h behind hbehind
    refine ⟨used, htokens, fun used' rest' hused hnext => ?_⟩
    obtain ⟨a', ha', hrun⟩ := (hsame used' rest' hused hnext).eq_ok
    simp only [hrun]
    exact .ok (hg a a' ha')

end Peeks

end Peeks

/-! ## Single tokens -/

open ScalarScript.Parser

section Tokens

variable {α : Type}

/-- A reader that takes one token first, which has to be such as `p` says, and goes on with `k`. -/
structure Takes (p : Token → Bool) (expected : Expected)
    (run : List Token → Except Halt (α × List Token))
    (k : Token → List Token → Except Halt (α × List Token)) : Prop where
  nil : run [] = .error (.missing expected [])
  taken : ∀ t rest, p t = true → run (t :: rest) = k t rest
  refused : ∀ t rest, p t = false → run (t :: rest) = .error (.missing expected (t :: rest))

theorem takes_takeMark (m : Mark) (expected : Expected)
    (k : List Token → Except Halt (α × List Token)) :
    Takes (·.isMark m) expected (fun ts => takeMark m expected ts >>= k) fun _ => k where
  nil := rfl
  taken t rest ht := by
    simp only [takeMark, ht]
    rfl
  refused t rest ht := by
    simp only [takeMark, ht]
    rfl

theorem takes_takeAssign (k : List Token → Except Halt (α × List Token)) :
    Takes (·.isSymbol .assign) .assignment (fun ts => takeAssign ts >>= k) fun _ => k where
  nil := rfl
  taken t rest ht := by
    simp only [takeAssign, ht]
    rfl
  refused t rest ht := by
    simp only [takeAssign, ht]
    rfl

theorem takes_takeName (expected : Expected)
    (k : Token × List Token → Except Halt (α × List Token)) :
    Takes (·.kind == .identifier) expected (fun ts => takeName expected ts >>= k) fun t rest =>
      k (t, rest) where
  nil := rfl
  taken t rest ht := by
    simp only [takeName, if_pos (beq_iff_eq.mp ht)]
    rfl
  refused t rest ht := by
    simp only [takeName, if_neg (beq_eq_false_iff_ne.mp ht)]
    rfl

variable {r : Relocation} {V : α → α → Prop}

theorem peeks_of_takes {p : Token → Bool} {expected : Expected}
    {run run' : List Token → Except Halt (α × List Token)}
    {k k' : Token → List Token → Except Halt (α × List Token)}
    (h : Takes p expected run k) (h' : Takes p expected run' k')
    (hp : ∀ t t', t.Alike r t' → p t' = p t)
    (hk : ∀ t t' rest, t.Alike r t' → Peeks r V rest (k t rest) (k' t')) (tokens : List Token) :
    Peeks r V tokens (run tokens) run' := by
  cases tokens with
  | nil =>
    rw [h.nil]
    refine .fail fun rest' hnext => ?_
    cases hnext
    exact h'.nil
  | cons t rest =>
    cases ht : p t with
    | true =>
      exact .cons fun t' halike => (hk t t' rest halike).of_eq (h.taken t rest ht) fun ts =>
        h'.taken t' ts ((hp t t' halike).trans ht)
    | false =>
      rw [h.refused t rest ht]
      refine .fail fun rest' hnext => ?_
      cases hnext with
      | cons halike => exact h'.refused _ _ ((hp _ _ halike).trans ht)

theorem peeks_takeMark {m : Mark} {expected : Expected}
    {k k' : List Token → Except Halt (α × List Token)} (hk : ∀ rest, Peeks r V rest (k rest) k')
    (tokens : List Token) :
    Peeks r V tokens (takeMark m expected tokens >>= k) fun ts => takeMark m expected ts >>= k' :=
  peeks_of_takes (takes_takeMark m expected k) (takes_takeMark m expected k')
    (fun _ _ h => h.isMark m) (fun _ _ rest _ => hk rest) tokens

theorem peeks_pure {a a' : α} (h : V a a') (tokens : List Token) :
    Peeks r V tokens (pure (a, tokens)) fun ts => pure (a', ts) :=
  .done fun _ _ => ⟨a', rfl, h⟩

theorem peeks_takeEnd {a a' : α} (h : V a a') (tokens : List Token) :
    Peeks r V tokens (takeEnd tokens >>= fun rest => pure (a, rest)) fun ts =>
      takeEnd ts >>= fun rest => pure (a', rest) := by
  cases tokens with
  | nil =>
    refine .done fun rest' hnext => ?_
    cases hnext
    exact ⟨a', rfl, h⟩
  | cons t rest =>
    refine (peeks_takeMark (peeks_pure h) (t :: rest)).of_next fun ts hnext => ?_
    cases hnext
    rfl

end Tokens

end ScalarScript
