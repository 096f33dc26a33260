import ScalarScript.Proofs.Grammar.Derivation

/-!
# Properties of derived trees

A property that the leaves of a tree get from their tokens, and that every node keeps if its
operands have it, holds of every tree that is derived from such tokens.

* `Token.literal?_cases`: what a literal may be as an expression.
* `Built Q P`: tokens with `Q` build expressions with `P`.
* `Phrase.Means P`: what a phrase means has `P`, or keeps it.

Results: **`Built.means_tree`**; `Built.expressions_statement` for the expressions of a statement
and `forall_statements` for the statements of a script.
-/

namespace ScalarScript

/-- The literals are strings, characters, numbers and truth values. -/
theorem Token.literal?_cases {t : Token} {e : Expr} (h : t.literal? = some e) :
    (∃ s, e = .string s t.position) ∨ (∃ c : Char, e = .char (.int c.toNat) t.position) ∨
      (∃ n, t.kind = .number n ∧ e = .int (.int n) t.position) ∨
      ∃ b, e = .bool (.bool b) t.position := by
  obtain ⟨kind, text, position⟩ := t
  cases kind with
  | string s => exact .inl ⟨s, (Option.some.inj h).symm⟩
  | char c => exact .inr (.inl ⟨c, (Option.some.inj h).symm⟩)
  | number n => exact .inr (.inr (.inl ⟨n, rfl, (Option.some.inj h).symm⟩))
  | keyword k =>
    cases k with
    | true_ | false_ => exact .inr (.inr (.inr ⟨_, (Option.some.inj h).symm⟩))
    | let_ | const => cases h
  | identifier | symbol s | mark m => cases h

namespace Grammar

/-- Leaves of tokens with `Q` have `P`, and so have nodes whose operands do. -/
structure Built (Q : Token → Prop) (P : Expr → Prop) : Prop where
  literal : ∀ {t : Token} {e : Expr}, Q t → t.literal? = some e → P e
  name : ∀ {t : Token}, Q t → t.kind = .identifier → P (.var (.text t.text) t.position)
  binary : ∀ {op : BinaryOperator} {e f : Expr} {pos : Option Position},
    P e → P f → P (.binary op e f pos)
  unary : ∀ {op : UnaryOperator} {e : Expr} {pos : Option Position}, P e → P (.unary op e pos)
  method : ∀ {e : Expr} {t : Token} {es : List Expr}, Q t → t.kind = .identifier → P e →
    (∀ x ∈ es, P x) → P (.method e (.text t.text) es t.position)
  call : ∀ {t : Token} {es : List Expr}, Q t → t.kind = .identifier → (∀ x ∈ es, P x) →
    P (.call (.text t.text) es t.position)
  index : ∀ {e i : Expr} {pos : Option Position}, P e → P i → P (.index e i pos)

/-- What a phrase means has the property `P`, or gives an expression with it to one that has it. -/
def Phrase.Means (P : Expr → Prop) : {p : Phrase} → p.Meaning → Prop
  | .expr, (e : Expr) | .additive, (e : Expr) | .unary, (e : Expr) | .operand, (e : Expr)
  | .primary, (e : Expr) => P e
  | .comparison, (f : Expr → Expr) | .additions, (f : Expr → Expr)
  | .suffixes, (f : Expr → Expr) => ∀ e, P e → P (f e)
  | .arguments, (es : List Expr) | .others, (es : List Expr) => ∀ e ∈ es, P e

namespace Built

variable {Q : Token → Prop} {P : Expr → Prop}

/-- **What tokens with the property build has it.** -/
theorem means_tree (h : Built Q P) {p : Phrase} (d : Derivation p) (hd : ∀ t ∈ d.tokens, Q t) :
    Phrase.Means P d.tree := by
  induction d with
  | expr left tail hl ht =>
    obtain ⟨hleft, htail⟩ := List.forall_mem_append.mp hd
    exact ht htail _ (hl hleft)
  | noComparison => exact fun _ he => he
  | compare op right hr =>
    obtain ⟨-, hright⟩ := List.forall_mem_cons.mp hd
    exact fun _ he => h.binary he (hr hright)
  | additive left tail hl ht =>
    obtain ⟨hleft, htail⟩ := List.forall_mem_append.mp hd
    exact ht htail _ (hl hleft)
  | noAddition => exact fun _ he => he
  | add op right tail hr ht =>
    obtain ⟨-, hrest⟩ := List.forall_mem_cons.mp hd
    obtain ⟨hright, htail⟩ := List.forall_mem_append.mp hrest
    exact fun _ he => ht htail _ (h.binary he (hr hright))
  | unary op e he =>
    obtain ⟨-, hrest⟩ := List.forall_mem_cons.mp hd
    exact h.unary (he hrest)
  | bare e he => exact he hd
  | operand head tail hh ht =>
    obtain ⟨hhead, htail⟩ := List.forall_mem_append.mp hd
    exact ht htail _ (hh hhead)
  | noSuffix => exact fun _ he => he
  | method dot n opening args closing tail ha ht =>
    simp only [Derivation.tokens, List.forall_mem_cons, List.forall_mem_append] at hd
    obtain ⟨-, hn, -, hargs, -, htail⟩ := hd
    exact fun _ he => ht htail _ (h.method hn n.2 he (ha hargs))
  | index opening i closing tail hi ht =>
    simp only [Derivation.tokens, List.forall_mem_cons, List.forall_mem_append] at hd
    obtain ⟨-, hindex, -, htail⟩ := hd
    exact fun _ he => ht htail _ (h.index he (hi hindex))
  | literal t => exact h.literal (hd t.1 List.mem_cons_self) (Option.some_get t.2).symm
  | name n => exact h.name (hd n.1 List.mem_cons_self) n.2
  | call n opening args closing ha =>
    simp only [Derivation.tokens, List.forall_mem_cons, List.forall_mem_append] at hd
    obtain ⟨hn, -, hargs, -⟩ := hd
    exact h.call hn n.2 (ha hargs)
  | group opening e closing he =>
    simp only [Derivation.tokens, List.forall_mem_cons, List.forall_mem_append] at hd
    exact he hd.2.1
  | noArgument => exact nofun
  | arguments first tail hf ht =>
    obtain ⟨hfirst, htail⟩ := List.forall_mem_append.mp hd
    exact List.forall_mem_cons.mpr ⟨hf hfirst, ht htail⟩
  | noOther => exact nofun
  | other comma next tail hn ht =>
    obtain ⟨-, hrest⟩ := List.forall_mem_cons.mp hd
    obtain ⟨hnext, htail⟩ := List.forall_mem_append.mp hrest
    exact List.forall_mem_cons.mpr ⟨hn hnext, ht htail⟩

/-- The expressions of a statement have what their tokens build. -/
theorem expressions_statement (h : Built Q P) (s : StatementDerivation)
    (hs : ∀ t ∈ s.tokens, Q t) : ∀ e ∈ s.statement.expressions, P e := by
  have hvalue : ∀ value : Derivation .expr, (∀ t ∈ value.tokens, Q t) →
      ∀ e ∈ [value.tree], P e := by
    intro value ht e he
    rw [List.mem_singleton.mp he]
    exact h.means_tree value ht
  cases s with
  | declare keyword n sign value | constant keyword n sign value =>
    exact hvalue value fun t ht => hs t (by simp [StatementDerivation.tokens, ht])
  | assign n sign value =>
    exact hvalue value fun t ht => hs t (by simp [StatementDerivation.tokens, ht])
  | indexAssign n opening i closing sign value =>
    have hi := h.means_tree i fun t ht => hs t (by simp [StatementDerivation.tokens, ht])
    exact List.forall_mem_cons.mpr
      ⟨hi, hvalue value fun t ht => hs t (by simp [StatementDerivation.tokens, ht])⟩
  | print n opening value closing =>
    exact hvalue value fun t ht => hs t (by simp [StatementDerivation.tokens, ht])
  | expression value hp => exact hvalue value hs

end Built

/-- The statements of a script have what each of them gets from its tokens. -/
theorem forall_statements {Q : Token → Prop} {R : Statement → Prop}
    (h : ∀ s : StatementDerivation, (∀ t ∈ s.tokens, Q t) → R s.statement) (d : ScriptDerivation)
    (hd : ∀ t ∈ d.tokens, Q t) : ∀ s ∈ d.statements, R s := by
  induction d with
  | empty => exact nofun
  | last s => exact List.forall_mem_singleton.mpr (h s hd)
  | skip semicolon rest ih =>
    obtain ⟨-, hrest⟩ := List.forall_mem_cons.mp hd
    exact ih hrest
  | statement s semicolon rest ih =>
    obtain ⟨hs, hrest⟩ := List.forall_mem_append.mp hd
    obtain ⟨-, hrest⟩ := List.forall_mem_cons.mp hrest
    exact List.forall_mem_cons.mpr ⟨h s hs, ih hrest⟩

end Grammar

end ScalarScript
