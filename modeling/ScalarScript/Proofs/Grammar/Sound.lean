import ScalarScript.Proofs.Grammar.Derivation
import ScalarScript.Proofs.Grammar.Reading

/-!
# What is read is derived

A reader that succeeds has taken the tokens of a derivation off the front, and gives its tree.

`Derived k p tokens rest Q` says that up to `rest` the tokens are those of a derivation of the
phrase `p` that nests at most `k` deep and whose tree satisfies `Q`.

Results:
* `derived_runArguments` to `derived_expression`: one lemma for each reader, on what the readers of
  its parts derive.
* **`derived_expr`**: at every depth, what is read as an expression is derived as one.
-/

namespace ScalarScript.Grammar

open ScalarScript.Parser

/-- Up to a rest, tokens are those of a derivation. -/
def Derived (k : Nat) (p : Phrase) (tokens rest : List Token) (Q : p.Meaning → Prop) : Prop :=
  ∃ d : Derivation p, tokens = d.tokens ++ rest ∧ d.nesting ≤ k ∧ Q d.tree

variable {k : Nat} {tokens rest : List Token} {e : Expr}

/-! ## Operands -/

section Operands

variable {expr : Parser Expr}
  (hx : ∀ {tokens rest e}, expr.run tokens = .ok (e, rest) → Derived k .expr tokens rest (· = e))

include hx

theorem derived_runArguments {name : Text} {es : List Expr}
    (h : runArguments expr name tokens = .ok (es, rest)) :
    ∃ closing : MarkToken .closeParen,
      Derived k .arguments tokens (closing.1 :: rest) (· = es) := by
  suffices hs : ∃ (first : Derivation .expr) (tail : Derivation .others)
      (closing : MarkToken .closeParen),
      tokens = first.tokens ++ (tail.tokens ++ closing.1 :: rest) ∧
        first.nesting ≤ k ∧ tail.nesting ≤ k ∧ first.tree :: tail.tree = es by
    obtain ⟨first, tail, closing, rfl, hf, ht, rfl⟩ := hs
    exact ⟨closing, .arguments first tail, (List.append_assoc _ _ _).symm,
      Nat.max_le.mpr ⟨hf, ht⟩, rfl⟩
  induction es generalizing tokens with
  | nil =>
    obtain ⟨_, _, _, -, ⟨-, -, he⟩ | ⟨-, _, -, he⟩⟩ := runArguments_eq_ok_iff.mp h <;> cases he
  | cons e es ih =>
    obtain ⟨_, t, behind, he, ⟨hc, rfl, heq⟩ | ⟨hc, _, ho, heq⟩⟩ := runArguments_eq_ok_iff.mp h
    · cases heq
      obtain ⟨first, rfl, hk, rfl⟩ := hx he
      exact ⟨first, .noOther, ⟨t, hc⟩, rfl, hk, Nat.zero_le k, rfl⟩
    · cases heq
      obtain ⟨first, rfl, hk, rfl⟩ := hx he
      obtain ⟨next, tail, closing, rfl, hn, ht, rfl⟩ := ih ho
      refine ⟨first, .other ⟨t, hc⟩ next tail, closing, ?_, hk, Nat.max_le.mpr ⟨hn, ht⟩, rfl⟩
      simp only [Derivation.tokens, List.cons_append, List.append_assoc]

theorem derived_runCall {name : Text} {es : List Expr}
    (h : runCall expr name tokens = .ok (es, rest)) :
    ∃ closing : MarkToken .closeParen,
      Derived k .arguments tokens (closing.1 :: rest) (· = es) := by
  rcases runCall_eq_ok_iff.mp h with ⟨closing, hc, rfl, rfl⟩ | ⟨-, h⟩
  · exact ⟨⟨closing, hc⟩, .noArgument, rfl, Nat.zero_le k, rfl⟩
  · exact derived_runArguments hx h

theorem derived_runPrimary (h : runPrimary expr tokens = .ok (e, rest)) :
    Derived k .primary tokens rest (· = e) := by
  cases tokens with
  | nil => cases h
  | cons t ts =>
    rcases runPrimary_cons_eq_ok_iff.mp h with ⟨hl, rfl⟩ | ⟨hn, h⟩ | ⟨ho, h⟩
    · have hsome : t.literal?.isSome = true := by rw [hl]; rfl
      refine ⟨.literal ⟨t, hsome⟩, rfl, Nat.zero_le k, ?_⟩
      exact Option.get_of_eq_some hsome hl
    · rcases runName_eq_ok_iff.mp h with ⟨-, rfl, rfl⟩ | ⟨opening, args, behind, ho, rfl, hc, rfl⟩
      · exact ⟨.name ⟨t, hn⟩, rfl, Nat.zero_le k, rfl⟩
      · obtain ⟨closing, d, rfl, hk, rfl⟩ := derived_runCall hx hc
        refine ⟨.call ⟨t, hn⟩ ⟨opening, ho⟩ d closing, ?_, hk, rfl⟩
        simp only [Derivation.tokens, List.cons_append, List.append_assoc, List.nil_append]
    · obtain ⟨closing, hc, he⟩ := runGroup_eq_ok_iff.mp h
      obtain ⟨d, rfl, hk, rfl⟩ := hx he
      refine ⟨.group ⟨t, ho⟩ d ⟨closing, hc⟩, ?_, hk, rfl⟩
      simp only [Derivation.tokens, List.cons_append, List.append_assoc, List.nil_append]

theorem derived_runPostfix {target : Expr}
    (h : runPostfix expr target tokens = .ok (e, rest)) :
    Derived k .suffixes tokens rest (· target = e) := by
  fun_induction runPostfix expr target tokens with
  | case1 target =>
    cases h
    exact ⟨.noSuffix, rfl, Nat.zero_le k, rfl⟩
  | case2 => cases h
  | case3 target dot behind hd call behind' hm _ ih =>
    obtain ⟨n, opening, args, ts, hn, ho, rfl, hc, rfl⟩ := runMethod_eq_ok_iff.mp hm
    obtain ⟨closing, args, rfl, ha, rfl⟩ := derived_runCall hx hc
    obtain ⟨tail, rfl, ht, rfl⟩ := ih h
    refine ⟨.method ⟨dot, Token.isMark_eq_true_iff.mp hd⟩ ⟨n, hn⟩ ⟨opening, ho⟩ args closing tail,
      ?_, Nat.max_le.mpr ⟨ha, ht⟩, rfl⟩
    simp only [Derivation.tokens, List.cons_append, List.append_assoc]
  | case4 => cases h
  | case5 target opening behind _ ho i behind' hi _ ih =>
    obtain ⟨closing, hc, he⟩ := runIndex_eq_ok_iff.mp hi
    obtain ⟨i, rfl, hk, rfl⟩ := hx he
    obtain ⟨tail, rfl, ht, rfl⟩ := ih h
    refine ⟨.index ⟨opening, Token.isMark_eq_true_iff.mp ho⟩ i ⟨closing, hc⟩ tail, ?_,
      Nat.max_le.mpr ⟨hk, ht⟩, rfl⟩
    simp only [Derivation.tokens, List.cons_append, List.append_assoc]
  | case6 target t ts _ _ =>
    cases h
    exact ⟨.noSuffix, rfl, Nat.zero_le k, rfl⟩

theorem derived_runOperand (h : runOperand expr tokens = .ok (e, rest)) :
    Derived k .operand tokens rest (· = e) := by
  obtain ⟨_, behind, hp, hs⟩ := runOperand_eq_ok_iff.mp h
  obtain ⟨head, rfl, hk, rfl⟩ := derived_runPrimary hx hp
  obtain ⟨tail, rfl, ht, rfl⟩ := derived_runPostfix hx hs
  exact ⟨.operand head tail, (List.append_assoc _ _ _).symm, Nat.max_le.mpr ⟨hk, ht⟩, rfl⟩

end Operands

/-! ## Chains of operators -/

section Chains

variable {unary : Parser Expr}
  (hu : ∀ {tokens rest e}, unary.run tokens = .ok (e, rest) → Derived k .unary tokens rest (· = e))

include hu

theorem derived_runAdditive {left : Expr} (h : runAdditive unary left tokens = .ok (e, rest)) :
    Derived k .additions tokens rest (· left = e) := by
  fun_induction runAdditive unary left tokens with
  | case1 left =>
    cases h
    exact ⟨.noAddition, rfl, Nat.zero_le k, rfl⟩
  | case2 left t ts hop =>
    cases h
    exact ⟨.noAddition, rfl, Nat.zero_le k, rfl⟩
  | case3 => cases h
  | case4 left t behind op hop right behind' hr _ ih =>
    have hsome : t.additive?.isSome = true := by rw [hop]; rfl
    have hget : t.additive?.get hsome = op := Option.get_of_eq_some hsome hop
    obtain ⟨right, rfl, hk, rfl⟩ := hu hr
    obtain ⟨tail, rfl, ht, rfl⟩ := ih h
    refine ⟨.add ⟨t, hsome⟩ right tail, ?_, Nat.max_le.mpr ⟨hk, ht⟩, ?_⟩
    · simp only [Derivation.tokens, List.cons_append, List.append_assoc]
    · rw [← hget]
      rfl

theorem derived_additive (h : (Parser.additive unary).run tokens = .ok (e, rest)) :
    Derived k .additive tokens rest (· = e) := by
  obtain ⟨_, behind, hl, ht⟩ := additive_eq_ok_iff.mp h
  obtain ⟨left, rfl, hk, rfl⟩ := hu hl
  obtain ⟨tail, rfl, hk', rfl⟩ := derived_runAdditive hu ht
  exact ⟨.additive left tail, (List.append_assoc _ _ _).symm, Nat.max_le.mpr ⟨hk, hk'⟩, rfl⟩

theorem derived_runComparison {left : Expr}
    (h : runComparison (Parser.additive unary) left tokens = .ok (e, rest)) :
    Derived k .comparison tokens rest (· left = e) := by
  cases tokens with
  | nil =>
    cases h
    exact ⟨.noComparison, rfl, Nat.zero_le k, rfl⟩
  | cons t ts =>
    cases hc : t.comparison? with
    | none =>
      rw [runComparison_stop (by simpa using hc)] at h
      cases h
      exact ⟨.noComparison, rfl, Nat.zero_le k, rfl⟩
    | some c =>
      rw [runComparison_operator hc, Except.map_eq_ok_iff] at h
      obtain ⟨⟨_, _⟩, hr, he⟩ := h
      cases he
      have hsome : t.comparison?.isSome = true := by rw [hc]; rfl
      obtain rfl : t.comparison?.get hsome = c := Option.get_of_eq_some hsome hc
      obtain ⟨right, rfl, hk, rfl⟩ := derived_additive hu hr
      exact ⟨.compare ⟨t, hsome⟩ right, rfl, hk, rfl⟩

theorem derived_expression (h : (expression unary).run tokens = .ok (e, rest)) :
    Derived k .expr tokens rest (· = e) := by
  obtain ⟨_, behind, hl, ht⟩ := comparison_eq_ok_iff.mp h
  obtain ⟨left, rfl, hk, rfl⟩ := derived_additive hu hl
  obtain ⟨tail, rfl, hk', rfl⟩ := derived_runComparison hu ht
  exact ⟨.expr left tail, (List.append_assoc _ _ _).symm, Nat.max_le.mpr ⟨hk, hk'⟩, rfl⟩

/-- One more level of nesting. -/
theorem derived_level (h : (level unary).run tokens = .ok (e, rest)) :
    Derived (k + 1) .unary tokens rest (· = e) := by
  by_cases hop : ∀ t ∈ tokens.head?, t.unary? = none
  · rw [level_operand hop] at h
    obtain ⟨d, rfl, hk, rfl⟩ := derived_runOperand (derived_expression hu) h
    exact ⟨.bare d, rfl, Nat.succ_le_succ hk, rfl⟩
  · cases tokens with
    | nil => exact absurd nofun hop
    | cons t ts =>
      obtain ⟨op, ht⟩ : ∃ op, t.unary? = some op :=
        Option.ne_none_iff_exists'.mp fun hn => hop (by simpa using hn)
      rw [level_unary ht, Except.map_eq_ok_iff] at h
      obtain ⟨⟨_, _⟩, hr, he⟩ := h
      cases he
      have hsome : t.unary?.isSome = true := by rw [ht]; rfl
      obtain rfl : t.unary?.get hsome = op := Option.get_of_eq_some hsome ht
      obtain ⟨d, rfl, hk, rfl⟩ := hu hr
      exact ⟨.unary ⟨t, hsome⟩ d, rfl, Nat.succ_le_succ hk, rfl⟩

end Chains

/-! ## Every depth -/

theorem derived_unary (h : (Parser.unary k).run tokens = .ok (e, rest)) :
    Derived k .unary tokens rest (· = e) := by
  induction k generalizing tokens rest e with
  | zero => cases h
  | succ k ih => exact derived_level ih h

/-- **What is read as an expression is derived as one.** -/
theorem derived_expr (h : (Parser.expr k).run tokens = .ok (e, rest)) :
    Derived k .expr tokens rest (· = e) :=
  derived_expression derived_unary h

end ScalarScript.Grammar
