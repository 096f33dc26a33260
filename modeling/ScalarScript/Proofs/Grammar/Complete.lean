import ScalarScript.Proofs.Grammar.Reading
import ScalarScript.Proofs.Grammar.Unambiguous

/-!
# What the grammar derives is read

`Reads k d` says that the reader of the phrase that `d` derives, at depth `k`, takes the tokens of
`d` off the front of any tokens at which the phrase stops, and gives the tree of `d`. For what
follows a first operand the reader starts from any tree before it, and arguments end with their
parenthesis.

Results:
* `Reads` has one lemma for each rule of the grammar.
* **`reads`**: every derivation is read at the depth of its nesting and at all greater ones.
-/

namespace ScalarScript.Grammar

open ScalarScript.Parser

/-- The reader of a phrase reads a derivation. -/
def Reads (k : Nat) : {p : Phrase} → Derivation p → Prop
  | .expr, d => ∀ rest, Stops .expr rest →
    (Parser.expr k).run (d.tokens ++ rest) = .ok (d.tree, rest)
  | .comparison, d => ∀ left rest, Stops .comparison rest →
    runComparison (Parser.additive (Parser.unary k)) left (d.tokens ++ rest) =
      .ok (d.tree left, rest)
  | .additive, d => ∀ rest, Stops .additive rest →
    (Parser.additive (Parser.unary k)).run (d.tokens ++ rest) = .ok (d.tree, rest)
  | .additions, d => ∀ left rest, Stops .additions rest →
    runAdditive (Parser.unary k) left (d.tokens ++ rest) = .ok (d.tree left, rest)
  | .unary, d => ∀ rest, Stops .unary rest →
    (Parser.unary k).run (d.tokens ++ rest) = .ok (d.tree, rest)
  | .operand, d => ∀ rest, Stops .operand rest →
    runOperand (Parser.expr k) (d.tokens ++ rest) = .ok (d.tree, rest)
  | .suffixes, d => ∀ target rest, Stops .suffixes rest →
    runPostfix (Parser.expr k) target (d.tokens ++ rest) = .ok (d.tree target, rest)
  | .primary, d => ∀ rest, Stops .primary rest →
    runPrimary (Parser.expr k) (d.tokens ++ rest) = .ok (d.tree, rest)
  | .arguments, d => ∀ (name : Text) (closing : MarkToken .closeParen) rest,
    runCall (Parser.expr k) name (d.tokens ++ closing.1 :: rest) = .ok (d.tree, rest)
  | .others, d => ∀ (name : Text) (closing : MarkToken .closeParen) rest e tokens,
    (Parser.expr k).run tokens = .ok (e, d.tokens ++ closing.1 :: rest) →
      runArguments (Parser.expr k) name tokens = .ok (e :: d.tree, rest)

namespace Reads

variable {k : Nat}

/-! ## Chains of operators -/

theorem expr {left : Derivation .additive} {tail : Derivation .comparison}
    (hl : Reads k left) (ht : Reads k tail) : Reads k (.expr left tail) := by
  intro rest hs
  rw [Derivation.tokens, List.append_assoc]
  exact comparison_eq_ok_iff.mpr
    ⟨left.tree, tail.tokens ++ rest, hl _ (Precedes.comparison.stops_append tail hs),
      ht left.tree rest hs⟩

theorem noComparison : Reads k .noComparison := by
  intro left rest hs
  refine runComparison_stop fun t ht => ?_
  have := hs t ht
  simp_all [Phrase.continuedBy]

theorem compare {op : ComparisonToken} {right : Derivation .additive} (hr : Reads k right) :
    Reads k (.compare op right) := by
  intro left rest hs
  rw [Derivation.tokens, List.cons_append,
    runComparison_operator (Option.some_get op.2).symm, hr rest (Precedes.comparison.stops hs)]
  rfl

theorem additive {left : Derivation .unary} {tail : Derivation .additions}
    (hl : Reads k left) (ht : Reads k tail) : Reads k (.additive left tail) := by
  intro rest hs
  rw [Derivation.tokens, List.append_assoc]
  exact additive_eq_ok_iff.mpr
    ⟨left.tree, tail.tokens ++ rest, hl _ (Precedes.additions.stops_append tail hs),
      ht left.tree rest hs⟩

theorem noAddition : Reads k .noAddition := by
  intro left rest hs
  refine runAdditive_stop fun t ht => ?_
  have := hs t ht
  simp_all [Phrase.continuedBy]

theorem add {op : AdditiveToken} {right : Derivation .unary} {tail : Derivation .additions}
    (hr : Reads k right) (ht : Reads k tail) : Reads k (.add op right tail) := by
  intro left rest hs
  rw [Derivation.tokens, List.cons_append, List.append_assoc,
    runAdditive_operator (Option.some_get op.2).symm, Except.bind_eq_ok_iff]
  exact ⟨_, hr _ (Precedes.additions.stops_append tail hs), ht _ rest hs⟩

theorem unary {op : UnaryToken} {e : Derivation .unary} (he : Reads k e) :
    Reads (k + 1) (.unary op e) := by
  intro rest hs
  rw [Derivation.tokens, List.cons_append, unary_succ, level_unary (Option.some_get op.2).symm,
    he rest hs]
  rfl

theorem bare {e : Derivation .operand} (he : Reads k e) : Reads (k + 1) (.bare e) := by
  intro rest hs
  rw [Derivation.tokens, unary_succ, level_operand]
  · exact he rest hs
  · intro t ht
    rw [head_append e trivial] at ht
    exact unary?_of_opensOperand (opensWith_head e t ht)

/-! ## Operands -/

theorem operand {head : Derivation .primary} {tail : Derivation .suffixes}
    (hh : Reads k head) (ht : Reads k tail) : Reads k (.operand head tail) := by
  intro rest hs
  rw [Derivation.tokens, List.append_assoc]
  exact runOperand_eq_ok_iff.mpr
    ⟨head.tree, tail.tokens ++ rest, hh _ (Precedes.suffixes.stops_append tail hs),
      ht head.tree rest hs⟩

theorem noSuffix : Reads k .noSuffix := by
  intro target rest hs
  refine runPostfix_stop fun t ht => ?_
  have := hs t ht
  simp only [Phrase.continuedBy, continuesOperand, Bool.or_eq_false_iff,
    Token.isMark_eq_false_iff] at this
  exact ⟨this.1.2, this.2⟩

theorem method {dot : MarkToken .dot} {n : NameToken} {opening : MarkToken .openParen}
    {args : Derivation .arguments} {closing : MarkToken .closeParen}
    {tail : Derivation .suffixes} (ha : Reads k args) (ht : Reads k tail) :
    Reads k (.method dot n opening args closing tail) := by
  intro target rest hs
  simp only [Derivation.tokens, List.cons_append, List.append_assoc]
  rw [runPostfix_dot dot.2, Except.bind_eq_ok_iff]
  refine ⟨(.method target (.text n.1.text) args.tree n.1.position, tail.tokens ++ rest), ?_,
    ht _ rest hs⟩
  exact runMethod_eq_ok_iff.mpr
    ⟨n.1, opening.1, args.tree, _, n.2, opening.2, rfl, ha n.1.text closing _, rfl⟩

theorem index {opening : MarkToken .openBracket} {i : Derivation .expr}
    {closing : MarkToken .closeBracket} {tail : Derivation .suffixes} (hi : Reads k i)
    (ht : Reads k tail) : Reads k (.index opening i closing tail) := by
  intro target rest hs
  simp only [Derivation.tokens, List.cons_append, List.append_assoc]
  rw [runPostfix_bracket opening.2, Except.bind_eq_ok_iff]
  refine ⟨(i.tree, tail.tokens ++ rest), ?_, ht _ rest hs⟩
  exact runIndex_eq_ok_iff.mpr ⟨closing.1, closing.2, hi _ (stops_closeBracket closing _)⟩

theorem literal {t : LiteralToken} : Reads k (.literal t) := fun _ _ =>
  runPrimary_cons_eq_ok_iff.mpr (.inl ⟨(Option.some_get t.2).symm, rfl⟩)

theorem name {n : NameToken} : Reads k (.name n) := by
  intro rest hs
  refine runPrimary_cons_eq_ok_iff.mpr (.inr (.inl ⟨n.2, ?_⟩))
  refine runName_eq_ok_iff.mpr (.inl ⟨fun t ht ho => ?_, rfl, rfl⟩)
  have := hs t ht
  rw [Phrase.continuedBy, Token.isMark_eq_true_iff.mpr ho] at this
  cases this

theorem call {n : NameToken} {opening : MarkToken .openParen} {args : Derivation .arguments}
    {closing : MarkToken .closeParen} (ha : Reads k args) :
    Reads k (.call n opening args closing) := by
  intro rest hs
  simp only [Derivation.tokens, List.cons_append, List.append_assoc, List.nil_append]
  refine runPrimary_cons_eq_ok_iff.mpr (.inr (.inl ⟨n.2, ?_⟩))
  exact runName_eq_ok_iff.mpr
    (.inr ⟨opening.1, args.tree, _, opening.2, rfl, ha n.1.text closing rest, rfl⟩)

theorem group {opening : MarkToken .openParen} {e : Derivation .expr}
    {closing : MarkToken .closeParen} (he : Reads k e) : Reads k (.group opening e closing) := by
  intro rest hs
  simp only [Derivation.tokens, List.cons_append, List.append_assoc, List.nil_append]
  refine runPrimary_cons_eq_ok_iff.mpr (.inr (.inr ⟨opening.2, ?_⟩))
  exact runGroup_eq_ok_iff.mpr ⟨closing.1, closing.2, he _ (stops_closeParen closing rest).1⟩

/-! ## Arguments -/

theorem noArgument : Reads k .noArgument := fun _ closing _ =>
  runCall_eq_ok_iff.mpr (.inl ⟨closing.1, closing.2, rfl, rfl⟩)

theorem arguments {first : Derivation .expr} {tail : Derivation .others}
    (hf : Reads k first) (ht : Reads k tail) : Reads k (.arguments first tail) := by
  intro name closing rest
  rw [Derivation.tokens, List.append_assoc]
  refine runCall_eq_ok_iff.mpr (.inr ⟨fun t hhead hc => ?_, ?_⟩)
  · rw [head_append first trivial] at hhead
    have := continuedBy_of_opensWith (p := .arguments) id (opensWith_head first t hhead)
    rw [Phrase.continuedBy, Token.isMark_eq_true_iff.mpr hc] at this
    cases this
  · refine ht name closing rest first.tree _ (hf _ ?_)
    exact Precedes.others.stops_append tail (stops_closeParen closing rest).2

theorem noOther : Reads k .noOther := fun _ closing rest e _ h =>
  runArguments_eq_ok_iff.mpr ⟨e, closing.1, rest, h, .inl ⟨closing.2, rfl, rfl⟩⟩

theorem other {comma : MarkToken .comma} {next : Derivation .expr} {tail : Derivation .others}
    (hn : Reads k next) (ht : Reads k tail) : Reads k (.other comma next tail) := by
  intro name closing rest e tokens h
  simp only [Derivation.tokens, List.cons_append, List.append_assoc] at h
  refine runArguments_eq_ok_iff.mpr
    ⟨e, comma.1, _, h, .inr ⟨comma.2, next.tree :: tail.tree, ?_, rfl⟩⟩
  refine ht name closing rest next.tree _ (hn _ ?_)
  exact Precedes.others.stops_append tail (stops_closeParen closing rest).2

end Reads

/-- **What the grammar derives is read**, at its nesting and at all greater depths. -/
theorem reads {p : Phrase} (d : Derivation p) {k : Nat} (h : d.nesting ≤ k) : Reads k d := by
  induction d generalizing k with
  | expr left tail hl ht => 
    rw [Derivation.nesting, Nat.max_le] at h
    exact (hl h.1).expr (ht h.2)
  | noComparison => exact .noComparison
  | compare op right hr => exact (hr h).compare
  | additive left tail hl ht =>
    rw [Derivation.nesting, Nat.max_le] at h
    exact (hl h.1).additive (ht h.2)
  | noAddition => exact .noAddition
  | add op right tail hr ht =>
    rw [Derivation.nesting, Nat.max_le] at h
    exact (hr h.1).add (ht h.2)
  | unary op e he =>
    obtain ⟨k, rfl⟩ := Nat.exists_eq_add_of_le' (Nat.le_trans (Nat.le_add_left 1 _) h)
    exact (he (Nat.le_of_succ_le_succ h)).unary
  | bare e he =>
    obtain ⟨k, rfl⟩ := Nat.exists_eq_add_of_le' (Nat.le_trans (Nat.le_add_left 1 _) h)
    exact (he (Nat.le_of_succ_le_succ h)).bare
  | operand head tail hh ht =>
    rw [Derivation.nesting, Nat.max_le] at h
    exact (hh h.1).operand (ht h.2)
  | noSuffix => exact .noSuffix
  | method dot n opening args closing tail ha ht =>
    rw [Derivation.nesting, Nat.max_le] at h
    exact (ha h.1).method (ht h.2)
  | index opening i closing tail hi ht =>
    rw [Derivation.nesting, Nat.max_le] at h
    exact (hi h.1).index (ht h.2)
  | literal t => exact .literal
  | name n => exact .name
  | call n opening args closing ha => exact (ha h).call
  | group opening e closing he => exact (he h).group
  | noArgument => exact .noArgument
  | arguments first tail hf ht =>
    rw [Derivation.nesting, Nat.max_le] at h
    exact (hf h.1).arguments (ht h.2)
  | noOther => exact .noOther
  | other comma next tail hn ht =>
    rw [Derivation.nesting, Nat.max_le] at h
    exact (hn h.1).other (ht h.2)

end ScalarScript.Grammar
