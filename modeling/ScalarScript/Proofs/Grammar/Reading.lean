import ScalarScript.Syntax.Parse

/-!
# What each reader accepts

For the readers that choose by the next token: an equivalence where the choice is one of several
phrases, and for chains one equation for each way to go on and one for the end.

Results: `runArguments_eq_ok_iff` to `comparison_eq_ok_iff` for the phrases of an expression;
`runIndexAssign?_eq_none` for statements.
-/

namespace ScalarScript.Parser

open Except (bind_eq_ok_iff map_eq_ok_iff)

variable {expr operand : Parser Expr} {name : Text} {tokens rest : List Token} {e : Expr}

/-! ## Arguments -/

theorem runArguments_eq_ok_iff {es : List Expr} :
    runArguments expr name tokens = .ok (es, rest) ↔
      ∃ e t behind, expr.run tokens = .ok (e, t :: behind) ∧
        (t.kind = .mark .closeParen ∧ behind = rest ∧ es = [e] ∨
          t.kind = .mark .comma ∧
            ∃ others, runArguments expr name behind = .ok (others, rest) ∧ es = e :: others) := by
  rw [runArguments]
  split
  · next halt he => simp [he]
  · next e he => simp [he, takeMark, Except.map]
  · next e t behind he =>
    simp only [he, Except.ok.injEq, Prod.mk.injEq, List.cons.injEq]
    constructor
    · intro h
      refine ⟨e, t, behind, ⟨rfl, rfl, rfl⟩, ?_⟩
      split at h
      · next hc =>
        obtain ⟨⟨others, _⟩, ho, hr⟩ := map_eq_ok_iff.mp h
        cases hr
        exact .inr ⟨Token.isMark_eq_true_iff.mp hc, others, ho, rfl⟩
      · obtain ⟨_, ht, hr⟩ := map_eq_ok_iff.mp h
        cases hr
        obtain ⟨_, hk, hts⟩ := takeMark_eq_ok_iff.mp ht
        cases hts
        exact .inl ⟨hk, rfl, rfl⟩
    · rintro ⟨_, _, _, ⟨rfl, rfl, rfl⟩, ⟨hk, rfl, rfl⟩ | ⟨hk, others, ho, rfl⟩⟩
      · rw [if_neg (by simp [hk]), map_eq_ok_iff]
        exact ⟨behind, takeMark_eq_ok_iff.mpr ⟨t, hk, rfl⟩, rfl⟩
      · rw [if_pos (by simp [hk]), map_eq_ok_iff]
        exact ⟨_, ho, rfl⟩

theorem runCall_eq_ok_iff {es : List Expr} :
    runCall expr name tokens = .ok (es, rest) ↔
      (∃ closing, closing.kind = .mark .closeParen ∧ tokens = closing :: rest ∧ es = []) ∨
        (∀ t ∈ tokens.head?, t.kind ≠ .mark .closeParen) ∧
          runArguments expr name tokens = .ok (es, rest) := by
  cases tokens with
  | nil => simp [runCall]
  | cons t ts =>
    rw [runCall]
    by_cases hc : t.kind = .mark .closeParen
    · rw [if_pos (Token.isMark_eq_true_iff.mpr hc)]
      constructor
      · intro h
        cases h
        exact .inl ⟨t, hc, rfl, rfl⟩
      · rintro (⟨_, -, hts, rfl⟩ | ⟨hne, -⟩)
        · cases hts
          rfl
        · exact absurd hc (hne t rfl)
    · rw [if_neg (by simpa using hc)]
      constructor
      · intro h
        exact .inr ⟨by simpa using hc, h⟩
      · rintro (⟨_, hk, hts, -⟩ | ⟨-, h⟩)
        · cases hts
          exact absurd hk hc
        · exact h

/-! ## Operands -/

theorem runName_eq_ok_iff {n : Token} :
    runName expr n tokens = .ok (e, rest) ↔
      ((∀ t ∈ tokens.head?, t.kind ≠ .mark .openParen) ∧ tokens = rest ∧
          e = .var (.text n.text) n.position) ∨
        ∃ opening args behind, opening.kind = .mark .openParen ∧ tokens = opening :: behind ∧
          runCall expr n.text behind = .ok (args, rest) ∧
          e = .call (.text n.text) args n.position := by
  cases tokens with
  | nil => simp [runName, and_comm, eq_comm]
  | cons t ts =>
    rw [runName]
    by_cases ho : t.kind = .mark .openParen
    · rw [if_pos (Token.isMark_eq_true_iff.mpr ho), map_eq_ok_iff]
      constructor
      · rintro ⟨⟨args, _⟩, hc, hr⟩
        cases hr
        exact .inr ⟨t, args, ts, ho, rfl, hc, rfl⟩
      · rintro (⟨hne, -⟩ | ⟨_, args, _, -, hts, hc, rfl⟩)
        · exact absurd ho (hne t rfl)
        · cases hts
          exact ⟨(args, rest), hc, rfl⟩
    · rw [if_neg (by simpa using ho)]
      constructor
      · intro h
        cases h
        exact .inl ⟨by simpa using ho, rfl, rfl⟩
      · rintro (⟨-, rfl, rfl⟩ | ⟨_, _, _, ho', hts, -⟩)
        · rfl
        · cases hts
          exact absurd ho' ho

theorem runPrimary_cons_eq_ok_iff {t : Token} :
    runPrimary expr (t :: tokens) = .ok (e, rest) ↔
      t.literal? = some e ∧ tokens = rest ∨
        t.kind = .identifier ∧ runName expr t tokens = .ok (e, rest) ∨
        t.kind = .mark .openParen ∧ runGroup expr tokens = .ok (e, rest) := by
  rw [runPrimary]
  obtain ⟨kind, text, position⟩ := t
  cases kind with
  | keyword k => cases k <;> simp [Token.literal?, Token.isMark]
  | mark m => cases m <;> simp [Token.literal?, Token.isMark]
  | _ => simp [Token.literal?, Token.isMark]

theorem runPostfix_dot {target : Expr} {dot : Token} (hd : dot.kind = .mark .dot) :
    runPostfix expr target (dot :: tokens) =
      runMethod expr target tokens >>= fun r => runPostfix expr r.1 r.2 := by
  rw [runPostfix, if_pos (Token.isMark_eq_true_iff.mpr hd)]
  split
  · next h => simp only [h]; rfl
  · next h => simp only [h]; rfl

theorem runPostfix_bracket {target : Expr} {opening : Token}
    (ho : opening.kind = .mark .openBracket) :
    runPostfix expr target (opening :: tokens) =
      runIndex expr tokens >>= fun r =>
        runPostfix expr (.index target r.1 opening.position) r.2 := by
  rw [runPostfix, if_neg (by simp [ho]), if_pos (Token.isMark_eq_true_iff.mpr ho)]
  split
  · next h => simp only [h]; rfl
  · next h => simp only [h]; rfl

theorem runPostfix_stop {target : Expr}
    (h : ∀ t ∈ tokens.head?, t.kind ≠ .mark .dot ∧ t.kind ≠ .mark .openBracket) :
    runPostfix expr target tokens = .ok (target, tokens) := by
  cases tokens with
  | nil => rw [runPostfix]
  | cons t ts =>
    obtain ⟨hd, ho⟩ := h t rfl
    rw [runPostfix, if_neg (by simpa using hd), if_neg (by simpa using ho)]

/-! ## Chains of operators -/

theorem level_unary {unary : Parser Expr} {t : Token} {op : UnaryOperator}
    (ht : t.unary? = some op) :
    (level unary).run (t :: tokens) =
      (unary.run tokens).map fun r => (.unary op r.1 t.position, r.2) := by
  simp only [level, ht]

theorem level_operand {unary : Parser Expr} (h : ∀ t ∈ tokens.head?, t.unary? = none) :
    (level unary).run tokens = runOperand (expression unary) tokens := by
  cases tokens with
  | nil => rfl
  | cons t ts => simp only [level, h t rfl]

theorem runAdditive_operator {left : Expr} {t : Token} {op : BinaryOperator}
    (ht : t.additive? = some op) :
    runAdditive operand left (t :: tokens) =
      operand.run tokens >>= fun r =>
        runAdditive operand (.binary op left r.1 t.position) r.2 := by
  rw [runAdditive]
  split
  · next h => rw [ht] at h; cases h
  · next h =>
    rw [ht] at h
    cases h
    split
    · next hr => simp only [hr]; rfl
    · next hr => simp only [hr]; rfl

theorem runAdditive_stop {left : Expr} (h : ∀ t ∈ tokens.head?, t.additive? = none) :
    runAdditive operand left tokens = .ok (left, tokens) := by
  cases tokens with
  | nil => rw [runAdditive]
  | cons t ts =>
    rw [runAdditive]
    split
    · rfl
    · next hs => rw [h t rfl] at hs; cases hs

theorem additive_eq_ok_iff :
    (additive operand).run tokens = .ok (e, rest) ↔
      ∃ left behind, operand.run tokens = .ok (left, behind) ∧
        runAdditive operand left behind = .ok (e, rest) := by
  simp only [additive, bind_eq_ok_iff, Prod.exists]

theorem runComparison_operator {left : Expr} {t : Token} {c : Comparison}
    (ht : t.comparison? = some c) :
    runComparison operand left (t :: tokens) =
      (operand.run tokens).map fun r => (.binary (.compare c) left r.1 t.position, r.2) := by
  simp only [runComparison, ht]

theorem runComparison_stop {left : Expr} (h : ∀ t ∈ tokens.head?, t.comparison? = none) :
    runComparison operand left tokens = .ok (left, tokens) := by
  cases tokens with
  | nil => rfl
  | cons t ts => simp only [runComparison, h t rfl]

theorem comparison_eq_ok_iff :
    (comparison operand).run tokens = .ok (e, rest) ↔
      ∃ left behind, operand.run tokens = .ok (left, behind) ∧
        runComparison operand left behind = .ok (e, rest) := by
  simp only [comparison, bind_eq_ok_iff, Prod.exists]

/-! ## Statements -/

theorem runIndexAssign?_eq_none {n : Token} {i : Expr} {behind : List Token}
    (hi : runIndex expr tokens = .ok (i, behind))
    (hne : ∀ t ∈ behind.head?, t.kind ≠ .symbol .assign) :
    runIndexAssign? expr n tokens = .ok none := by
  rw [runIndexAssign?, hi]
  cases behind with
  | nil => rfl
  | cons t ts =>
    show (if t.isSymbol .assign then _ else pure none) = _
    rw [if_neg (by simpa using hne t rfl)]
    rfl

end ScalarScript.Parser
