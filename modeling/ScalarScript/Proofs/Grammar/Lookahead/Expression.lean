import ScalarScript.Proofs.Grammar.Lookahead.Reader
import ScalarScript.Proofs.Grammar.Reading

/-!
# How far an expression is looked at

Each reader of the grammar of expressions looks at the tokens that it takes and at one more, and
takes the same from tokens that begin alike, at any depth that is not less.

Results: one lemma for each reader, `peeks_runArguments` to `readsAlike_level`;
**`readsAlike_expr`** for expressions; `runIndex_of_le` (more depth changes nothing).
-/

namespace ScalarScript

open ScalarScript.Parser

/-! ## Primaries and calls -/

section Expressions

variable {r : Relocation} {expr expr' : Parser Expr}

/-- Two parsers of expressions read alike tokens as the same trees. -/
def ReadsAlike (r : Relocation) (expr expr' : Parser Expr) : Prop :=
  ∀ tokens, Peeks r r.SameTree tokens (expr.run tokens) expr'.run

/-- What follows an argument: a comma and more of them, or the closing parenthesis. -/
def runOthers (expr : Parser Expr) (name : Text) (e : Expr) :
    List Token → Except Halt (List Expr × List Token)
  | [] => .error (.missing (.callEnd name) [])
  | t :: rest =>
    if t.isMark .comma then (runArguments expr name rest).map fun p => (e :: p.1, p.2)
    else takeMark .closeParen (.callEnd name) (t :: rest) >>= fun rest => pure ([e], rest)

theorem runArguments_eq (expr : Parser Expr) (name : Text) (tokens : List Token) :
    runArguments expr name tokens =
      expr.run tokens >>= fun p => runOthers expr name p.1 p.2 := by
  rw [runArguments]
  split
  · next h => simp only [h]; rfl
  · next h => simp only [h]; rfl
  · next e t rest h =>
    simp only [h]
    show _ = runOthers expr name e (t :: rest)
    rw [runOthers]
    split
    · rfl
    · cases takeMark .closeParen (.callEnd name) (t :: rest) <;> rfl

theorem peeks_runOthers {name : Text} {e e' : Expr} {tokens : List Token} (he : r.SameTree e e')
    (h : ∀ rest, rest.length < tokens.length →
      Peeks r r.SameTrees rest (runArguments expr name rest) (runArguments expr' name)) :
    Peeks r r.SameTrees tokens (runOthers expr name e tokens) (runOthers expr' name e') := by
  cases tokens with
  | nil =>
    refine .fail fun rest' hnext => ?_
    cases hnext
    rfl
  | cons t rest =>
    cases ht : t.isMark .comma with
    | true =>
      have hmore : ∀ es es', r.SameTrees es es' → r.SameTrees (e :: es) (e' :: es') :=
        fun es es' hes => congrArg₂ List.cons he hes
      refine .cons fun t' halike => ((h rest (Nat.lt_succ_self _)).map hmore).of_eq ?_ fun ts => ?_
      · simp only [runOthers, ht, if_true]
      · simp only [runOthers, halike.isMark, ht, if_true]
    | false =>
      have hone : r.SameTrees [e] [e'] := congrArg (fun e => [e]) he
      have hout : runOthers expr name e (t :: rest) =
          takeMark .closeParen (.callEnd name) (t :: rest) >>= fun rest => pure ([e], rest) := by
        simp only [runOthers, ht, Bool.false_eq_true, if_false]
      rw [hout]
      refine (peeks_takeMark (peeks_pure hone) (t :: rest)).of_next fun ts hnext => ?_
      cases hnext with
      | cons halike => simp only [runOthers, halike.isMark, ht, Bool.false_eq_true, if_false]

theorem peeks_runArguments (h : ReadsAlike r expr expr') (name : Text) (tokens : List Token) :
    Peeks r r.SameTrees tokens (runArguments expr name tokens) (runArguments expr' name) := by
  induction hn : tokens.length using Nat.strongRecOn generalizing tokens with
  | ind n ih =>
    subst hn
    refine ((h tokens).bind fun e behind he e' hsame =>
      peeks_runOthers hsame fun rest hlt => ?_).of_eq
      (runArguments_eq expr name tokens) (runArguments_eq expr' name)
    exact ih rest.length (Nat.lt_trans hlt (expr.progress he)) rest rfl

theorem peeks_runCall (h : ReadsAlike r expr expr') (name : Text) (tokens : List Token) :
    Peeks r r.SameTrees tokens (runCall expr name tokens) (runCall expr' name) := by
  have harguments := peeks_runArguments h name tokens
  cases tokens with
  | nil =>
    refine harguments.of_next fun ts hnext => ?_
    cases hnext
    rfl
  | cons t rest =>
    cases ht : t.isMark .closeParen with
    | true =>
      have hnone : r.SameTrees [] [] := rfl
      refine .cons fun t' halike => (peeks_pure hnone rest).of_eq ?_ fun ts => ?_
      · simp only [runCall, ht, if_true]
        rfl
      · simp only [runCall, halike.isMark, ht, if_true]
        rfl
    | false =>
      rw [runCall, if_neg (by rw [ht]; exact Bool.false_ne_true)]
      refine harguments.of_next fun ts hnext => ?_
      cases hnext with
      | cons halike => simp only [runCall, halike.isMark, ht, Bool.false_eq_true, if_false]

theorem peeks_runName (h : ReadsAlike r expr expr') {n n' : Token} (hn : n.Alike r n')
    (tokens : List Token) :
    Peeks r r.SameTree tokens (runName expr n tokens) (runName expr' n') := by
  have hvariable : r.SameTree (.var (.text n.text) n.position) (.var (.text n'.text) n'.position) :=
    congrArg₂ Expr.var (congrArg Datum.text hn.text.symm) hn.place.symm
  cases tokens with
  | nil =>
    refine .done fun rest' hnext => ?_
    cases hnext
    exact ⟨_, rfl, hvariable⟩
  | cons t rest =>
    cases ht : t.isMark .openParen with
    | true =>
      have hcall : ∀ es es', r.SameTrees es es' →
          r.SameTree (.call (.text n.text) es n.position)
            (.call (.text n'.text) es' n'.position) := by
        intro es es' hes
        rw [hn.text]
        exact congrArg₂ (Expr.call (.text n.text)) hes hn.place.symm
      refine .cons fun t' halike => ((peeks_runCall h n.text rest).map hcall).of_eq ?_ fun ts => ?_
      · simp only [runName, ht, if_true]
      · simp only [runName, halike.isMark, ht, if_true, hn.text]
    | false =>
      rw [runName, if_neg (by rw [ht]; exact Bool.false_ne_true)]
      refine .done fun rest' hnext => ?_
      cases hnext with
      | cons halike =>
        refine ⟨_, ?_, hvariable⟩
        simp only [runName, halike.isMark, ht, Bool.false_eq_true, if_false]

theorem peeks_runGroup (h : ReadsAlike r expr expr') (tokens : List Token) :
    Peeks r r.SameTree tokens (runGroup expr tokens) (runGroup expr') :=
  (h tokens).bind fun _ rest _ _ he => peeks_takeMark (peeks_pure he) rest

theorem peeks_runIndex (h : ReadsAlike r expr expr') (tokens : List Token) :
    Peeks r r.SameTree tokens (runIndex expr tokens) (runIndex expr') :=
  (h tokens).bind fun _ rest _ _ he => peeks_takeMark (peeks_pure he) rest

theorem peeks_runPrimary (h : ReadsAlike r expr expr') (tokens : List Token) :
    Peeks r r.SameTree tokens (runPrimary expr tokens) (runPrimary expr') := by
  cases tokens with
  | nil =>
    refine .fail fun rest' hnext => ?_
    cases hnext
    rfl
  | cons t rest =>
    cases hl : t.literal? with
    | some e =>
      refine .cons fun t' halike => ?_
      obtain ⟨e', hl', he⟩ := halike.literal?_eq_some hl
      refine (peeks_pure he rest).of_eq ?_ fun ts => ?_
      · simp only [runPrimary, hl]
        rfl
      · simp only [runPrimary, hl']
        rfl
    | none =>
      by_cases hn : t.kind = .identifier
      · refine .cons fun t' halike => (peeks_runName h halike rest).of_eq ?_ fun ts => ?_
        · simp only [runPrimary, hl, hn, if_true]
        · simp only [runPrimary, halike.literal?_eq_none hl, halike.kind, hn, if_true]
      · cases ht : t.isMark .openParen with
        | true =>
          refine .cons fun t' halike => (peeks_runGroup h rest).of_eq ?_ fun ts => ?_
          · simp only [runPrimary, hl, hn, ht, if_true, if_false]
          · simp only [runPrimary, halike.literal?_eq_none hl, halike.kind, hn, halike.isMark, ht,
              if_true, if_false]
        | false =>
          have hout : runPrimary expr (t :: rest) = .error (.missing .expression (t :: rest)) := by
            simp only [runPrimary, hl, hn, ht, Bool.false_eq_true, if_false]
          rw [hout]
          refine .fail fun rest' hnext => ?_
          cases hnext with
          | cons halike =>
            simp only [runPrimary, halike.literal?_eq_none hl, halike.kind, hn, halike.isMark, ht,
              Bool.false_eq_true, if_false]

theorem peeks_runMethod (h : ReadsAlike r expr expr') {target target' : Expr}
    (htarget : r.SameTree target target') (tokens : List Token) :
    Peeks r r.SameTree tokens (runMethod expr target tokens) (runMethod expr' target') := by
  refine peeks_of_takes (takes_takeName _ _) (takes_takeName _ _) (fun t t' ht => by rw [ht.kind])
    (fun n n' rest hn => ?_) tokens
  simp only [hn.text]
  refine peeks_takeMark (fun rest => ?_) rest
  refine (peeks_runCall h n.text rest).bind fun es behind _ es' hes => ?_
  have hmethod : r.SameTree (.method target (.text n.text) es n.position)
      (.method target' (.text n.text) es' n'.position) := by
    unfold Relocation.SameTree
    simp only [Expr.mapPositions, hn.place]
    exact congrArg₂ (Expr.method · (.text n.text) · _) htarget hes
  exact peeks_pure hmethod behind

/-! ## Chains -/

theorem peeks_runPostfix (h : ReadsAlike r expr expr') {e e' : Expr} (he : r.SameTree e e')
    (tokens : List Token) :
    Peeks r r.SameTree tokens (runPostfix expr e tokens) (runPostfix expr' e') := by
  induction hn : tokens.length using Nat.strongRecOn generalizing tokens e e' with
  | ind n ih =>
    subst hn
    by_cases hstop : ∀ t ∈ tokens.head?, t.kind ≠ .mark .dot ∧ t.kind ≠ .mark .openBracket
    · rw [runPostfix_stop hstop]
      refine .done fun rest' hnext => ⟨e', runPostfix_stop ?_, he⟩
      cases hnext with
      | nil => exact nofun
      | cons halike =>
        have hkind := hstop _ rfl
        rw [← halike.kind] at hkind
        exact fun t ht => Option.some.inj ht ▸ hkind
    · cases tokens with
      | nil => exact absurd nofun hstop
      | cons t rest =>
        by_cases hd : t.kind = .mark .dot
        · refine .cons fun t' halike => ((peeks_runMethod h he rest).bind
            fun f behind hf f' hsame => ?_).of_eq (runPostfix_dot hd)
              fun ts => runPostfix_dot (halike.kind.trans hd)
          have hlt := length_runMethod hf
          exact ih behind.length (Nat.lt_succ_of_lt hlt) hsame behind rfl
        · have ho : t.kind = .mark .openBracket := by
            by_contra ho
            exact hstop fun u hu => Option.some.inj hu ▸ ⟨hd, ho⟩
          refine .cons fun t' halike => ((peeks_runIndex h rest).bind
            fun i behind hi i' hsame => ?_).of_eq (runPostfix_bracket ho)
              fun ts => runPostfix_bracket (halike.kind.trans ho)
          have hlt := length_runIndex hi
          have hindex : r.SameTree (.index e i t.position) (.index e' i' t'.position) := by
            unfold Relocation.SameTree
            simp only [Expr.mapPositions, halike.place]
            exact congrArg₂ (Expr.index · · _) he hsame
          exact ih behind.length (Nat.lt_succ_of_lt hlt) hindex behind rfl

theorem peeks_runOperand (h : ReadsAlike r expr expr') (tokens : List Token) :
    Peeks r r.SameTree tokens (runOperand expr tokens) (runOperand expr') :=
  (peeks_runPrimary h tokens).bind fun _ behind _ _ he => peeks_runPostfix h he behind

theorem sameTree_binary {e e' f f' : Expr} (op : BinaryOperator) {t t' : Token}
    (he : r.SameTree e e') (hf : r.SameTree f f') (ht : t.Alike r t') :
    r.SameTree (.binary op e f t.position) (.binary op e' f' t'.position) := by
  unfold Relocation.SameTree
  simp only [Expr.mapPositions, ht.place]
  exact congrArg₂ (Expr.binary op · · _) he hf

theorem peeks_runAdditive (h : ReadsAlike r expr expr') {e e' : Expr} (he : r.SameTree e e')
    (tokens : List Token) :
    Peeks r r.SameTree tokens (runAdditive expr e tokens) (runAdditive expr' e') := by
  induction hn : tokens.length using Nat.strongRecOn generalizing tokens e e' with
  | ind n ih =>
    subst hn
    cases tokens with
    | nil =>
      have hout : runAdditive expr e [] = .ok (e, []) := runAdditive_stop (by simp)
      rw [hout]
      refine .done fun rest' hnext => ⟨e', runAdditive_stop ?_, he⟩
      cases hnext
      simp
    | cons t rest =>
      cases ht : t.additive? with
      | none =>
        have hout : runAdditive expr e (t :: rest) = .ok (e, t :: rest) :=
          runAdditive_stop (by simpa using ht)
        rw [hout]
        refine .done fun rest' hnext => ⟨e', runAdditive_stop ?_, he⟩
        cases hnext with
        | cons halike => simpa [halike.additive?] using ht
      | some op =>
        refine .cons fun t' halike => ((h rest).bind fun f behind hf f' hsame => ?_).of_eq
          (runAdditive_operator ht) fun ts => runAdditive_operator (halike.additive?.trans ht)
        have hlt := expr.progress hf
        exact ih behind.length (Nat.lt_succ_of_lt hlt) (sameTree_binary op he hsame halike) behind
          rfl

theorem peeks_runComparison (h : ReadsAlike r expr expr') {e e' : Expr} (he : r.SameTree e e')
    (tokens : List Token) :
    Peeks r r.SameTree tokens (runComparison expr e tokens) (runComparison expr' e') := by
  cases tokens with
  | nil =>
    refine .done fun rest' hnext => ?_
    cases hnext
    exact ⟨e', rfl, he⟩
  | cons t rest =>
    cases ht : t.comparison? with
    | none =>
      have hout : runComparison expr e (t :: rest) = .ok (e, t :: rest) :=
        runComparison_stop (by simpa using ht)
      rw [hout]
      refine .done fun rest' hnext => ⟨e', runComparison_stop ?_, he⟩
      cases hnext with
      | cons halike => simpa [halike.comparison?] using ht
    | some c =>
      exact .cons fun t' halike => ((h rest).map fun f f' hf =>
        sameTree_binary (.compare c) he hf halike).of_eq (runComparison_operator ht)
          fun ts => runComparison_operator (halike.comparison?.trans ht)

/-! ## Levels -/

theorem readsAlike_additive (h : ReadsAlike r expr expr') :
    ReadsAlike r (additive expr) (additive expr') := fun tokens =>
  (h tokens).bind fun _ behind _ _ he => peeks_runAdditive h he behind

theorem readsAlike_expression (h : ReadsAlike r expr expr') :
    ReadsAlike r (expression expr) (expression expr') := fun tokens =>
  (readsAlike_additive h tokens).bind fun _ behind _ _ he =>
    peeks_runComparison (readsAlike_additive h) he behind

theorem readsAlike_level (h : ReadsAlike r expr expr') :
    ReadsAlike r (level expr) (level expr') := by
  intro tokens
  have hoperand := peeks_runOperand (readsAlike_expression h) tokens
  cases tokens with
  | nil =>
    refine hoperand.of_next fun ts hnext => ?_
    cases hnext
    rfl
  | cons t rest =>
    cases ht : t.unary? with
    | none =>
      have hout : (level expr).run (t :: rest) = runOperand (expression expr) (t :: rest) :=
        level_operand (by simpa using ht)
      rw [hout]
      refine hoperand.of_next fun ts hnext => level_operand ?_
      cases hnext with
      | cons halike => simpa [halike.unary?] using ht
    | some op =>
      refine .cons fun t' halike => ?_
      have hunary : ∀ e e', r.SameTree e e' →
          r.SameTree (.unary op e t.position) (.unary op e' t'.position) :=
        fun e e' he => congrArg₂ (Expr.unary op) he halike.place.symm
      exact ((h rest).map hunary).of_eq (level_unary ht)
        fun ts => level_unary (halike.unary?.trans ht)

theorem readsAlike_unary {k k' : Nat} (hk : k ≤ k') : ReadsAlike r (unary k) (unary k') := by
  induction k generalizing k' with
  | zero => exact fun _ => .tooDeep
  | succ k ih =>
    obtain ⟨k', rfl⟩ : ∃ n, k' = n + 1 := ⟨k' - 1, by omega⟩
    exact readsAlike_level (ih (Nat.le_of_succ_le_succ hk))

/-- **Expressions of any depth** are read alike where they are no deeper. -/
theorem readsAlike_expr {k k' : Nat} (hk : k ≤ k') :
    ReadsAlike r (Parser.expr k) (Parser.expr k') :=
  readsAlike_expression (readsAlike_unary hk)

end Expressions

/-! ## More depth -/

mutual

theorem Expr.mapPositions_id : ∀ e : Expr, e.mapPositions id = e
  | .string .. | .char .. | .int .. | .bool .. | .var .. => rfl
  | .binary _ left right _ => by
    simp [mapPositions, mapPositions_id left, mapPositions_id right]
  | .unary _ operand _ => by simp [mapPositions, mapPositions_id operand]
  | .method target _ arguments _ => by
    simp [mapPositions, mapPositions_id target, listMapPositions_id arguments]
  | .call _ arguments _ => by simp [mapPositions, listMapPositions_id arguments]
  | .index target i _ => by simp [mapPositions, mapPositions_id target, mapPositions_id i]

theorem Expr.listMapPositions_id :
    ∀ es : List Expr, Expr.mapPositions.listMapPositions id es = es
  | [] => rfl
  | e :: es => by
    rw [mapPositions.listMapPositions, mapPositions_id e, listMapPositions_id es]

end

/-- Places are read as they are. -/
def Relocation.same : Relocation := ⟨id, id, fun p => ⟨p, rfl⟩⟩

theorem Relocation.forall₂_same (tokens : List Token) :
    List.Forall₂ (Token.Alike .same) tokens tokens :=
  List.forall₂_same.mpr fun _ _ => ⟨rfl, rfl, rfl⟩

theorem Peeks.eq_of_same {tokens : List Token} {out : Except Halt (Expr × List Token)}
    {run' : List Token → Except Halt (Expr × List Token)}
    (h : Peeks .same Relocation.same.SameTree tokens out run') (hout : out ≠ .error .tooDeep) :
    run' tokens = out := by
  have hrefl := Relocation.forall₂_same
  match out with
  | .error .tooDeep => exact absurd rfl hout
  | .error (.missing expected rest) =>
    obtain ⟨used, rfl, hsame⟩ := h rest rfl
    exact (hsame used rest (hrefl used) (Relocation.sameNext_of_forall₂ _ (hrefl rest))).eq_missing
  | .ok (e, rest) =>
    obtain ⟨used, rfl, hsame⟩ := h rest rfl
    obtain ⟨e', he, hrun⟩ :=
      (hsame used rest (hrefl used) (Relocation.sameNext_of_forall₂ _ (hrefl rest))).eq_ok
    rw [hrun, ← e.mapPositions_id, ← e'.mapPositions_id]
    exact congrArg (fun e => Except.ok (e, rest)) he.symm

/-- More depth does not change what is read. -/
theorem runIndex_of_le {k k' : Nat} (hk : k ≤ k') {tokens : List Token}
    (h : runIndex (Parser.expr k) tokens ≠ .error .tooDeep) :
    runIndex (Parser.expr k') tokens = runIndex (Parser.expr k) tokens :=
  (peeks_runIndex (readsAlike_expr hk) tokens).eq_of_same h

end ScalarScript
