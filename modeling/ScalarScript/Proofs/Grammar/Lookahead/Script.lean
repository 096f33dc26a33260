import ScalarScript.Proofs.Grammar.Lookahead.Expression

/-!
# How far a script is looked at

A statement that starts with a name and a bracket is the one place where tokens are read twice: as
the target of an assignment, and again as an expression where no sign of assignment follows. The
second reading meets the same index, so both together are one reading of the index and a choice
behind it, which looks no further than the sign. So statements and scripts look one token ahead as
well.

* `runBehindIndex`: what is chosen behind the index.
* `runScript`: the statements of a script with what is left of the tokens; `readStatements_eq` says
  what the parser makes of it.

Results:
* `run_expr_of_index`: an expression that starts with a name and an index.
* `runNamed_of_index`: the two readings as one.
* `peeks_runStatement`, **`peeks_runScript`**: statements and scripts look one token ahead.
-/

namespace ScalarScript

open ScalarScript.Parser

/-! ## An index behind a name -/

section Index

variable {k : Nat} {n opening : Token}

/-- What follows an operand that starts an expression. -/
def runChain (k : Nat) (e : Expr) (tokens : List Token) : Except Halt (Expr × List Token) :=
  runPostfix (Parser.expr k) e tokens >>= fun p =>
    runAdditive (unary (k + 1)) p.1 p.2 >>= fun p =>
      runComparison (additive (unary (k + 1))) p.1 p.2

/-- An expression that starts with a name. -/
theorem run_expr_of_name (hn : n.kind = .identifier) (tokens : List Token) :
    (Parser.expr (k + 1)).run (n :: tokens) =
      runName (Parser.expr k) n tokens >>= fun p => runChain k p.1 p.2 := by
  have hliteral : n.literal? = none := by simp only [Token.literal?, hn]
  have hunary : n.unary? = none := by simp only [Token.unary?, hn]
  have hoperand : (unary (k + 1)).run (n :: tokens) =
      runName (Parser.expr k) n tokens >>= fun p => runPostfix (Parser.expr k) p.1 p.2 := by
    have hlevel : (level (unary k)).run (n :: tokens) = runOperand (Parser.expr k) (n :: tokens) :=
      level_operand (by simpa using hunary)
    rw [unary_succ, hlevel, runOperand, runPrimary]
    simp only [hliteral, hn, if_true]
  show ((unary (k + 1)).run _ >>= _) >>= _ = _
  rw [hoperand]
  simp only [bind_assoc]
  rfl

theorem run_expr_of_index (hn : n.kind = .identifier) (ho : opening.kind = .mark .openBracket)
    (tokens : List Token) :
    (Parser.expr (k + 1)).run (n :: opening :: tokens) =
      runIndex (Parser.expr k) tokens >>= fun p =>
        runChain k (.index (.var (.text n.text) n.position) p.1 opening.position) p.2 := by
  have hname : runName (Parser.expr k) n (opening :: tokens) =
      .ok (.var (.text n.text) n.position, opening :: tokens) := by
    simp only [runName, Token.isMark, ho]
    rfl
  rw [run_expr_of_name hn, hname]
  show runPostfix _ _ (opening :: tokens) >>= _ = _
  rw [runPostfix_bracket ho, bind_assoc]
  rfl

/-- What follows an index behind a name: where a sign of assignment is next, the value behind it. -/
def runBehindIndex (expr : Parser Expr) (n : Token) (i : Expr)
    (other : Except Halt (Statement × List Token)) :
    List Token → Except Halt (Statement × List Token)
  | [] => other
  | t :: rest =>
    if t.isSymbol .assign then runAssign expr (.indexAssign (.text n.text) i · n.position) rest
    else other

/-- A name and a bracket are read as an index, and again as an expression where no assignment
follows. -/
theorem runNamed_bracket (expr : Parser Expr) (n : Token) (ho : opening.kind = .mark .openBracket)
    (tokens : List Token) :
    runNamed expr n (opening :: tokens) = runIndex expr tokens >>= fun p =>
      runBehindIndex expr n p.1 (runExpression expr n (opening :: tokens)) p.2 := by
  have hprint : ¬(n.text = Text.of "print" ∧ opening.isMark .openParen = true) := by
    rw [Token.isMark_eq_true_iff, ho]
    simp
  have hassign : opening.isSymbol .assign = false := by rw [Token.isSymbol, ho]; rfl
  have hbracket : opening.isMark .openBracket = true := Token.isMark_eq_true_iff.mpr ho
  simp only [runNamed, if_neg hprint, hassign, hbracket, runIndexAssign?, Bool.false_eq_true,
    if_false, if_true]
  cases runIndex expr tokens with
  | error halt => rfl
  | ok p =>
    obtain ⟨i, behind⟩ := p
    cases behind with
    | nil => rfl
    | cons t rest =>
      cases ht : t.isSymbol .assign with
      | false => simp [runBehindIndex, ht, Except.bind, bind, pure, Except.pure]
      | true =>
        simp only [runBehindIndex, ht, Except.bind, bind, if_true]
        cases runAssign expr (.indexAssign (.text n.text) i · n.position) rest <;> rfl

/-- An expression that goes on behind an index, and the end of its statement. -/
def runIndexed (k : Nat) (n opening : Token) (i : Expr) (tokens : List Token) :
    Except Halt (Statement × List Token) :=
  runChain k (.index (.var (.text n.text) n.position) i opening.position) tokens >>= fun p =>
    takeEnd p.2 >>= fun rest => pure (.expression p.1 n.position, rest)

/-- The two readings of an index are one, where the second has depth enough. -/
theorem runNamed_of_index (hn : n.kind = .identifier) (ho : opening.kind = .mark .openBracket)
    {tokens : List Token} (h : runIndex (Parser.expr k) tokens ≠ .error .tooDeep) :
    runNamed (Parser.expr (k + 1)) n (opening :: tokens) =
      runIndex (Parser.expr k) tokens >>= fun p =>
        runBehindIndex (Parser.expr (k + 1)) n p.1 (runIndexed k n opening p.1 p.2) p.2 := by
  rw [runNamed_bracket _ _ ho, runIndex_of_le (Nat.le_succ k) h, runExpression, runAssign,
    run_expr_of_index hn ho]
  cases runIndex (Parser.expr k) tokens <;> rfl

/-- Where it has not, nothing but an assignment is read. -/
theorem runNamed_of_tooDeep (hn : n.kind = .identifier) (ho : opening.kind = .mark .openBracket)
    {tokens : List Token} (h : runIndex (Parser.expr k) tokens = .error .tooDeep) :
    runNamed (Parser.expr (k + 1)) n (opening :: tokens) =
      runIndex (Parser.expr (k + 1)) tokens >>= fun p =>
        runBehindIndex (Parser.expr (k + 1)) n p.1 (.error .tooDeep) p.2 := by
  rw [runNamed_bracket _ _ ho, runExpression, runAssign, run_expr_of_index hn ho, h]
  rfl

/-- An assignment is read whatever stands in for the expression. -/
theorem runNamed_of_ne_tooDeep (expr : Parser Expr) (ho : opening.kind = .mark .openBracket)
    {tokens : List Token}
    (h : (runIndex expr tokens >>= fun p => runBehindIndex expr n p.1 (.error .tooDeep) p.2) ≠
      .error .tooDeep) :
    runNamed expr n (opening :: tokens) =
      runIndex expr tokens >>= fun p => runBehindIndex expr n p.1 (.error .tooDeep) p.2 := by
  rw [runNamed_bracket _ _ ho]
  cases hi : runIndex expr tokens with
  | error halt => rfl
  | ok p =>
    rw [hi] at h
    obtain ⟨i, behind⟩ := p
    cases behind with
    | nil => exact absurd rfl h
    | cons t rest =>
      cases ht : t.isSymbol .assign with
      | false => simp [runBehindIndex, ht, Except.bind, bind] at h
      | true => simp only [runBehindIndex, ht, Except.bind, bind, if_true]

end Index

/-! ## Statements -/

/-- Two statements differ in places only, which are read as the same. -/
def Relocation.SameStatement (r : Relocation) (s s' : Statement) : Prop :=
  s.mapPositions r.left = s'.mapPositions r.right

section Statements

variable {r : Relocation} {expr expr' : Parser Expr} {k k' : Nat} {n n' opening opening' : Token}

theorem peeks_runAssign (h : ReadsAlike r expr expr') {build build' : Expr → Statement}
    (hbuild : ∀ e e', r.SameTree e e' → r.SameStatement (build e) (build' e'))
    (tokens : List Token) :
    Peeks r r.SameStatement tokens (runAssign expr build tokens) (runAssign expr' build') :=
  (h tokens).bind fun e rest _ e' he => peeks_takeEnd (hbuild e e' he) rest

theorem peeks_runPrint (h : ReadsAlike r expr expr') (hn : n.Alike r n') (tokens : List Token) :
    Peeks r r.SameStatement tokens (runPrint expr n.position tokens)
      (runPrint expr' n'.position) := by
  refine (h tokens).bind fun e behind _ e' he => peeks_takeMark (fun rest => ?_) behind
  have hprint : r.SameStatement (.print e n.position) (.print e' n'.position) :=
    congrArg₂ Statement.print he hn.place.symm
  exact peeks_takeEnd hprint rest

theorem peeks_runDeclaration (h : ReadsAlike r expr expr') (keyword : Keyword)
    {build build' : Datum → Expr → Statement}
    (hbuild : ∀ name e e', r.SameTree e e' → r.SameStatement (build name e) (build' name e'))
    (tokens : List Token) :
    Peeks r r.SameStatement tokens (runDeclaration expr keyword build tokens)
      (runDeclaration expr' keyword build') := by
  refine peeks_of_takes (takes_takeName _ _) (takes_takeName _ _) (fun t t' ht => by rw [ht.kind])
    (fun n n' rest hn => ?_) tokens
  refine peeks_of_takes (takes_takeAssign _) (takes_takeAssign _) (fun t t' ht => ht.isSymbol _)
    (fun _ _ rest _ => ?_) rest
  refine (h rest).bind fun e behind _ e' he => ?_
  rw [hn.text]
  exact peeks_takeEnd (hbuild (.text n.text) e e' he) behind

theorem peeks_runBehindIndex (h : ReadsAlike r expr expr') (hn : n.Alike r n') {i i' : Expr}
    (hi : r.SameTree i i') {tokens : List Token} {other : Except Halt (Statement × List Token)}
    {other' : List Token → Except Halt (Statement × List Token)}
    (hother : Peeks r r.SameStatement tokens other other') :
    Peeks r r.SameStatement tokens (runBehindIndex expr n i other tokens) fun ts =>
      runBehindIndex expr' n' i' (other' ts) ts := by
  cases tokens with
  | nil =>
    refine hother.of_next fun ts hnext => ?_
    cases hnext
    rfl
  | cons t rest =>
    cases ht : t.isSymbol .assign with
    | true =>
      have hbuild : ∀ e e', r.SameTree e e' →
          r.SameStatement (.indexAssign (.text n.text) i e n.position)
            (.indexAssign (.text n'.text) i' e' n'.position) := by
        intro e e' he
        unfold Relocation.SameStatement
        simp only [Statement.mapPositions, hn.text, hn.place]
        exact congrArg₂ (Statement.indexAssign _ · · _) hi he
      refine .cons fun t' halike => (peeks_runAssign h hbuild rest).of_eq ?_ fun ts => ?_
      · simp only [runBehindIndex, ht, if_true]
      · simp only [runBehindIndex, halike.isSymbol, ht, if_true]
    | false =>
      rw [runBehindIndex, if_neg (by rw [ht]; exact Bool.false_ne_true)]
      refine hother.of_next fun ts hnext => ?_
      cases hnext with
      | cons halike => simp only [runBehindIndex, halike.isSymbol, ht, Bool.false_eq_true, if_false]

theorem peeks_runChain (hk : k ≤ k') {e e' : Expr} (he : r.SameTree e e') (tokens : List Token) :
    Peeks r r.SameTree tokens (runChain k e tokens) (runChain k' e') := by
  have hunary : ReadsAlike r (unary (k + 1)) (unary (k' + 1)) :=
    readsAlike_unary (Nat.succ_le_succ hk)
  refine (peeks_runPostfix (readsAlike_expr hk) he tokens).bind fun _ behind _ _ hf => ?_
  refine (peeks_runAdditive hunary hf behind).bind fun _ behind _ _ hg => ?_
  exact peeks_runComparison (readsAlike_additive hunary) hg behind

theorem peeks_runIndexed (hk : k ≤ k') (hn : n.Alike r n') (ho : opening.Alike r opening')
    {i i' : Expr} (hi : r.SameTree i i') (tokens : List Token) :
    Peeks r r.SameStatement tokens (runIndexed k n opening i tokens)
      (runIndexed k' n' opening' i') := by
  have hindex : r.SameTree (.index (.var (.text n.text) n.position) i opening.position)
      (.index (.var (.text n'.text) n'.position) i' opening'.position) := by
    unfold Relocation.SameTree
    simp only [Expr.mapPositions, hn.text, hn.place, ho.place]
    exact congrArg (Expr.index _ · _) hi
  refine (peeks_runChain hk hindex tokens).bind fun e behind _ e' he => ?_
  have hexpression : r.SameStatement (.expression e n.position) (.expression e' n'.position) :=
    congrArg₂ Statement.expression he hn.place.symm
  exact peeks_takeEnd hexpression behind

/-- An expression statement that starts with a name. -/
theorem peeks_runExpression_name (hk : k ≤ k') (hn : n.Alike r n') (hname : n.kind = .identifier)
    (tokens : List Token) :
    Peeks r r.SameStatement tokens (runExpression (Parser.expr k) n tokens)
      (runExpression (Parser.expr k') n') := by
  cases k with
  | zero => exact .tooDeep
  | succ k =>
    obtain ⟨k', rfl⟩ : ∃ j, k' = j + 1 := ⟨k' - 1, by omega⟩
    have hle : k ≤ k' := Nat.le_of_succ_le_succ hk
    have hchain : Peeks r r.SameStatement tokens
        (runName (Parser.expr k) n tokens >>= fun p => runChain k p.1 p.2 >>= fun p =>
          takeEnd p.2 >>= fun rest => pure (.expression p.1 n.position, rest))
        fun ts => runName (Parser.expr k') n' ts >>= fun p => runChain k' p.1 p.2 >>= fun p =>
          takeEnd p.2 >>= fun rest => pure (.expression p.1 n'.position, rest) := by
      refine (peeks_runName (readsAlike_expr hle) hn tokens).bind fun _ behind _ _ he => ?_
      refine (peeks_runChain hle he behind).bind fun e behind _ e' he => ?_
      have hexpression : r.SameStatement (.expression e n.position) (.expression e' n'.position) :=
        congrArg₂ Statement.expression he hn.place.symm
      exact peeks_takeEnd hexpression behind
    refine hchain.of_eq ?_ fun ts => ?_
    · rw [runExpression, runAssign, run_expr_of_name hname, bind_assoc]
    · rw [runExpression, runAssign, run_expr_of_name (hn.kind.trans hname), bind_assoc]

/-- A name and a bracket, whichever of the two readings counts. -/
theorem peeks_runNamed_bracket (hk : k ≤ k') (hn : n.Alike r n') (hname : n.kind = .identifier)
    (ho : opening.Alike r opening') (hopening : opening.kind = .mark .openBracket)
    (tokens : List Token) :
    Peeks r r.SameStatement tokens (runNamed (Parser.expr k) n (opening :: tokens)) fun ts =>
      runNamed (Parser.expr k') n' (opening' :: ts) := by
  have hname' := hn.kind.trans hname
  have hopening' := ho.kind.trans hopening
  cases k with
  | zero =>
    rw [runNamed_bracket _ _ hopening]
    exact .tooDeep
  | succ k =>
    obtain ⟨k', rfl⟩ : ∃ j, k' = j + 1 := ⟨k' - 1, by omega⟩
    have hle : k ≤ k' := Nat.le_of_succ_le_succ hk
    by_cases hdeep : runIndex (Parser.expr k) tokens = .error .tooDeep
    · rw [runNamed_of_tooDeep hname hopening hdeep]
      refine Peeks.of_ne_tooDeep ?_ fun ts => runNamed_of_ne_tooDeep _ hopening'
      exact (peeks_runIndex (readsAlike_expr hk) tokens).bind fun _ _ _ _ hi =>
        peeks_runBehindIndex (readsAlike_expr hk) hn hi .tooDeep
    · rw [runNamed_of_index hname hopening hdeep]
      refine Peeks.of_ne_tooDeep ?_ fun ts hts => runNamed_of_index hname' hopening' fun hi => ?_
      · exact (peeks_runIndex (readsAlike_expr hle) tokens).bind fun _ _ _ _ hi =>
          peeks_runBehindIndex (readsAlike_expr hk) hn hi (peeks_runIndexed hle hn ho hi _)
      · rw [hi] at hts
        exact hts rfl

theorem peeks_runNamed (hk : k ≤ k') (hn : n.Alike r n') (hname : n.kind = .identifier)
    (tokens : List Token) :
    Peeks r r.SameStatement tokens (runNamed (Parser.expr k) n tokens)
      (runNamed (Parser.expr k') n') := by
  have hexpression := peeks_runExpression_name hk hn hname tokens
  cases tokens with
  | nil =>
    refine hexpression.of_next fun ts hnext => ?_
    cases hnext
    rfl
  | cons t rest =>
    by_cases hprint : n.text = Text.of "print" ∧ t.isMark .openParen = true
    · refine .cons fun t' halike => (peeks_runPrint (readsAlike_expr hk) hn rest).of_eq ?_
        fun ts => ?_
      · simp only [runNamed, if_pos hprint]
      · simp only [runNamed, hn.text, halike.isMark, if_pos hprint]
    · cases hassign : t.isSymbol .assign with
      | true =>
        have hbuild : ∀ e e', r.SameTree e e' →
            r.SameStatement (.assign (.text n.text) e n.position)
              (.assign (.text n'.text) e' n'.position) := by
          intro e e' he
          rw [hn.text]
          exact congrArg₂ (Statement.assign _) he hn.place.symm
        refine .cons fun t' halike => (peeks_runAssign (readsAlike_expr hk) hbuild rest).of_eq ?_
          fun ts => ?_
        · simp only [runNamed, if_neg hprint, hassign, if_true]
        · simp only [runNamed, hn.text, halike.isMark, if_neg hprint, halike.isSymbol, hassign,
            if_true]
      | false =>
        cases hbracket : t.isMark .openBracket with
        | true =>
          exact .cons fun t' halike => peeks_runNamed_bracket hk hn hname halike
            (Token.isMark_eq_true_iff.mp hbracket) rest
        | false =>
          have hout : runNamed (Parser.expr k) n (t :: rest) =
              runExpression (Parser.expr k) n (t :: rest) := by
            simp only [runNamed, if_neg hprint, hassign, hbracket, Bool.false_eq_true, if_false]
          rw [hout]
          refine hexpression.of_next fun ts hnext => ?_
          cases hnext with
          | cons halike =>
            simp only [runNamed, hn.text, halike.isMark, if_neg hprint, halike.isSymbol, hassign,
              hbracket, Bool.false_eq_true, if_false]

/-- The statement that tokens start with. -/
def runFirst (expr : Parser Expr) : List Token → Except Halt (Statement × List Token)
  | [] => .error (.missing .expression [])
  | t :: rest => runStatement expr t rest

/-- A statement that starts with no name and no keyword of a declaration. -/
theorem runStatement_other {first : Token} (hlet : first.kind ≠ .keyword .let_)
    (hconst : first.kind ≠ .keyword .const) (hname : first.kind ≠ .identifier)
    (rest : List Token) : runStatement expr first rest = runExpression expr first rest := by
  unfold runStatement
  split
  · next h => exact absurd h hlet
  · next h => exact absurd h hconst
  · next h => exact absurd h hname
  · rfl

/-- **Statements look one token ahead.** -/
theorem peeks_runStatement (hk : k ≤ k') (first : Token) (rest : List Token) :
    Peeks r r.SameStatement (first :: rest) (runStatement (Parser.expr k) first rest)
      (runFirst (Parser.expr k')) := by
  have hexpr : ReadsAlike r (Parser.expr k) (Parser.expr k') := readsAlike_expr hk
  by_cases hlet : first.kind = .keyword .let_
  · refine .cons fun t' halike => ?_
    have hbuild : ∀ name e e', r.SameTree e e' →
        r.SameStatement (.declare name e first.position) (.declare name e' t'.position) :=
      fun name e e' he => congrArg₂ (Statement.declare name) he halike.place.symm
    refine (peeks_runDeclaration hexpr .let_ hbuild rest).of_eq ?_ fun ts => ?_
    · simp only [runStatement, hlet]
    · simp only [runFirst, runStatement, halike.kind, hlet]
  by_cases hconst : first.kind = .keyword .const
  · refine .cons fun t' halike => ?_
    have hbuild : ∀ name e e', r.SameTree e e' →
        r.SameStatement (.constant name e first.position) (.constant name e' t'.position) :=
      fun name e e' he => congrArg₂ (Statement.constant name) he halike.place.symm
    refine (peeks_runDeclaration hexpr .const hbuild rest).of_eq ?_ fun ts => ?_
    · simp only [runStatement, hconst]
    · simp only [runFirst, runStatement, halike.kind, hconst]
  by_cases hname : first.kind = .identifier
  · refine .cons fun t' halike => (peeks_runNamed hk halike hname rest).of_eq ?_ fun ts => ?_
    · simp only [runStatement, hname]
    · simp only [runFirst, runStatement, halike.kind, hname]
  rw [runStatement_other hlet hconst hname]
  refine .of_each
    (fun ts => runAssign (Parser.expr k') (.expression · (ts.head?.map Token.position))) ?_ ?_
  · intro ts hnext
    cases hnext with
    | @cons _ t' _ _ halike =>
      have hbuild : ∀ e e', r.SameTree e e' →
          r.SameStatement (.expression e first.position) (.expression e' t'.position) :=
        fun e e' he => congrArg₂ Statement.expression he halike.place.symm
      exact peeks_runAssign hexpr hbuild (first :: rest)
  · intro ts hnext
    cases hnext with
    | cons halike =>
      rw [← halike.kind] at hlet hconst hname
      exact runStatement_other hlet hconst hname _

end Statements

/-! ## Scripts -/

/-- The statements of a script, and what is left of the tokens. -/
def runScript (expr : Parser Expr) (tokens : List Token) :
    Except Halt (List Statement × List Token) :=
  match tokens with
  | [] => .ok ([], [])
  | t :: rest =>
    if t.isMark .semicolon then runScript expr rest
    else match h : runStatement expr t rest with
      | .error halt => .error halt
      | .ok (s, behind) =>
        have : behind.length < rest.length + 1 := length_runStatement h
        (runScript expr behind).map fun p => (s :: p.1, p.2)
termination_by tokens.length

/-- The failure of a script in which something else was expected where `rest` is left, in a source
that ends at `stop`. -/
def missingAt (expected : Expected) (rest : List Token) (stop : Position) : ParseError :=
  ⟨.missing expected (rest.head?.map Token.text), (rest.head?.map Token.position).getD stop⟩

section Scripts

variable {r : Relocation} {expr : Parser Expr} {k k' : Nat} {stop : Position} {tokens : List Token}

theorem runScript_nil : runScript expr [] = .ok ([], []) := by rw [runScript]

theorem runScript_semicolon {t : Token} {rest : List Token} (ht : t.isMark .semicolon = true) :
    runScript expr (t :: rest) = runScript expr rest := by
  rw [runScript, if_pos ht]

theorem runScript_statement {t : Token} {rest : List Token} (ht : t.isMark .semicolon = false) :
    runScript expr (t :: rest) = runStatement expr t rest >>= fun p =>
      (runScript expr p.2).map fun q => (p.1 :: q.1, q.2) := by
  rw [runScript, if_neg (by rw [ht]; exact Bool.false_ne_true)]
  split
  · next h => simp only [h]; rfl
  · next h => simp only [h]; rfl

/-- What the parser makes of a script that is read to its end, or not. -/
theorem readStatements_eq (k : Nat) (stop : Position) (tokens : List Token) :
    (∃ ss, runScript (Parser.expr k) tokens = .ok (ss, []) ∧
        Script.readStatements (Parser.expr k) stop tokens = .ok ss) ∨
      (∃ expected rest, runScript (Parser.expr k) tokens = .error (.missing expected rest) ∧
        Script.readStatements (Parser.expr k) stop tokens =
          .error (missingAt expected rest stop)) ∨
      runScript (Parser.expr k) tokens = .error .tooDeep ∧
        ∃ t ∈ tokens, Script.readStatements (Parser.expr k) stop tokens =
          .error ⟨.nestedTooDeeply, t.position⟩ := by
  fun_induction Script.readStatements (Parser.expr k) stop tokens with
  | case1 => exact .inl ⟨[], runScript_nil, rfl⟩
  | case2 t rest ht ih =>
    rw [runScript_semicolon ht]
    refine ih.imp_right (Or.imp_right fun ⟨hdeep, u, hu, he⟩ => ?_)
    exact ⟨hdeep, u, List.mem_cons_of_mem _ hu, he⟩
  | case3 t rest ht halt hs =>
    rw [runScript_statement (eq_false_of_ne_true ht), hs]
    cases halt with
    | missing expected behind => exact .inr (.inl ⟨expected, behind, rfl, rfl⟩)
    | tooDeep => exact .inr (.inr ⟨rfl, t, List.mem_cons_self, rfl⟩)
  | case4 t rest ht s behind hs hlt ih =>
    have hrest : runScript (Parser.expr k) (t :: rest) =
        (runScript (Parser.expr k) behind).map fun q => (s :: q.1, q.2) := by
      rw [runScript_statement (eq_false_of_ne_true ht), hs]
      rfl
    rw [hrest]
    rcases ih with ⟨ss, hrun, hread⟩ | ⟨expected, left, hrun, hread⟩ | ⟨hrun, u, hu, hread⟩
    · exact .inl ⟨s :: ss, by rw [hrun]; rfl, by rw [hread]; rfl⟩
    · exact .inr (.inl ⟨expected, left, by rw [hrun]; rfl, by rw [hread]; rfl⟩)
    · have hstatement := peeks_runStatement (r := .same) (Nat.le_refl k) t rest
      obtain ⟨used, hused, -⟩ := hstatement behind (by rw [hs]; rfl)
      refine .inr (.inr ⟨by rw [hrun]; rfl, u, ?_, by rw [hread]; rfl⟩)
      rw [hused]
      exact List.mem_append_right _ hu

theorem readStatements_eq_ok_iff {ss : List Statement} :
    Script.readStatements (Parser.expr k) stop tokens = .ok ss ↔
      runScript (Parser.expr k) tokens = .ok (ss, []) := by
  rcases readStatements_eq k stop tokens with
    ⟨ss', h, h'⟩ | ⟨expected, rest, h, h'⟩ | ⟨h, t, -, h'⟩ <;> simp [h, h']

/-- Two lists of statements differ in places only, which are read as the same. -/
def Relocation.SameStatements (r : Relocation) (ss ss' : List Statement) : Prop :=
  ss.map (Statement.mapPositions r.left) = ss'.map (Statement.mapPositions r.right)

/-- **Scripts look one token ahead.** -/
theorem peeks_runScript (hk : k ≤ k') (tokens : List Token) :
    Peeks r r.SameStatements tokens (runScript (Parser.expr k) tokens)
      (runScript (Parser.expr k')) := by
  induction hn : tokens.length using Nat.strongRecOn generalizing tokens with
  | ind n ih =>
    subst hn
    cases tokens with
    | nil =>
      rw [runScript_nil]
      refine .done fun rest' hnext => ?_
      cases hnext
      exact ⟨[], runScript_nil, rfl⟩
    | cons t rest =>
      cases ht : t.isMark .semicolon with
      | true =>
        exact .cons fun t' halike => (ih rest.length (Nat.lt_succ_self _) rest rfl).of_eq
          (runScript_semicolon ht) fun ts => runScript_semicolon ((halike.isMark _).trans ht)
      | false =>
        rw [runScript_statement ht]
        have hbind : Peeks r r.SameStatements (t :: rest)
            (runStatement (Parser.expr k) t rest >>= fun p =>
              (runScript (Parser.expr k) p.2).map fun q => (p.1 :: q.1, q.2))
            fun ts => runFirst (Parser.expr k') ts >>= fun p =>
              (runScript (Parser.expr k') p.2).map fun q => (p.1 :: q.1, q.2) := by
          refine (peeks_runStatement hk t rest).bind fun s behind hs s' hsame => ?_
          have hcons : ∀ ss ss', r.SameStatements ss ss' →
              r.SameStatements (s :: ss) (s' :: ss') :=
            fun ss ss' hss => congrArg₂ List.cons hsame hss
          exact (ih behind.length (length_runStatement hs) behind rfl).map hcons
        refine hbind.of_next fun ts hnext => ?_
        cases hnext with
        | cons halike => exact runScript_statement ((halike.isMark _).trans ht)

/-- Alike tokens are read as the same statements. -/
theorem readStatements_alike (hk : k ≤ k') (stop' : Position) {tokens' : List Token}
    {ss : List Statement} (halike : List.Forall₂ (Token.Alike r) tokens tokens')
    (h : Script.readStatements (Parser.expr k) stop tokens = .ok ss) :
    ∃ ss', Script.readStatements (Parser.expr k') stop' tokens' = .ok ss' ∧
      r.SameStatements ss ss' := by
  rw [readStatements_eq_ok_iff] at h
  obtain ⟨used, hused, hsame⟩ := peeks_runScript (r := r) hk tokens [] (by rw [h]; rfl)
  rw [List.append_nil] at hused
  rw [h] at hsame
  obtain ⟨ss', hss, hrun⟩ := (hsame tokens' [] (hused ▸ halike) .nil).eq_ok
  rw [List.append_nil] at hrun
  exact ⟨ss', readStatements_eq_ok_iff.mpr hrun, hss⟩

/-- Where something is missing, tokens that begin alike miss it too, whatever follows. -/
theorem readStatements_missing {e : ParseError}
    (h : Script.readStatements (Parser.expr k) stop tokens = .error e)
    (he : e.fault ≠ .nestedTooDeeply) :
    ∃ expected used rest, tokens = used ++ rest ∧ e = missingAt expected rest stop ∧
      runScript (Parser.expr k) tokens = .error (.missing expected rest) ∧
      ∀ k' stop' used' rest', k ≤ k' → List.Forall₂ (Token.Alike r) used used' →
        SameNext r rest rest' → Script.readStatements (Parser.expr k') stop' (used' ++ rest') =
          .error (missingAt expected rest' stop') := by
  rcases readStatements_eq k stop tokens with
    ⟨ss, -, hok⟩ | ⟨expected, rest, hrun, herror⟩ | ⟨-, t, -, hdeep⟩
  · cases h.symm.trans hok
  · cases h.symm.trans herror
    have hrest : rest ∈ restOf (runScript (Parser.expr k) tokens) := by rw [hrun]; rfl
    obtain ⟨used, hused, -⟩ := peeks_runScript (r := r) (Nat.le_refl k) tokens rest hrest
    refine ⟨expected, used, rest, hused, rfl, hrun, fun k' stop' used' rest' hk hused' hnext => ?_⟩
    obtain ⟨used₁, hused₁, hsame⟩ := peeks_runScript (r := r) hk tokens rest hrest
    cases List.append_cancel_right (hused.symm.trans hused₁)
    rw [hrun] at hsame
    have hrun' := (hsame used' rest' hused' hnext).eq_missing
    rcases readStatements_eq k' stop' (used' ++ rest') with
      ⟨ss, hok, -⟩ | ⟨expected', left, hmissing, herror'⟩ | ⟨hdeep, -⟩
    · cases hrun'.symm.trans hok
    · cases hrun'.symm.trans hmissing
      exact herror'
    · cases hrun'.symm.trans hdeep
  · cases h.symm.trans hdeep
    exact absurd rfl he

end Scripts

end ScalarScript
