import ScalarScript.Proofs.Grammar.Statement

/-!
# Scripts

A script is read as the statements of its one derivation.

Results:
* `readStatements_tokens`, `exists_of_readStatements`: tokens are read as a script exactly where
  they are derived as one.
* `ScriptDerivation.eq_of_tokens_eq`: the derivation is the only one.
* **`parse_iff_derivation`**: the two together, for tokens and for sources, with what decides
  between an indexed assignment and an expression.
-/

namespace ScalarScript.Grammar

open ScalarScript.Parser

variable {k : Nat} {stop : Position}

/-! ## What is derived is read -/

theorem readStatements_nil {expr : Parser Expr} :
    Script.readStatements expr stop [] = .ok [] := by
  rw [Script.readStatements]

theorem readStatements_semicolon {expr : Parser Expr} {t : Token} {tokens : List Token}
    (ht : t.kind = .mark .semicolon) :
    Script.readStatements expr stop (t :: tokens) = Script.readStatements expr stop tokens := by
  rw [Script.readStatements, if_pos (Token.isMark_eq_true_iff.mpr ht)]

theorem readStatements_statement {expr : Parser Expr} {t : Token} {tokens rest : List Token}
    {s : Statement} (ht : t.kind ≠ .mark .semicolon)
    (h : runStatement expr t tokens = .ok (s, rest)) :
    Script.readStatements expr stop (t :: tokens) =
      (Script.readStatements expr stop rest).map (s :: ·) := by
  rw [Script.readStatements, if_neg (by simpa using ht)]
  split
  · next hr =>
    rw [h] at hr
    cases hr
  · next hr =>
    rw [h] at hr
    cases hr
    rfl

theorem readStatements_halt {expr : Parser Expr} {t : Token} {tokens : List Token} {halt : Halt}
    (ht : t.kind ≠ .mark .semicolon) (h : runStatement expr t tokens = .error halt) :
    Script.readStatements expr stop (t :: tokens) = .error (halt.toError t.position stop) := by
  rw [Script.readStatements, if_neg (by simpa using ht)]
  split
  · next hr =>
    rw [h] at hr
    cases hr
    rfl
  · next hr =>
    rw [h] at hr
    cases hr

/-- A derived statement and its end, in front of any tokens. -/
theorem readStatements_ended (s : StatementDerivation) {ending rest : List Token}
    (hk : s.nesting ≤ k) (hend : takeEnd ending = .ok rest) :
    Script.readStatements (Parser.expr k) stop (s.tokens ++ ending) =
      (Script.readStatements (Parser.expr k) stop rest).map (s.statement :: ·) := by
  obtain ⟨first, behind, hs, hne⟩ := s.exists_tokens_eq
  have hfirst : s.tokens ++ ending = first :: (behind ++ ending) := by rw [hs]; rfl
  rw [hfirst, readStatements_statement hne (runStatement_statement s hk hend hfirst)]

/-- A derived statement and its end, in front of tokens that are read. -/
theorem readStatements_append {s : StatementDerivation} {ending rest : List Token}
    {ss : List Statement} (hk : s.nesting ≤ k) (hend : takeEnd ending = .ok rest)
    (h : Script.readStatements (Parser.expr k) stop rest = .ok ss) :
    Script.readStatements (Parser.expr k) stop (s.tokens ++ ending) = .ok (s.statement :: ss) := by
  rw [readStatements_ended s hk hend, h]
  rfl

/-- The semicolon behind a statement ends it. -/
theorem takeEnd_semicolon (semicolon : MarkToken .semicolon) (rest : List Token) :
    takeEnd (semicolon.1 :: rest) = .ok rest :=
  takeEnd_eq_ok_iff.mpr (.inr ⟨semicolon.1, semicolon.2, rfl⟩)

/-- What is derived as a script is read as it. -/
theorem readStatements_tokens (d : ScriptDerivation) (hk : d.nesting ≤ k) :
    Script.readStatements (Parser.expr k) stop d.tokens = .ok d.statements := by
  induction d with
  | empty => exact readStatements_nil
  | last s =>
    have hread : Script.readStatements (Parser.expr k) stop (s.tokens ++ []) =
        .ok [s.statement] := readStatements_append hk rfl readStatements_nil
    rwa [List.append_nil] at hread
  | skip semicolon rest ih =>
    rw [ScriptDerivation.tokens, readStatements_semicolon semicolon.2]
    exact ih hk
  | statement s semicolon rest ih =>
    obtain ⟨hs, hrest⟩ := Nat.max_le.mp hk
    exact readStatements_append hs (takeEnd_semicolon semicolon _) (ih hrest)

/-! ## What is read is derived -/

theorem exists_of_readStatements {tokens : List Token} {ss : List Statement}
    (h : Script.readStatements (Parser.expr k) stop tokens = .ok ss) :
    ∃ d : ScriptDerivation, d.tokens = tokens ∧ d.nesting ≤ k ∧ d.statements = ss := by
  fun_induction Script.readStatements (Parser.expr k) stop tokens generalizing ss with
  | case1 =>
    cases h
    exact ⟨.empty, rfl, Nat.zero_le k, rfl⟩
  | case2 t rest ht ih =>
    obtain ⟨d, rfl, hk, rfl⟩ := ih h
    exact ⟨.skip ⟨t, Token.isMark_eq_true_iff.mp ht⟩ d, rfl, hk, rfl⟩
  | case3 => cases h
  | case4 t rest ht s behind hs _ ih =>
    obtain ⟨ss', hss, rfl⟩ := Except.map_eq_ok_iff.mp h
    obtain ⟨d, ending, htokens, hend, hk, rfl⟩ := derived_runStatement hs
    rcases takeEnd_eq_ok_iff.mp hend with ⟨rfl, rfl⟩ | ⟨semicolon, hsemi, rfl⟩
    · rw [readStatements_nil] at hss
      cases hss
      exact ⟨.last d, by rw [ScriptDerivation.tokens, htokens, List.append_nil], hk, rfl⟩
    · obtain ⟨d', hd', hk', rfl⟩ := ih hss
      refine ⟨.statement d ⟨semicolon, hsemi⟩ d', ?_, Nat.max_le.mpr ⟨hk, hk'⟩, rfl⟩
      rw [ScriptDerivation.tokens, hd', htokens]

/-! ## One derivation -/

/-- A statement does not start with a semicolon. -/
theorem statement_ne_semicolon (s : StatementDerivation) (semicolon : MarkToken .semicolon)
    {rest rest' : List Token} : s.tokens ++ rest ≠ semicolon.1 :: rest' := by
  intro h
  obtain ⟨first, behind, hs, hne⟩ := s.exists_tokens_eq
  rw [hs] at h
  cases h
  exact hne semicolon.2

theorem statement_ne_nil (s : StatementDerivation) {rest : List Token} : s.tokens ++ rest ≠ [] := by
  intro h
  obtain ⟨first, behind, hs, -⟩ := s.exists_tokens_eq
  rw [hs] at h
  cases h

namespace ScriptDerivation

/-- A last statement is followed by nothing, one that a semicolon ends by that. -/
theorem last_ne_statement {s s' : StatementDerivation} {semicolon : MarkToken .semicolon}
    {rest : ScriptDerivation} : (last s).tokens ≠ (statement s' semicolon rest).tokens := by
  intro h
  rw [tokens, tokens, ← List.append_nil s.tokens] at h
  cases (StatementDerivation.tokens_append_inj rfl (takeEnd_semicolon semicolon _) h).2

/-- **No script is ambiguous.** -/
theorem eq_of_tokens_eq {d d' : ScriptDerivation} (h : d.tokens = d'.tokens) : d = d' := by
  induction d generalizing d' with
  | empty =>
    cases d' with
    | empty => rfl
    | last s' => exact absurd ((List.append_nil _).trans h.symm) (statement_ne_nil s')
    | skip semicolon' rest' => cases h
    | statement s' semicolon' rest' => exact absurd h.symm (statement_ne_nil s')
  | last s =>
    cases d' with
    | empty => exact absurd ((List.append_nil _).trans h) (statement_ne_nil s)
    | last s' =>
      have h' : s.tokens ++ [] = s'.tokens ++ [] := congrArg (· ++ []) h
      obtain ⟨rfl, -⟩ := StatementDerivation.tokens_append_inj rfl rfl h'
      rfl
    | skip semicolon' rest' =>
      exact absurd ((List.append_nil _).trans h) (statement_ne_semicolon s semicolon')
    | statement s' semicolon' rest' => exact absurd h last_ne_statement
  | skip semicolon rest ih =>
    cases d' with
    | empty => cases h
    | last s' =>
      exact absurd ((List.append_nil _).trans h.symm) (statement_ne_semicolon s' semicolon)
    | skip semicolon' rest' =>
      obtain ⟨rfl, hrest⟩ := token_cons_inj.mp h
      rw [ih hrest]
    | statement s' semicolon' rest' => exact absurd h.symm (statement_ne_semicolon s' semicolon)
  | statement s semicolon rest ih =>
    cases d' with
    | empty => exact absurd h (statement_ne_nil s)
    | last s' => exact absurd h.symm last_ne_statement
    | skip semicolon' rest' => exact absurd h (statement_ne_semicolon s semicolon')
    | statement s' semicolon' rest' =>
      obtain ⟨rfl, hrest⟩ := StatementDerivation.tokens_append_inj (takeEnd_semicolon semicolon _)
        (takeEnd_semicolon semicolon' _) h
      obtain ⟨rfl, htokens⟩ := token_cons_inj.mp hrest
      rw [ih htokens]

end ScriptDerivation

/-! ## The parser and its grammar -/

theorem ofTokens_eq_ok_iff {depth : Nat} {tokens : Tokens} {ss : List Statement} :
    Script.ofTokens depth tokens = .ok ss ↔
      ∃ d : ScriptDerivation, d.tokens = tokens.tokens ∧ d.nesting ≤ depth ∧ d.statements = ss := by
  constructor
  · exact exists_of_readStatements
  · rintro ⟨d, hd, hk, rfl⟩
    rw [Script.ofTokens, ← hd]
    exact readStatements_tokens d hk

theorem parse_eq_ok_iff {source : Text} {name : Datum} {script : Script} :
    Script.parse source name = .ok script ↔
      ∃ tokens ss, Tokens.scan source = .ok tokens ∧
        Script.ofTokens Script.nestingLimit tokens = .ok ss ∧ script = ⟨ss, name⟩ := by
  simp only [Script.parse, Except.bind_eq_ok_iff, Except.mapError_eq_ok_iff, Except.pure_eq_ok_iff]
  constructor
  · rintro ⟨tokens, hscan, ss, hss, rfl⟩
    exact ⟨tokens, ss, hscan, hss, rfl⟩
  · rintro ⟨tokens, ss, hscan, hss, rfl⟩
    exact ⟨tokens, hscan, ss, hss, rfl⟩

theorem parse_eq_error_parse_iff {source : Text} {name : Datum} {e : ParseError} :
    Script.parse source name = .error (.parse e) ↔
      ∃ tokens, Tokens.scan source = .ok tokens ∧
        Script.ofTokens Script.nestingLimit tokens = .error e := by
  simp only [Script.parse, Except.bind_eq_error_iff, Except.mapError_eq_error_iff,
    Except.mapError_eq_ok_iff]
  constructor
  · rintro (⟨_, -, h⟩ | ⟨tokens, hscan, ⟨_, herror, h⟩ | ⟨ss, -, h⟩⟩)
    · cases h
    · cases h
      exact ⟨tokens, hscan, herror⟩
    · cases h
  · rintro ⟨tokens, hscan, herror⟩
    exact .inr ⟨tokens, hscan, .inl ⟨e, herror, rfl⟩⟩

/-- A derivation of the tokens of a source is what the source is parsed as. -/
theorem parse_of_derivation {source : Text} {last : Position} (name : Datum) (d : ScriptDerivation)
    (hscan : Tokens.scan source = .ok ⟨d.tokens, last⟩) (hd : d.nesting ≤ Script.nestingLimit) :
    Script.parse source name = .ok ⟨d.statements, name⟩ :=
  parse_eq_ok_iff.mpr ⟨_, _, hscan, ofTokens_eq_ok_iff.mpr ⟨d, rfl, hd, rfl⟩, rfl⟩

/-- **The parser accepts exactly its grammar.** Tokens are read as statements exactly when they are
derived as a script, nested within the limit, and the statements are those of the derivation; so it
is for the tokens of a source. The derivation is the only one. A name, an index and a sign of
assignment start nothing but an indexed assignment, and where tokens behind a name are an
expression, looking for that sign does not keep them from being read as one. -/
theorem parse_iff_derivation :
    (∀ (depth : Nat) (tokens : Tokens) (ss : List Statement),
      Script.ofTokens depth tokens = .ok ss ↔
        ∃ d : ScriptDerivation,
          d.tokens = tokens.tokens ∧ d.nesting ≤ depth ∧ d.statements = ss) ∧
    (∀ (source : Text) (name : Datum) (script : Script),
      Script.parse source name = .ok script ↔
        ∃ (tokens : Tokens) (d : ScriptDerivation), Tokens.scan source = .ok tokens ∧
          d.tokens = tokens.tokens ∧ d.nesting ≤ Script.nestingLimit ∧
          script = ⟨d.statements, name⟩) ∧
    (∀ d d' : ScriptDerivation, d.tokens = d'.tokens → d = d') ∧
    (∀ (s : StatementDerivation) (n : NameToken) (opening : MarkToken .openBracket)
      (i : Derivation .expr) (closing : MarkToken .closeBracket) (sign : SymbolToken .assign)
      (rest : List Token),
      s.tokens = n.1 :: opening.1 :: (i.tokens ++ closing.1 :: sign.1 :: rest) →
        ∃ value, s = .indexAssign n opening i closing sign value) ∧
    (∀ (depth : Nat) (n : NameToken) (opening : MarkToken .openBracket) (rest rest' : List Token)
      (s : Statement),
      runExpression (Parser.expr depth) n.1 (opening.1 :: rest) = .ok (s, rest') →
        runIndexAssign? (Parser.expr depth) n.1 rest = .ok none ∧
          runNamed (Parser.expr depth) n.1 (opening.1 :: rest) = .ok (s, rest')) := by
  refine ⟨fun depth tokens ss => ofTokens_eq_ok_iff, fun source name script => ?_,
    fun d d' h => ScriptDerivation.eq_of_tokens_eq h,
    fun s n opening i closing sign rest h => StatementDerivation.eq_indexAssign h,
    fun depth n opening rest rest' s h => ?_⟩
  · simp only [parse_eq_ok_iff, ofTokens_eq_ok_iff]
    constructor
    · rintro ⟨tokens, _, hscan, ⟨d, hd, hk, rfl⟩, rfl⟩
      exact ⟨tokens, d, hscan, hd, hk, rfl⟩
    · rintro ⟨tokens, d, hscan, hd, hk, rfl⟩
      exact ⟨tokens, d.statements, hscan, ⟨d, hd, hk, rfl⟩, rfl⟩
  · obtain ⟨value, ending, hv, hend, hk, -⟩ := derived_runAssign h
    have hnone := runIndexAssign?_of_expr hk hend n.2 opening.2 hv.symm
    refine ⟨hnone, ?_⟩
    rw [runNamed, if_neg (by simp [opening.2]), if_neg (by simp [Token.isSymbol, opening.2]),
      if_pos (by simp [opening.2]), hnone]
    exact h

/-! ### An index that is no target -/

/-- The name of `x[0]`. -/
def indexedName : NameToken := ⟨⟨.identifier, Text.of "x", ⟨1, 1⟩⟩, rfl⟩

/-- The opening bracket of `x[0]`. -/
def indexedOpening : MarkToken .openBracket := ⟨⟨.mark .openBracket, Text.of "[", ⟨1, 2⟩⟩, rfl⟩

/-- The closing bracket of `x[0]`. -/
def indexedClosing : MarkToken .closeBracket := ⟨⟨.mark .closeBracket, Text.of "]", ⟨1, 4⟩⟩, rfl⟩

/-- An expression that is one primary with suffixes. -/
def exprOfPrimary (head : Derivation .primary) (tail : Derivation .suffixes) : Derivation .expr :=
  .expr (.additive (.bare (.operand head tail)) .noAddition) .noComparison

/-- The index of `x[0]`. -/
def indexedZero : Derivation .expr :=
  exprOfPrimary (.literal ⟨⟨.number 0, Text.of "0", ⟨1, 3⟩⟩, rfl⟩) .noSuffix

/-- The expression `x[0]`. -/
def indexedRead : Derivation .expr :=
  exprOfPrimary (.name indexedName) (.index indexedOpening indexedZero indexedClosing .noSuffix)

/-- The one statement of `x[0]` reads an index, and looking for an assignment finds none; with a
sign and a value behind, the statement is an indexed assignment. -/
theorem parse_iff_derivation_of_index :
    Script.ofTokens 2 ⟨indexedRead.tokens, ⟨1, 5⟩⟩ =
        .ok [.expression indexedRead.tree (some ⟨1, 1⟩)] ∧
      (∃ d : ScriptDerivation,
        d.tokens = indexedRead.tokens ∧ d = .last (.expression indexedRead rfl)) ∧
      runIndexAssign? (Parser.expr 2) indexedName.1
        (indexedZero.tokens ++ [indexedClosing.1]) = .ok none ∧
      ∃ value, StatementDerivation.indexAssign indexedName indexedOpening indexedZero
          indexedClosing ⟨⟨.symbol .assign, Text.of "=", ⟨1, 6⟩⟩, rfl⟩ indexedRead =
        .indexAssign indexedName indexedOpening indexedZero indexedClosing
          ⟨⟨.symbol .assign, Text.of "=", ⟨1, 6⟩⟩, rfl⟩ value := by
  obtain ⟨haccepts, -, hunique, hassign, hindex⟩ := parse_iff_derivation
  have hread := (haccepts 2 ⟨indexedRead.tokens, ⟨1, 5⟩⟩ _).mpr
    ⟨.last (.expression indexedRead rfl), rfl, by decide, rfl⟩
  obtain ⟨d, hd, -, -⟩ := (haccepts 2 ⟨indexedRead.tokens, ⟨1, 5⟩⟩ _).mp hread
  refine ⟨hread, ⟨d, hd, hunique d _ hd⟩, ?_, hassign _ _ _ _ _ _ indexedRead.tokens rfl⟩
  have hvalue : runAssign (Parser.expr 2) (.expression · (some ⟨1, 1⟩)) (indexedRead.tokens ++ []) =
      .ok (.expression indexedRead.tree (some ⟨1, 1⟩), []) :=
    reads_value (by decide) rfl (.expression · (some ⟨1, 1⟩))
  exact (hindex 2 indexedName indexedOpening _ [] _ hvalue).1

end ScalarScript.Grammar
