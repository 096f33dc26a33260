import ScalarScript.Proofs.Grammar.Lookahead.Script
import ScalarScript.Proofs.Grammar.Script
import ScalarScript.Proofs.Grammar.Viable.Expression

/-!
# Viable prefixes

A failure of the parser stands at the first token that cannot stand there. It is not found too late:
the tokens in front of it begin a script. It is not found too early: the parser looks one token
ahead, so no script starts with the tokens in front of the failure and the token at it.

* `BeginsStatement`, `BeginsScript`: tokens that can be completed to a statement or a script.
* `Accepted`: tokens that are read as a script, at some depth.
* `FirstWrong`: a failure stands at the first token that cannot stand there.

Results:
* `misses_runStatement`, `misses_runScript`: where something is missing, the tokens in front begin a
  statement or a script.
* **`firstWrong_of_error`**: a failure stands at the first token that cannot stand there.
-/

namespace ScalarScript.Grammar

open ScalarScript.Parser

variable {k : Nat}

/-! ## Beginnings of statements -/

/-- Tokens that some tokens behind them complete to a statement. -/
def BeginsStatement (used : List Token) : Prop :=
  ∃ (s : StatementDerivation) (more : List Token), s.tokens = used ++ more ∧ Spelled more

theorem beginsStatement_nil : BeginsStatement [] :=
  ⟨.expression (exprOfPrimary (.literal literalToken) .noSuffix) rfl, [literalToken.1], rfl,
    spelled_cons (.keyword .true_) spelled_nil⟩

/-- A beginning of an expression is one of the statement around it, with the tokens in front. -/
theorem Begins.statement {used : List Token} (h : Begins .expr used)
    (f : Derivation .expr → StatementDerivation) (front back : List Token) (hback : Spelled back)
    (hf : ∀ d, (f d).tokens = front ++ (d.tokens ++ back)) : BeginsStatement (front ++ used) := by
  obtain ⟨d, more, hd, hmore⟩ := h
  refine ⟨f d, more ++ back, ?_, spelled_append hmore hback⟩
  rw [hf, hd, List.append_assoc, List.append_assoc]

theorem startsPrint_of_kind {t : Token} (ht : t.kind ≠ .identifier) (rest : List Token) :
    startsPrint (t :: rest) = false := by
  cases rest with
  | nil => rfl
  | cons opening rest => simp [startsPrint, ht]

/-- A beginning of an expression is one of a statement, if the tokens do not start like a print
statement; a lone name is completed by nothing. -/
theorem Begins.expression {first : Token} {rest used behind : List Token} (h : Begins .expr used)
    (hp : startsPrint (first :: rest) = false) (hused : first :: rest = used ++ behind) :
    BeginsStatement used := by
  obtain ⟨d, more, hd, hmore⟩ := h
  match used with
  | [] => exact beginsStatement_nil
  | [n] =>
    by_cases hn : n.kind = .identifier
    · exact ⟨.expression (exprOfPrimary (.name ⟨n, hn⟩) .noSuffix) rfl, [], rfl, spelled_nil⟩
    · exact ⟨.expression d (hd ▸ startsPrint_of_kind hn more), more, hd, hmore⟩
  | n :: t :: used =>
    rw [hused] at hp
    have hstart : startsPrint d.tokens = false := by
      rw [hd]
      exact hp
    exact ⟨.expression d hstart, more, hd, hmore⟩

theorem misses_runAssign (build : Expr → Statement) (tokens : List Token) :
    Misses (Begins .expr) tokens (runAssign (Parser.expr k) build tokens) := by
  refine (misses_expr k tokens).bind fun e behind he => ?_
  obtain ⟨d, rfl, -, -⟩ := derived_expr he
  exact ⟨d.tokens, rfl, .takeEnd (begins_whole d) _ behind⟩

theorem misses_runExpression {first : Token} {rest : List Token}
    (hp : startsPrint (first :: rest) = false) :
    Misses BeginsStatement (first :: rest) (runExpression (Parser.expr k) first rest) := by
  intro expected behind hout
  obtain ⟨used, hused, h⟩ := misses_runAssign _ (first :: rest) expected behind hout
  exact ⟨used, hused, h.expression hp hused⟩

theorem misses_runPrint (n : { t : Token // t.kind = .identifier ∧ t.text = Text.of "print" })
    (opening : MarkToken .openParen) (tokens : List Token) :
    Misses (fun used => BeginsStatement (n.1 :: opening.1 :: used)) tokens
      (runPrint (Parser.expr k) n.1.position tokens) := by
  have hvalue : ∀ used, Begins .expr used → BeginsStatement (n.1 :: opening.1 :: used) :=
    fun used h => h.statement (.print n opening · (markToken .closeParen)) [n.1, opening.1] _
      (spelled_markToken .closeParen) fun _ => rfl
  refine ((misses_expr k tokens).mono hvalue).bind fun e behind he => ?_
  obtain ⟨d, rfl, -, -⟩ := derived_expr he
  have hclosing : BeginsStatement (n.1 :: opening.1 :: (d.tokens ++ [])) :=
    hvalue _ (begins_whole d)
  refine ⟨d.tokens, rfl, .takeMark hclosing (fun closing rest => .takeEnd ?_ _ rest) behind⟩
  exact ⟨.print n opening d closing, [], (List.append_nil _).symm, spelled_nil⟩

theorem misses_runNamed_bracket (n : NameToken) (opening : MarkToken .openBracket)
    (tokens : List Token) :
    Misses BeginsStatement (n.1 :: opening.1 :: tokens)
      (runNamed (Parser.expr k) n.1 (opening.1 :: tokens)) := by
  have hp : startsPrint (n.1 :: opening.1 :: tokens) = false := by
    simp [startsPrint, Token.isMark, opening.2]
  have hindex : ∀ used, BeginsIndex used → BeginsStatement (n.1 :: opening.1 :: used) := by
    rintro used ⟨i, closing, more, heq, hmore⟩
    let e := exprOfPrimary (.name n) (.index opening i closing .noSuffix)
    have hread : e.tokens = n.1 :: opening.1 :: used ++ more := by
      rw [List.cons_append, List.cons_append, ← heq]
      simp [e, exprOfPrimary, Derivation.tokens]
    have hstart : startsPrint e.tokens = false := by
      rw [hread]
      simp [startsPrint, Token.isMark, opening.2]
    exact ⟨.expression e hstart, more, hread, hmore⟩
  rw [runNamed_bracket _ _ opening.2]
  cases hi : runIndex (Parser.expr k) tokens with
  | error halt =>
    have hmisses := (misses_runIndex derived_expr (misses_expr k) tokens).mono hindex
    rw [hi] at hmisses
    refine .append [n.1, opening.1] (hmisses.bind fun _ _ h => ?_)
    cases h
  | ok p =>
    -- With no sign behind the index, the second reading is the one that misses something.
    obtain ⟨i, behind⟩ := p
    show Misses _ _ (runBehindIndex _ _ i _ behind)
    cases behind with
    | nil => exact misses_runExpression hp
    | cons sign rest =>
      rw [runBehindIndex]
      split
      · next hs =>
        obtain ⟨closing, hc, he⟩ := runIndex_eq_ok_iff.mp hi
        obtain ⟨d, rfl, -, -⟩ := derived_expr he
        have hvalue : ∀ used, Begins .expr used →
            BeginsStatement (n.1 :: opening.1 :: (d.tokens ++ [closing, sign]) ++ used) :=
          fun used h => h.statement
            (.indexAssign n opening d ⟨closing, hc⟩ ⟨sign, Token.isSymbol_eq_true_iff.mp hs⟩ ·)
            (n.1 :: opening.1 :: (d.tokens ++ [closing, sign])) [] spelled_nil
            fun d => by simp [StatementDerivation.tokens]
        have hmisses := Misses.append _ ((misses_runAssign (k := k)
          (.indexAssign (.text n.1.text) i · n.1.position) rest).mono hvalue)
        simpa using hmisses
      · exact misses_runExpression hp

theorem misses_runNamed (n : NameToken) (tokens : List Token) :
    Misses BeginsStatement (n.1 :: tokens) (runNamed (Parser.expr k) n.1 tokens) := by
  cases tokens with
  | nil => exact misses_runExpression rfl
  | cons t rest =>
    by_cases hprint : n.1.text = Text.of "print" ∧ t.isMark .openParen = true
    · rw [runNamed, if_pos hprint]
      exact .append [n.1, t] (misses_runPrint ⟨n.1, n.2, hprint.1⟩
        ⟨t, Token.isMark_eq_true_iff.mp hprint.2⟩ rest)
    · have hstart : startsPrint (n.1 :: t :: rest) = false := by
        simpa [startsPrint, n.2] using hprint
      by_cases hs : t.isSymbol .assign = true
      · rw [runNamed, if_neg hprint, if_pos hs]
        refine .append [n.1, t] ((misses_runAssign _ rest).mono fun used h => ?_)
        exact h.statement (.assign n ⟨t, Token.isSymbol_eq_true_iff.mp hs⟩ ·) [n.1, t] []
          spelled_nil fun d => by simp [StatementDerivation.tokens]
      · by_cases ho : t.isMark .openBracket = true
        · exact misses_runNamed_bracket n ⟨t, Token.isMark_eq_true_iff.mp ho⟩ rest
        · rw [runNamed, if_neg hprint, if_neg hs, if_neg ho]
          exact misses_runExpression hstart

/-- What follows the keyword of a declaration, which has the form `f`. -/
theorem misses_runDeclaration (first : Token) (keyword : Keyword) (build : Datum → Expr → Statement)
    (f : NameToken → SymbolToken .assign → Derivation .expr → StatementDerivation)
    (hf : ∀ n sign d, (f n sign d).tokens = first :: n.1 :: sign.1 :: d.tokens)
    (tokens : List Token) :
    Misses (fun used => BeginsStatement (first :: used)) tokens
      (runDeclaration (Parser.expr k) keyword build tokens) := by
  have hliteral : Spelled [literalToken.1] := spelled_cons (.keyword .true_) spelled_nil
  have hsign : Spelled [assignToken.1, literalToken.1] := spelled_cons (.symbol .assign) hliteral
  have hvalue : ∀ (n : NameToken) (sign : SymbolToken .assign) used, Begins .expr used →
      BeginsStatement (first :: n.1 :: sign.1 :: used) := fun n sign used h =>
    h.statement (f n sign) [first, n.1, sign.1] [] spelled_nil fun d => by
      rw [hf, List.append_nil]
      rfl
  let value : Derivation .expr := exprOfPrimary (.literal literalToken) .noSuffix
  refine .of_takes (takes_takeName _ _) ?_ (fun n rest hn => .of_takes (takes_takeAssign _) ?_
    (fun sign rest hs => ?_) rest) tokens
  · exact ⟨f nameToken assignToken value, _, hf _ _ _, spelled_cons spelledAs_nameToken hsign⟩
  · exact ⟨f ⟨n, beq_iff_eq.mp hn⟩ assignToken value, _, hf _ _ _, hsign⟩
  · exact (misses_runAssign _ rest).mono
      (hvalue ⟨n, beq_iff_eq.mp hn⟩ ⟨sign, Token.isSymbol_eq_true_iff.mp hs⟩)

/-- Where a statement misses something, the tokens in front of that begin one. -/
theorem misses_runStatement (first : Token) (rest : List Token) :
    Misses BeginsStatement (first :: rest) (runStatement (Parser.expr k) first rest) := by
  unfold runStatement
  split
  · next hkind =>
    exact .cons (misses_runDeclaration first _ _ (.declare ⟨first, hkind⟩) (fun _ _ _ => rfl) rest)
  · next hkind =>
    exact .cons (misses_runDeclaration first _ _ (.constant ⟨first, hkind⟩) (fun _ _ _ => rfl) rest)
  · next hkind => exact misses_runNamed ⟨first, hkind⟩ rest
  · next hkind => exact misses_runExpression (startsPrint_of_kind hkind rest)

/-! ## Beginnings of scripts -/

/-- Tokens that some tokens behind them complete to a script. -/
def BeginsScript (used : List Token) : Prop :=
  ∃ (d : ScriptDerivation) (more : List Token), d.tokens = used ++ more ∧ Spelled more

theorem BeginsStatement.script {used : List Token} (h : BeginsStatement used) :
    BeginsScript used := by
  obtain ⟨s, more, hs, hmore⟩ := h
  exact ⟨.last s, more, hs, hmore⟩

theorem BeginsScript.skip {used : List Token} (h : BeginsScript used)
    (semicolon : MarkToken .semicolon) : BeginsScript (semicolon.1 :: used) := by
  obtain ⟨d, more, hd, hmore⟩ := h
  exact ⟨.skip semicolon d, more, congrArg (semicolon.1 :: ·) hd, hmore⟩

theorem BeginsScript.statement {used : List Token} (h : BeginsScript used)
    (s : StatementDerivation) (semicolon : MarkToken .semicolon) :
    BeginsScript (s.tokens ++ semicolon.1 :: used) := by
  obtain ⟨d, more, hd, hmore⟩ := h
  refine ⟨.statement s semicolon d, more, ?_, hmore⟩
  rw [ScriptDerivation.tokens, hd, List.append_assoc, List.cons_append]

/-- Where a script misses something, the tokens in front of that begin one. -/
theorem misses_runScript (k : Nat) (tokens : List Token) :
    Misses BeginsScript tokens (runScript (Parser.expr k) tokens) := by
  induction hn : tokens.length using Nat.strongRecOn generalizing tokens with
  | ind n ih =>
    subst hn
    cases tokens with
    | nil =>
      rw [runScript_nil]
      exact .ok _
    | cons t rest =>
      cases ht : t.isMark .semicolon with
      | true =>
        rw [runScript_semicolon ht]
        exact .cons ((ih rest.length (Nat.lt_succ_self _) rest rfl).mono fun used h =>
          h.skip ⟨t, Token.isMark_eq_true_iff.mp ht⟩)
      | false =>
        rw [runScript_statement ht]
        refine ((misses_runStatement t rest).mono fun used h => h.script).bind
          fun s behind hs => ?_
        have hlt := length_runStatement hs
        obtain ⟨d, ending, htokens, hend, -, -⟩ := derived_runStatement hs
        have hmisses := ih behind.length hlt behind rfl
        rw [htokens]
        rcases takeEnd_eq_ok_iff.mp hend with ⟨rfl, rfl⟩ | ⟨semicolon, hsemi, rfl⟩
        · refine ⟨d.tokens ++ [], (List.append_nil _).symm, ?_⟩
          rw [runScript_nil]
          exact .ok _
        · refine ⟨d.tokens ++ [semicolon], by simp, (hmisses.map _).mono fun used h => ?_⟩
          simpa using h.statement d ⟨semicolon, hsemi⟩

/-! ## The place of a failure -/

/-- Tokens that are read as a script, whatever depth that takes. -/
def Accepted (tokens : List Token) : Prop :=
  ∃ (depth : Nat) (stop : Position) (ss : List Statement),
    Script.ofTokens depth ⟨tokens, stop⟩ = .ok ss

theorem accepted_iff {tokens : List Token} :
    Accepted tokens ↔ ∃ d : ScriptDerivation, d.tokens = tokens := by
  constructor
  · rintro ⟨depth, stop, ss, h⟩
    obtain ⟨d, hd, -, -⟩ := ofTokens_eq_ok_iff.mp h
    exact ⟨d, hd⟩
  · rintro ⟨d, hd⟩
    exact ⟨d.nesting, ⟨1, 1⟩, d.statements, ofTokens_eq_ok_iff.mpr ⟨d, hd, Nat.le_refl _, rfl⟩⟩

/-- A failure stands at the first token that cannot stand there, or at the end: the tokens in front
of it are the beginning of a script, and with the token at it behind them, they are that of none. -/
structure FirstWrong (tokens : Tokens) (e : ParseError) (before rest : List Token) : Prop where
  split : tokens.tokens = before ++ rest
  found : ∃ expected, e.fault = .missing expected (rest.head?.map Token.text)
  place : e.position = (rest.head?.map Token.position).getD tokens.stop
  viable : ∃ more, Spelled more ∧ Accepted (before ++ more)
  wrong : ∀ t ∈ rest.head?, ∀ after, ¬Accepted (before ++ t :: after)

theorem exists_firstWrong {depth : Nat} {tokens : Tokens} {e : ParseError}
    (h : Script.ofTokens depth tokens = .error e) (he : e.fault ≠ .nestedTooDeeply) :
    ∃ before rest, FirstWrong tokens e before rest := by
  obtain ⟨expected, before, rest, htokens, rfl, hrun, hmissing⟩ :=
    readStatements_missing (r := .same) h he
  refine ⟨before, rest, htokens, ⟨expected, rfl⟩, rfl, ?_, fun t ht after haccepted => ?_⟩
  · obtain ⟨used, hused, d, more, hd, hmore⟩ :=
      misses_runScript depth tokens.tokens expected rest hrun
    cases List.append_cancel_right (htokens.symm.trans hused)
    exact ⟨more, hmore, accepted_iff.mpr ⟨d, hd⟩⟩
  · -- A script that begins so is read at every depth that is enough, and misses something there.
    obtain ⟨d, hd⟩ := accepted_iff.mp haccepted
    have hread : Script.readStatements (Parser.expr (max depth d.nesting)) tokens.stop d.tokens =
        .ok d.statements := readStatements_tokens d (Nat.le_max_right depth d.nesting)
    have hnext : SameNext .same rest (t :: after) := by
      cases rest with
      | nil => cases ht
      | cons u rest =>
        cases ht
        exact .cons ⟨rfl, rfl, rfl⟩
    rw [hd, hmissing _ tokens.stop before _ (Nat.le_max_left depth d.nesting)
      (Relocation.forall₂_same before) hnext] at hread
    cases hread

/-- More depth does not change where something is missing. -/
theorem ofTokens_eq_error_of_le {depth depth' : Nat} (hle : depth ≤ depth') {tokens : Tokens}
    {e : ParseError} (h : Script.ofTokens depth tokens = .error e)
    (he : e.fault ≠ .nestedTooDeeply) : Script.ofTokens depth' tokens = .error e := by
  obtain ⟨expected, before, rest, htokens, rfl, -, hmissing⟩ :=
    readStatements_missing (r := .same) h he
  rw [Script.ofTokens, htokens]
  exact hmissing _ _ before rest hle (Relocation.forall₂_same before)
    (Relocation.sameNext_of_forall₂ _ (Relocation.forall₂_same rest))

/-- **A failure is at the first token that cannot stand there.** Where tokens are no script, and it
is not that they nest too deeply, the failure is at a token or at the end. The tokens in front of it
and some more that a source can write are a script. Where it is at a token, no script starts with
the tokens up to it. -/
theorem firstWrong_of_error :
    (∀ (depth : Nat) (tokens : Tokens) (e : ParseError), Script.ofTokens depth tokens = .error e →
      e.fault ≠ .nestedTooDeeply → ∃ before rest, FirstWrong tokens e before rest) ∧
    ∀ (source : Text) (name : Datum) (e : ParseError),
      Script.parse source name = .error (.parse e) → e.fault ≠ .nestedTooDeeply →
        ∃ tokens before rest,
          Tokens.scan source = .ok tokens ∧ FirstWrong tokens e before rest := by
  refine ⟨fun depth tokens e => exists_firstWrong, fun source name e h he => ?_⟩
  obtain ⟨tokens, hscan, herror⟩ := parse_eq_error_parse_iff.mp h
  obtain ⟨before, rest, hwrong⟩ := exists_firstWrong herror he
  exact ⟨tokens, before, rest, hscan, hwrong⟩

/-! ### A group that is not closed -/

/-- The parenthesis of `x = (y 1`. -/
def unclosedOpening : Token := ⟨.mark .openParen, Text.of "(", ⟨1, 5⟩⟩

/-- The name in the group of `x = (y 1`. -/
def unclosedName : NameToken := ⟨⟨.identifier, Text.of "y", ⟨1, 6⟩⟩, rfl⟩

/-- The number of `x = (y 1`, where the group should be closed. -/
def unclosedNumber : Token := ⟨.number 1, Text.of "1", ⟨1, 8⟩⟩

/-- The tokens of `x = (y 1`. -/
def unclosedGroup : Tokens where
  tokens := [⟨.identifier, Text.of "x", ⟨1, 1⟩⟩, ⟨.symbol .assign, Text.of "=", ⟨1, 3⟩⟩,
    unclosedOpening, unclosedName.1, unclosedNumber]
  stop := ⟨1, 9⟩

/-- The failure of `x = (y 1`. -/
def groupMissing : ParseError := ⟨.missing .groupEnd (some (Text.of "1")), some ⟨1, 8⟩⟩

theorem ofTokens_unclosedGroup : Script.ofTokens 2 unclosedGroup = .error groupMissing := by
  have hname : (Parser.expr 1).run [unclosedName.1, unclosedNumber] =
      .ok (.var (.text (Text.of "y")) (some ⟨1, 6⟩), [unclosedNumber]) :=
    reads (exprOfPrimary (.name unclosedName) .noSuffix) (Nat.le_refl 1) [unclosedNumber]
      fun t ht => by cases ht; rfl
  have hgroup : runGroup (Parser.expr 1) [unclosedName.1, unclosedNumber] =
      .error (.missing .groupEnd [unclosedNumber]) := by
    rw [runGroup, hname]
    rfl
  have hvalue : (Parser.expr 2).run [unclosedOpening, unclosedName.1, unclosedNumber] =
      .error (.missing .groupEnd [unclosedNumber]) := by
    show ((runGroup (Parser.expr 1) _ >>= _) >>= _) >>= _ = _
    rw [hgroup]
    rfl
  have hrun : runScript (Parser.expr 2) unclosedGroup.tokens =
      .error (.missing .groupEnd [unclosedNumber]) := by
    rw [unclosedGroup, runScript_statement rfl]
    show ((Parser.expr 2).run _ >>= _) >>= _ = _
    rw [hvalue]
    rfl
  rcases readStatements_eq 2 ⟨1, 9⟩ unclosedGroup.tokens with ⟨_, h, -⟩ | ⟨_, _, h, he⟩ | ⟨h, -⟩
  · cases hrun.symm.trans h
  · cases hrun.symm.trans h
    exact he
  · cases hrun.symm.trans h

/-- In `x = (y 1` the failure is at the number: a group that holds a name can still be closed, and
none holds a name and a number. -/
theorem firstWrong_of_error_unclosed :
    (Script.ofTokens 2 unclosedGroup = .error groupMissing ∧
      ∃ before rest, FirstWrong unclosedGroup groupMissing before rest) ∧
    Script.parse (Text.of "x = (y 1") (.text (Text.of "s")) = .error (.parse groupMissing) ∧
      ∃ tokens before rest, Tokens.scan (Text.of "x = (y 1") = .ok tokens ∧
        FirstWrong tokens groupMissing before rest := by
  have hfault : groupMissing.fault ≠ .nestedTooDeeply := nofun
  have hscan : Tokens.scan (Text.of "x = (y 1") = .ok unclosedGroup := by decide +kernel
  have hlimit : 2 ≤ Script.nestingLimit := by
    rw [Script.nestingLimit]
    omega
  have hparse : Script.parse (Text.of "x = (y 1") (.text (Text.of "s")) =
      .error (.parse groupMissing) :=
    parse_eq_error_parse_iff.mpr ⟨unclosedGroup, hscan,
      ofTokens_eq_error_of_le hlimit ofTokens_unclosedGroup hfault⟩
  exact ⟨⟨ofTokens_unclosedGroup, firstWrong_of_error.1 2 _ _ ofTokens_unclosedGroup hfault⟩,
    hparse, firstWrong_of_error.2 _ _ _ hparse hfault⟩

end ScalarScript.Grammar
