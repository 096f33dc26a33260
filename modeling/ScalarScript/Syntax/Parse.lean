import ScalarScript.Syntax.Parser

/-!
# Reading scripts

Model of `parse_script`, `parse_expression` and `_parse_statement`, with `_expect_operator` and
`_end_statement`.

    script    := statement*
    statement := ('let' | 'const') NAME '=' expr ';'
               | NAME '=' expr ';'
               | NAME '[' expr ']' '=' expr ';'
               | 'print' '(' expr ')' ';'
               | expr ';'

The alternatives are tried in this order: `print` with a parenthesis behind it is always a print
statement, and a name with an index and a sign of assignment behind it an assignment. Only where
that sign is missing are the tokens read again as an expression. Bare semicolons may stand between
statements, and the last statement may go without.

* `Script.parse` reads a source, `Expr.parse` a single expression.
* A failure is placed at the token where something else was expected, or at the end; nesting that
  is too deep at the first token of its statement.

Results: `takeAssign_eq_ok_iff` to `runIndexAssign?_eq_some_iff` (what a reader accepts);
`length_runStatement` (a statement takes at least one token).
-/

namespace ScalarScript

namespace Parser

open Except (bind_eq_ok_iff pure_eq_ok_iff)

/-- Takes a sign of assignment (`_expect_operator`). -/
def takeAssign : List Token → Except Halt (List Token)
  | [] => .error (.missing .assignment [])
  | t :: rest =>
    if t.isSymbol .assign then .ok rest else .error (.missing .assignment (t :: rest))

/-- Takes the end of a statement (`_end_statement`): a semicolon, or nothing at the end of the
script. -/
def takeEnd : List Token → Except Halt (List Token)
  | [] => .ok []
  | t :: rest => takeMark .semicolon .statementEnd (t :: rest)

/-- A declaration, its keyword taken already. -/
def runDeclaration (expr : Parser Expr) (keyword : Keyword)
    (build : Datum → Expr → Statement) (tokens : List Token) :
    Except Halt (Statement × List Token) := do
  let (name, rest) ← takeName (.variableName keyword) tokens
  let (value, rest) ← expr.run (← takeAssign rest)
  return (build (.text name.text) value, ← takeEnd rest)

/-- A print statement, its opening parenthesis taken already. -/
def runPrint (expr : Parser Expr) (pos : Position) (tokens : List Token) :
    Except Halt (Statement × List Token) := do
  let (value, rest) ← expr.run tokens
  let rest ← takeMark .closeParen .printEnd rest
  return (.print value pos, ← takeEnd rest)

/-- An assignment of what the tokens write. -/
def runAssign (expr : Parser Expr) (build : Expr → Statement) (tokens : List Token) :
    Except Halt (Statement × List Token) := do
  let (value, rest) ← expr.run tokens
  return (build value, ← takeEnd rest)

/-- What follows the bracket behind a name, if it is an indexed assignment. -/
def runIndexAssign? (expr : Parser Expr) (name : Token) (tokens : List Token) :
    Except Halt (Option (Statement × List Token)) := do
  let (i, rest) ← runIndex expr tokens
  match rest with
  | [] => return none
  | t :: rest =>
    if t.isSymbol .assign then
      return some (← runAssign expr (.indexAssign (.text name.text) i · name.position) rest)
    else return none

/-- An expression as a statement. -/
def runExpression (expr : Parser Expr) (first : Token) (rest : List Token) :
    Except Halt (Statement × List Token) :=
  runAssign expr (.expression · first.position) (first :: rest)

/-- A statement that starts with a name. -/
def runNamed (expr : Parser Expr) (name : Token) : List Token →
    Except Halt (Statement × List Token)
  | [] => runExpression expr name []
  | t :: rest =>
    if name.text = Text.of "print" ∧ t.isMark .openParen then runPrint expr name.position rest
    else if t.isSymbol .assign then
      runAssign expr (.assign (.text name.text) · name.position) rest
    else if t.isMark .openBracket then
      match runIndexAssign? expr name rest with
      | .error halt => .error halt
      | .ok (some r) => .ok r
      | .ok none => runExpression expr name (t :: rest)
    else runExpression expr name (t :: rest)

/-- A statement, from its first token on (`_parse_statement`). -/
def runStatement (expr : Parser Expr) (first : Token) (rest : List Token) :
    Except Halt (Statement × List Token) :=
  match first.kind with
  | .keyword .let_ => runDeclaration expr .let_ (.declare · · first.position) rest
  | .keyword .const => runDeclaration expr .const (.constant · · first.position) rest
  | .identifier => runNamed expr first rest
  | _ => runExpression expr first rest

section Lengths

variable {expr : Parser Expr} {build : Expr → Statement} {s : Statement}
  {tokens rest : List Token}

theorem takeAssign_eq_ok_iff :
    takeAssign tokens = .ok rest ↔ ∃ t, t.kind = .symbol .assign ∧ tokens = t :: rest := by
  cases tokens with
  | nil => simp [takeAssign]
  | cons t ts =>
    rw [takeAssign]
    by_cases ht : t.kind = .symbol .assign
    · rw [if_pos (Token.isSymbol_eq_true_iff.mpr ht)]
      constructor
      · intro h
        exact ⟨t, ht, congrArg _ (Except.ok.inj h)⟩
      · rintro ⟨_, -, h⟩
        cases h
        rfl
    · rw [if_neg (by simpa using ht)]
      constructor
      · intro h
        cases h
      · rintro ⟨_, hk, h⟩
        cases h
        exact absurd hk ht

theorem takeEnd_eq_ok_iff :
    takeEnd tokens = .ok rest ↔
      tokens = [] ∧ rest = [] ∨ ∃ t, t.kind = .mark .semicolon ∧ tokens = t :: rest := by
  cases tokens with
  | nil => simp [takeEnd, eq_comm]
  | cons t ts =>
    rw [takeEnd, takeMark_eq_ok_iff]
    simp

theorem length_takeEnd (h : takeEnd tokens = .ok rest) : rest.length ≤ tokens.length := by
  rcases takeEnd_eq_ok_iff.mp h with ⟨rfl, rfl⟩ | ⟨_, -, rfl⟩
  · exact Nat.le_refl _
  · simp

theorem runAssign_eq_ok_iff :
    runAssign expr build tokens = .ok (s, rest) ↔
      ∃ e ending, expr.run tokens = .ok (e, ending) ∧ takeEnd ending = .ok rest ∧ s = build e := by
  simp only [runAssign, bind_eq_ok_iff, pure_eq_ok_iff, Prod.exists, Prod.mk.injEq]
  constructor
  · rintro ⟨e, ending, he, rest, hend, rfl, rfl⟩
    exact ⟨e, ending, he, hend, rfl⟩
  · rintro ⟨e, ending, he, hend, rfl⟩
    exact ⟨e, ending, he, rest, hend, rfl, rfl⟩

theorem length_runAssign (h : runAssign expr build tokens = .ok (s, rest)) :
    rest.length < tokens.length := by
  obtain ⟨e, ending, he, hend, -⟩ := runAssign_eq_ok_iff.mp h
  have := expr.progress he
  have := length_takeEnd hend
  omega

theorem runDeclaration_eq_ok_iff {keyword : Keyword} {build : Datum → Expr → Statement} :
    runDeclaration expr keyword build tokens = .ok (s, rest) ↔
      ∃ n sign behind e ending, n.kind = .identifier ∧ sign.kind = .symbol .assign ∧
        tokens = n :: sign :: behind ∧ expr.run behind = .ok (e, ending) ∧
        takeEnd ending = .ok rest ∧ s = build (.text n.text) e := by
  simp only [runDeclaration, bind_eq_ok_iff, pure_eq_ok_iff, takeName_eq_ok_iff,
    takeAssign_eq_ok_iff, Prod.exists, Prod.mk.injEq]
  constructor
  · rintro ⟨n, _, ⟨hn, rfl⟩, behind, ⟨sign, hs, rfl⟩, e, ending, he, rest, hend, rfl, rfl⟩
    exact ⟨n, sign, behind, e, ending, hn, hs, rfl, he, hend, rfl⟩
  · rintro ⟨n, sign, behind, e, ending, hn, hs, rfl, he, hend, rfl⟩
    exact ⟨n, _, ⟨hn, rfl⟩, behind, ⟨sign, hs, rfl⟩, e, ending, he, rest, hend, rfl, rfl⟩

theorem length_runDeclaration {keyword : Keyword} {build : Datum → Expr → Statement}
    (h : runDeclaration expr keyword build tokens = .ok (s, rest)) :
    rest.length < tokens.length := by
  obtain ⟨n, sign, behind, e, ending, -, -, rfl, he, hend, -⟩ := runDeclaration_eq_ok_iff.mp h
  have := expr.progress he
  have := length_takeEnd hend
  simp only [List.length_cons]
  omega

theorem runPrint_eq_ok_iff {pos : Position} :
    runPrint expr pos tokens = .ok (s, rest) ↔
      ∃ e closing ending, closing.kind = .mark .closeParen ∧
        expr.run tokens = .ok (e, closing :: ending) ∧ takeEnd ending = .ok rest ∧
        s = .print e pos := by
  simp only [runPrint, bind_eq_ok_iff, pure_eq_ok_iff, takeMark_eq_ok_iff, Prod.exists,
    Prod.mk.injEq]
  constructor
  · rintro ⟨e, _, he, ending, ⟨closing, hc, rfl⟩, rest, hend, rfl, rfl⟩
    exact ⟨e, closing, ending, hc, he, hend, rfl⟩
  · rintro ⟨e, closing, ending, hc, he, hend, rfl⟩
    exact ⟨e, _, he, ending, ⟨closing, hc, rfl⟩, rest, hend, rfl, rfl⟩

theorem length_runPrint {pos : Position} (h : runPrint expr pos tokens = .ok (s, rest)) :
    rest.length < tokens.length := by
  obtain ⟨e, closing, ending, -, he, hend, -⟩ := runPrint_eq_ok_iff.mp h
  have := expr.progress he
  have := length_takeEnd hend
  simp only [List.length_cons] at *
  omega

theorem runIndexAssign?_eq_some_iff {n : Token} :
    runIndexAssign? expr n tokens = .ok (some (s, rest)) ↔
      ∃ i sign behind, sign.kind = .symbol .assign ∧
        runIndex expr tokens = .ok (i, sign :: behind) ∧
        runAssign expr (.indexAssign (.text n.text) i · n.position) behind = .ok (s, rest) := by
  simp only [runIndexAssign?, bind_eq_ok_iff, Prod.exists]
  constructor
  · rintro ⟨i, behind, hi, h⟩
    cases behind with
    | nil => cases h
    | cons t ts =>
      simp only at h
      split at h
      · next ht =>
        obtain ⟨⟨s, rest⟩, ha, he⟩ := bind_eq_ok_iff.mp h
        cases he
        exact ⟨i, t, ts, Token.isSymbol_eq_true_iff.mp ht, hi, ha⟩
      · cases h
  · rintro ⟨i, sign, behind, hs, hi, ha⟩
    refine ⟨i, sign :: behind, hi, ?_⟩
    simp only
    rw [if_pos (Token.isSymbol_eq_true_iff.mpr hs), ha]
    rfl

theorem length_runIndexAssign? {n : Token}
    (h : runIndexAssign? expr n tokens = .ok (some (s, rest))) : rest.length < tokens.length := by
  obtain ⟨i, sign, behind, -, hi, ha⟩ := runIndexAssign?_eq_some_iff.mp h
  have := length_runIndex hi
  have := length_runAssign ha
  simp only [List.length_cons] at *
  omega

theorem length_runNamed {n : Token} (h : runNamed expr n tokens = .ok (s, rest)) :
    rest.length < tokens.length + 1 := by
  cases tokens with
  | nil =>
    rw [runNamed] at h
    exact length_runAssign h
  | cons t ts =>
    rw [runNamed] at h
    split at h
    · have := length_runPrint h
      simp only [List.length_cons]
      omega
    · split at h
      · have := length_runAssign h
        simp only [List.length_cons]
        omega
      · split at h
        · split at h
          · cases h
          · next r hr =>
            cases h
            have := length_runIndexAssign? hr
            simp only [List.length_cons]
            omega
          · exact length_runAssign h
        · exact length_runAssign h

theorem length_runStatement {first : Token} (h : runStatement expr first tokens = .ok (s, rest)) :
    rest.length < (first :: tokens).length := by
  simp only [List.length_cons]
  unfold runStatement at h
  split at h
  · have := length_runDeclaration h
    omega
  · have := length_runDeclaration h
    omega
  · exact length_runNamed h
  · exact length_runAssign h

end Lengths

end Parser

namespace Halt

/-- A halt as a failure of the statement or expression that starts at `start`, in a source that
ends at `stop`. -/
def toError (start stop : Position) : Halt → ParseError
  | .missing expected rest =>
    ⟨.missing expected (rest.head?.map Token.text), (rest.head?.map Token.position).getD stop⟩
  | .tooDeep => ⟨.nestedTooDeeply, start⟩

end Halt

namespace Script

/-- The statements that tokens write, where the source ends at `stop`. -/
def readStatements (expr : Parser Expr) (stop : Position) (tokens : List Token) :
    Except ParseError (List Statement) :=
  match tokens with
  | [] => .ok []
  | t :: rest =>
    if t.isMark .semicolon then readStatements expr stop rest
    else match h : Parser.runStatement expr t rest with
      | .error halt => .error (halt.toError t.position stop)
      | .ok (s, behind) =>
        have : behind.length < rest.length + 1 := Parser.length_runStatement h
        (readStatements expr stop behind).map (s :: ·)
termination_by tokens.length

/-- How deep expressions of a source may nest. -/
def nestingLimit : Nat := 1000

/-- The statements of scanned tokens, nested to at most `depth` levels. -/
def ofTokens (depth : Nat) (tokens : Tokens) : Except ParseError (List Statement) :=
  readStatements (Parser.expr depth) tokens.stop tokens.tokens

/-- The script that a source writes (`parse_script`). -/
def parse (source : Text) (name : Datum) : Except SourceError Script := do
  let tokens ← (Tokens.scan source).mapError .lex
  let statements ← (ofTokens nestingLimit tokens).mapError .parse
  return ⟨statements, name⟩

end Script

namespace Expr

/-- The one expression of scanned tokens, nested to at most `depth` levels. -/
def ofTokens (depth : Nat) (tokens : Tokens) : Except ParseError Expr :=
  match (Parser.expr depth).run tokens.tokens with
  | .error halt =>
    let start := (tokens.tokens.head?.map Token.position).getD tokens.stop
    .error (halt.toError start tokens.stop)
  | .ok (e, []) => .ok e
  | .ok (_, t :: _) => .error ⟨.trailing t.text, t.position⟩

/-- The expression that a source writes (`parse_expression`). -/
def parse (source : Text) : Except SourceError Expr := do
  let tokens ← (Tokens.scan source).mapError .lex
  (ofTokens Script.nestingLimit tokens).mapError .parse

end Expr

end ScalarScript
