import ScalarScript.Except
import ScalarScript.Syntax.ParseError
import ScalarScript.Syntax.Script

/-!
# Reading expressions

Model of `parse_expression_tokens`, `_parse_additive`, `_parse_unary`, `_parse_postfix`,
`_parse_primary` and `_parse_arguments`.

An expression is read by descent over the tokens:

    expr     := additive (COMPARE additive)?
    additive := unary (('+' | '-') unary)*
    unary    := ('-' | '!') unary | postfix
    postfix  := primary ('.' NAME '(' args? ')' | '[' expr ']')*
    primary  := STRING | CHAR | NUMBER | 'true' | 'false'
              | NAME '(' args? ')' | NAME | '(' expr ')'
    args     := expr (',' expr)*

* A `Parser` takes tokens off the front and always takes at least one; the proof of that is part of
  it, so that chains are read by recursion on the tokens.
* Only what nests costs depth: a group, an operand of a unary operator, an argument, an index.
  `Parser.unary` counts it down; chains of operators and calls may be of any length.
* A `Halt` is what stops a parser: the tokens at which something else was expected, or the end of
  the depth.

Results: `takeMark_eq_ok_iff` to `runOperand_eq_ok_iff` (what a reader accepts); `Parser.progress`
of every parser; `unary_succ`.
-/

namespace ScalarScript

/-- What stops a parser. -/
inductive Halt where
  | missing (expected : Expected) (rest : List Token)
  | tooDeep
deriving DecidableEq

/-- A reader of tokens, which takes at least one where it succeeds. -/
structure Parser (α : Type) where
  run : List Token → Except Halt (α × List Token)
  progress : ∀ {tokens a rest}, run tokens = .ok (a, rest) → rest.length < tokens.length

namespace Token

def isMark (t : Token) (m : Mark) : Bool := t.kind == .mark m

def isSymbol (t : Token) (s : Symbol) : Bool := t.kind == .symbol s

@[simp] theorem isMark_eq_true_iff {t : Token} {m : Mark} : t.isMark m = true ↔ t.kind = .mark m :=
  beq_iff_eq

@[simp] theorem isMark_eq_false_iff {t : Token} {m : Mark} :
    t.isMark m = false ↔ t.kind ≠ .mark m :=
  beq_eq_false_iff_ne

@[simp] theorem isSymbol_eq_true_iff {t : Token} {s : Symbol} :
    t.isSymbol s = true ↔ t.kind = .symbol s :=
  beq_iff_eq

/-- The additive operator a token stands for (`_ADDITIVE_MAP`). -/
def additive? (t : Token) : Option BinaryOperator :=
  match t.kind with
  | .symbol .plus => some .add
  | .symbol .minus => some .subtract
  | _ => none

/-- The comparison a token stands for (`_COMPARISON_MAP`). -/
def comparison? (t : Token) : Option Comparison :=
  match t.kind with
  | .symbol .equal => some .equal
  | .symbol .notEqual => some .notEqual
  | .symbol .less => some .less
  | .symbol .greater => some .greater
  | .symbol .lessEqual => some .lessEqual
  | .symbol .greaterEqual => some .greaterEqual
  | _ => none

/-- The unary operator a token stands for (`_UNARY_MAP`). -/
def unary? (t : Token) : Option UnaryOperator :=
  match t.kind with
  | .symbol .minus => some .negate
  | .symbol .not => some .not
  | _ => none

/-- The leaf a literal token stands for. -/
def literal? (t : Token) : Option Expr :=
  match t.kind with
  | .string s => some (.string s t.position)
  | .char c => some (.char (.int c.toNat) t.position)
  | .number n => some (.int (.int n) t.position)
  | .keyword .true_ => some (.bool (.bool true) t.position)
  | .keyword .false_ => some (.bool (.bool false) t.position)
  | _ => none

end Token

namespace Parser

open Except (bind_eq_ok_iff map_eq_ok_iff pure_eq_ok_iff)

/-- Takes a mark (`_expect`). -/
def takeMark (m : Mark) (expected : Expected) : List Token → Except Halt (List Token)
  | [] => .error (.missing expected [])
  | t :: rest => if t.isMark m then .ok rest else .error (.missing expected (t :: rest))

/-- Takes a name. -/
def takeName (expected : Expected) : List Token → Except Halt (Token × List Token)
  | [] => .error (.missing expected [])
  | t :: rest =>
    if t.kind = .identifier then .ok (t, rest) else .error (.missing expected (t :: rest))

theorem takeMark_eq_ok_iff {m : Mark} {expected : Expected} {tokens rest : List Token} :
    takeMark m expected tokens = .ok rest ↔ ∃ t, t.kind = .mark m ∧ tokens = t :: rest := by
  cases tokens with
  | nil => simp [takeMark]
  | cons t ts =>
    rw [takeMark]
    by_cases ht : t.kind = .mark m
    · rw [if_pos (Token.isMark_eq_true_iff.mpr ht)]
      constructor
      · intro h
        exact ⟨t, ht, congrArg _ (Except.ok.inj h)⟩
      · rintro ⟨_, -, h⟩
        cases h
        rfl
    · rw [if_neg (by simpa using ht)]
      constructor
      · intro h
        cases h
      · rintro ⟨_, hk, h⟩
        cases h
        exact absurd hk ht

theorem takeName_eq_ok_iff {expected : Expected} {tokens rest : List Token} {t : Token} :
    takeName expected tokens = .ok (t, rest) ↔ t.kind = .identifier ∧ tokens = t :: rest := by
  cases tokens with
  | nil => simp [takeName]
  | cons u ts =>
    rw [takeName]
    split
    · next h =>
      simp only [Except.ok.injEq, Prod.mk.injEq, List.cons.injEq]
      exact ⟨fun ⟨e, f⟩ => ⟨e ▸ h, e, f⟩, fun ⟨_, e⟩ => e⟩
    · next h =>
      simp only [reduceCtorEq, List.cons.injEq, false_iff]
      rintro ⟨ht, rfl, -⟩
      exact h ht

/-- The arguments of a call, from the first one on, to the closing parenthesis
(`_parse_arguments`). -/
def runArguments (expr : Parser Expr) (name : Text) (tokens : List Token) :
    Except Halt (List Expr × List Token) :=
  match h : expr.run tokens with
  | .error halt => .error halt
  | .ok (e, []) => (takeMark .closeParen (.callEnd name) []).map ([e], ·)
  | .ok (e, t :: rest) =>
    if t.isMark .comma then
      have : rest.length < tokens.length := by
        have := expr.progress h
        simp only [List.length_cons] at this
        omega
      (runArguments expr name rest).map fun r => (e :: r.1, r.2)
    else (takeMark .closeParen (.callEnd name) (t :: rest)).map ([e], ·)
termination_by tokens.length

/-- What stands between the parentheses of a call, the opening one taken already. -/
def runCall (expr : Parser Expr) (name : Text) : List Token → Except Halt (List Expr × List Token)
  | [] => runArguments expr name []
  | t :: rest =>
    if t.isMark .closeParen then .ok ([], rest) else runArguments expr name (t :: rest)

/-- The variable or call that a name starts, the name taken already. -/
def runName (expr : Parser Expr) (name : Token) : List Token → Except Halt (Expr × List Token)
  | [] => .ok (.var (.text name.text) name.position, [])
  | t :: rest =>
    if t.isMark .openParen then
      (runCall expr name.text rest).map fun r => (.call (.text name.text) r.1 name.position, r.2)
    else .ok (.var (.text name.text) name.position, t :: rest)

/-- A group, the opening parenthesis taken already. -/
def runGroup (expr : Parser Expr) (tokens : List Token) : Except Halt (Expr × List Token) := do
  let (e, rest) ← expr.run tokens
  return (e, ← takeMark .closeParen .groupEnd rest)

/-- A literal, a variable, a call, or a group (`_parse_primary`). -/
def runPrimary (expr : Parser Expr) : List Token → Except Halt (Expr × List Token)
  | [] => .error (.missing .expression [])
  | t :: rest =>
    match t.literal? with
    | some e => .ok (e, rest)
    | none =>
      if t.kind = .identifier then runName expr t rest
      else if t.isMark .openParen then runGroup expr rest
      else .error (.missing .expression (t :: rest))

/-- The name and arguments of a method call, the dot taken already. -/
def runMethod (expr : Parser Expr) (target : Expr) (tokens : List Token) :
    Except Halt (Expr × List Token) := do
  let (name, rest) ← takeName .methodName tokens
  let rest ← takeMark .openParen (.methodArguments name.text) rest
  let (arguments, rest) ← runCall expr name.text rest
  return (.method target (.text name.text) arguments name.position, rest)

/-- The index in brackets, the opening one taken already. -/
def runIndex (expr : Parser Expr) (tokens : List Token) : Except Halt (Expr × List Token) := do
  let (i, rest) ← expr.run tokens
  return (i, ← takeMark .closeBracket .indexEnd rest)

section Lengths

variable {expr : Parser Expr} {name : Text} {tokens rest : List Token} {e : Expr}

theorem length_runArguments {es : List Expr} (h : runArguments expr name tokens = .ok (es, rest)) :
    rest.length < tokens.length := by
  fun_induction runArguments expr name tokens generalizing es rest with
  | case1 => cases h
  | case2 => simp [takeMark, Except.map] at h
  | case3 tokens e t behind hr hc hlt ih =>
    obtain ⟨others, ho, he⟩ := map_eq_ok_iff.mp h
    cases he
    have := ih ho
    omega
  | case4 tokens e t behind hr hc =>
    obtain ⟨_, ht, he⟩ := map_eq_ok_iff.mp h
    cases he
    obtain ⟨_, -, hts⟩ := takeMark_eq_ok_iff.mp ht
    cases hts
    have := expr.progress hr
    simp only [List.length_cons] at this
    omega

theorem length_runCall {es : List Expr} (h : runCall expr name tokens = .ok (es, rest)) :
    rest.length < tokens.length := by
  cases tokens with
  | nil => exact length_runArguments h
  | cons t ts =>
    rw [runCall] at h
    split at h
    · cases h
      simp
    · exact length_runArguments h

theorem length_runName {n : Token} (h : runName expr n tokens = .ok (e, rest)) :
    rest.length ≤ tokens.length := by
  cases tokens with
  | nil => cases h; simp
  | cons t ts =>
    rw [runName] at h
    split at h
    · obtain ⟨r, hc, he⟩ := map_eq_ok_iff.mp h
      cases he
      have := length_runCall hc
      simp only [List.length_cons]
      omega
    · cases h
      simp

theorem runGroup_eq_ok_iff :
    runGroup expr tokens = .ok (e, rest) ↔
      ∃ closing, closing.kind = .mark .closeParen ∧
        expr.run tokens = .ok (e, closing :: rest) := by
  simp only [runGroup, bind_eq_ok_iff, pure_eq_ok_iff, takeMark_eq_ok_iff, Prod.exists,
    Prod.mk.injEq]
  constructor
  · rintro ⟨e, _, he, rest, ⟨closing, hc, rfl⟩, rfl, rfl⟩
    exact ⟨closing, hc, he⟩
  · rintro ⟨closing, hc, he⟩
    exact ⟨e, _, he, rest, ⟨closing, hc, rfl⟩, rfl, rfl⟩

theorem length_runGroup (h : runGroup expr tokens = .ok (e, rest)) :
    rest.length < tokens.length := by
  obtain ⟨closing, -, he⟩ := runGroup_eq_ok_iff.mp h
  have := expr.progress he
  simp only [List.length_cons] at this
  omega

theorem length_runPrimary (h : runPrimary expr tokens = .ok (e, rest)) :
    rest.length < tokens.length := by
  cases tokens with
  | nil => cases h
  | cons t ts =>
    rw [runPrimary] at h
    simp only [List.length_cons]
    split at h
    · cases h
      omega
    · split at h
      · have := length_runName h
        omega
      · split at h
        · have := length_runGroup h
          omega
        · cases h

theorem runMethod_eq_ok_iff {target : Expr} :
    runMethod expr target tokens = .ok (e, rest) ↔
      ∃ n opening args behind, n.kind = .identifier ∧ opening.kind = .mark .openParen ∧
        tokens = n :: opening :: behind ∧ runCall expr n.text behind = .ok (args, rest) ∧
        e = .method target (.text n.text) args n.position := by
  simp only [runMethod, bind_eq_ok_iff, pure_eq_ok_iff, takeMark_eq_ok_iff, takeName_eq_ok_iff,
    Prod.exists, Prod.mk.injEq]
  constructor
  · rintro ⟨n, _, ⟨hn, rfl⟩, behind, ⟨opening, ho, rfl⟩, args, rest, hc, rfl, rfl⟩
    exact ⟨n, opening, args, behind, hn, ho, rfl, hc, rfl⟩
  · rintro ⟨n, opening, args, behind, hn, ho, rfl, hc, rfl⟩
    exact ⟨n, _, ⟨hn, rfl⟩, behind, ⟨opening, ho, rfl⟩, args, rest, hc, rfl, rfl⟩

theorem length_runMethod {target : Expr} (h : runMethod expr target tokens = .ok (e, rest)) :
    rest.length < tokens.length := by
  obtain ⟨n, opening, args, behind, -, -, rfl, hc, -⟩ := runMethod_eq_ok_iff.mp h
  have := length_runCall hc
  simp only [List.length_cons]
  omega

theorem runIndex_eq_ok_iff :
    runIndex expr tokens = .ok (e, rest) ↔
      ∃ closing, closing.kind = .mark .closeBracket ∧
        expr.run tokens = .ok (e, closing :: rest) := by
  simp only [runIndex, bind_eq_ok_iff, pure_eq_ok_iff, takeMark_eq_ok_iff, Prod.exists,
    Prod.mk.injEq]
  constructor
  · rintro ⟨e, _, he, rest, ⟨closing, hc, rfl⟩, rfl, rfl⟩
    exact ⟨closing, hc, he⟩
  · rintro ⟨closing, hc, he⟩
    exact ⟨e, _, he, rest, ⟨closing, hc, rfl⟩, rfl, rfl⟩

theorem length_runIndex (h : runIndex expr tokens = .ok (e, rest)) :
    rest.length < tokens.length := by
  obtain ⟨closing, -, hi⟩ := runIndex_eq_ok_iff.mp h
  have := expr.progress hi
  simp only [List.length_cons] at this
  omega

end Lengths

/-- The method calls and indexes that follow an expression (`_parse_postfix`). -/
def runPostfix (expr : Parser Expr) (e : Expr) (tokens : List Token) :
    Except Halt (Expr × List Token) :=
  match tokens with
  | [] => .ok (e, [])
  | t :: rest =>
    if t.isMark .dot then
      match h : runMethod expr e rest with
      | .error halt => .error halt
      | .ok (e, behind) =>
        have : behind.length < rest.length + 1 := by
          have := length_runMethod h
          omega
        runPostfix expr e behind
    else if t.isMark .openBracket then
      match h : runIndex expr rest with
      | .error halt => .error halt
      | .ok (i, behind) =>
        have : behind.length < rest.length + 1 := by
          have := length_runIndex h
          omega
        runPostfix expr (.index e i t.position) behind
    else .ok (e, t :: rest)
termination_by tokens.length

/-- The operands that follow a left one in a chain of additive operators (`_parse_additive`). -/
def runAdditive (operand : Parser Expr) (left : Expr) (tokens : List Token) :
    Except Halt (Expr × List Token) :=
  match tokens with
  | [] => .ok (left, [])
  | t :: rest =>
    match t.additive? with
    | none => .ok (left, t :: rest)
    | some op =>
      match h : operand.run rest with
      | .error halt => .error halt
      | .ok (right, behind) =>
        have : behind.length < rest.length + 1 := by
          have := operand.progress h
          omega
        runAdditive operand (.binary op left right t.position) behind
termination_by tokens.length

theorem length_runPostfix {expr : Parser Expr} {e f : Expr} {tokens rest : List Token}
    (h : runPostfix expr e tokens = .ok (f, rest)) : rest.length ≤ tokens.length := by
  fun_induction runPostfix expr e tokens with
  | case1 => cases h; simp
  | case2 => cases h
  | case3 e t behind ht f' r hr hlt ih =>
    have := ih h
    simp only [List.length_cons]
    omega
  | case4 => cases h
  | case5 e t behind ht hb i r hr hlt ih =>
    have := ih h
    simp only [List.length_cons]
    omega
  | case6 => cases h; simp

theorem length_runAdditive {operand : Parser Expr} {left e : Expr} {tokens rest : List Token}
    (h : runAdditive operand left tokens = .ok (e, rest)) : rest.length ≤ tokens.length := by
  fun_induction runAdditive operand left tokens with
  | case1 => cases h; simp
  | case2 => cases h; simp
  | case3 => cases h
  | case4 left t behind op hop right r hr hlt ih =>
    have := ih h
    simp only [List.length_cons]
    omega

/-- A primary and what follows it. -/
def runOperand (expr : Parser Expr) (tokens : List Token) : Except Halt (Expr × List Token) := do
  let (e, rest) ← runPrimary expr tokens
  runPostfix expr e rest

theorem runOperand_eq_ok_iff {expr : Parser Expr} {e : Expr} {tokens rest : List Token} :
    runOperand expr tokens = .ok (e, rest) ↔
      ∃ head behind, runPrimary expr tokens = .ok (head, behind) ∧
        runPostfix expr head behind = .ok (e, rest) := by
  simp only [runOperand, bind_eq_ok_iff, Prod.exists]

theorem length_runOperand {expr : Parser Expr} {e : Expr} {tokens rest : List Token}
    (h : runOperand expr tokens = .ok (e, rest)) : rest.length < tokens.length := by
  obtain ⟨head, behind, hp, hs⟩ := runOperand_eq_ok_iff.mp h
  have := length_runPrimary hp
  have := length_runPostfix hs
  omega

/-- A chain of additive operators. -/
def additive (operand : Parser Expr) : Parser Expr where
  run tokens := do
    let (left, rest) ← operand.run tokens
    runAdditive operand left rest
  progress {tokens e rest} h := by
    simp only [bind_eq_ok_iff, Prod.exists] at h
    obtain ⟨left, behind, ho, hs⟩ := h
    have := operand.progress ho
    have := length_runAdditive hs
    omega

/-- The comparison that may follow a left operand. -/
def runComparison (operand : Parser Expr) (left : Expr) :
    List Token → Except Halt (Expr × List Token)
  | [] => .ok (left, [])
  | t :: rest =>
    match t.comparison? with
    | none => .ok (left, t :: rest)
    | some c => (operand.run rest).map fun r => (.binary (.compare c) left r.1 t.position, r.2)

theorem length_runComparison {operand : Parser Expr} {left e : Expr} {tokens rest : List Token}
    (h : runComparison operand left tokens = .ok (e, rest)) : rest.length ≤ tokens.length := by
  cases tokens with
  | nil => cases h; simp
  | cons t ts =>
    rw [runComparison] at h
    split at h
    · cases h
      simp
    · obtain ⟨r, hr, he⟩ := map_eq_ok_iff.mp h
      cases he
      have := operand.progress hr
      simp only [List.length_cons]
      omega

/-- At most one comparison between two chains. -/
def comparison (operand : Parser Expr) : Parser Expr where
  run tokens := do
    let (left, rest) ← operand.run tokens
    runComparison operand left rest
  progress {tokens e rest} h := by
    simp only [bind_eq_ok_iff, Prod.exists] at h
    obtain ⟨left, behind, ho, hc⟩ := h
    have := operand.progress ho
    have := length_runComparison hc
    omega

/-- An expression whose unary operands a given parser reads. -/
def expression (unary : Parser Expr) : Parser Expr := comparison (additive unary)

/-- One more level of nesting: unary operators before a primary and what follows it. -/
def level (unary : Parser Expr) : Parser Expr where
  run
    | [] => runOperand (expression unary) []
    | t :: rest =>
      match t.unary? with
      | some op => (unary.run rest).map fun r => (.unary op r.1 t.position, r.2)
      | none => runOperand (expression unary) (t :: rest)
  progress {tokens e rest} h := by
    split at h
    · exact length_runOperand h
    · next t behind =>
      split at h
      · obtain ⟨r, hu, he⟩ := map_eq_ok_iff.mp h
        cases he
        have := unary.progress hu
        simp only [List.length_cons]
        omega
      · exact length_runOperand h

/-- Where the depth ends, nothing can be read. -/
def exhausted : Parser Expr where
  run _ := .error .tooDeep
  progress h := by cases h

/-- An operand with its unary operators, nested to at most `depth` levels (`_parse_unary`). -/
def unary : (depth : Nat) → Parser Expr
  | 0 => exhausted
  | depth + 1 => level (unary depth)

/-- An expression nested to at most `depth` levels (`parse_expression_tokens`). -/
def expr (depth : Nat) : Parser Expr := expression (unary depth)

theorem unary_succ (depth : Nat) : unary (depth + 1) = level (unary depth) := rfl

end Parser

end ScalarScript
