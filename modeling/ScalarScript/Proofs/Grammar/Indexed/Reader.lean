import ScalarScript.Syntax.Parse

/-!
# Reading by index

Model of `parse_script` and `parse_expression`, from `_parse_statement` to `_parse_primary`, with
the index `pos` that they hand on.

The parser once more, as it works on an index into the tokens: it looks up the token at an index,
or at the one or two behind it, and hands the index on. Nothing in its definition keeps an index
within the tokens, and nothing makes its loops and its nesting end: a look outside is a
`Trap.outside`, and after the `steps` that it may take in each loop and in nesting, reading that has
not ended is `endless`. What reading comes to whatever more steps it may take is what it comes to.

* `Tokens.items`: the tokens of a source with the end behind them.
* `Reading`: what reading comes to: a result, a `Trap`, or nothing where it has not ended.
* `moreArguments` to `expression`, `statement`, `statements`: the readers, with `room` for so many
  levels of nesting, or with no limit to it.
* `script`, `loneExpression`: whole sources.
-/

namespace ScalarScript

/-- The tokens of a source and, behind them, the end. -/
def Tokens.items (ts : Tokens) : List (Option Token) := ts.tokens.map some ++ [none]

/-- The place of a token or of the end. -/
def Tokens.placeOf (ts : Tokens) (item : Option Token) : Position :=
  (item.map Token.position).getD ts.stop

namespace Indexed

/-- What ends reading early: a look outside the tokens, tokens that form no script, or the end of
the room for nesting. -/
inductive Trap where
  | outside (index : Nat)
  | failed (e : ParseError)
  | tooDeep

/-- What reading comes to, if it ends. -/
abbrev Reading (α : Type) := ExceptT Trap Option α

/-- Reading that has not ended. -/
def endless {α : Type} : Reading α := ExceptT.mk none

/-! ## Single tokens -/

section Single

variable (ts : Tokens)

/-- The token at an index, or the end. -/
def look (i : Nat) : Reading (Option Token) :=
  match ts.items[i]? with
  | some item => pure item
  | none => throw (.outside i)

/-- Something else was expected than what is found. -/
def miss {α : Type} (expected : Expected) (item : Option Token) : Reading α :=
  throw (.failed ⟨.missing expected (item.map Token.text), ts.placeOf item⟩)

/-- The token at an index, which has to be such as `p` says, and the index behind it (`_expect`). -/
def expect (p : Token → Bool) (expected : Expected) (i : Nat) : Reading (Token × Nat) := do
  match ← look ts i with
  | none => miss ts expected none
  | some t => if p t then return (t, i + 1) else miss ts expected (some t)

/-- The end of a statement (`_end_statement`): a semicolon, or nothing at the end of the script. -/
def endStatement (i : Nat) : Reading Nat := do
  match ← look ts i with
  | none => return i
  | some _ =>
    let (_, i) ← expect ts (·.isMark .semicolon) .statementEnd i
    return i

end Single

/-- The room that is left one level deeper. -/
def deeper : Option Nat → Reading (Option Nat)
  | none => pure none
  | some 0 => throw .tooDeep
  | some (room + 1) => pure (some room)

/-! ## Expressions -/

section Operands

variable (ts : Tokens) (expr : Nat → Reading (Expr × Nat))

/-- The loop over the arguments of a call of which there is one at least. -/
def moreArguments (name : Text) : (steps i : Nat) → Reading (List Expr × Nat)
  | 0, _ => endless
  | steps + 1, i => do
    let (e, i) ← expr i
    match ← look ts i with
    | none => miss ts (.callEnd name) none
    | some t =>
      if t.isMark .comma then
        let (es, i) ← moreArguments name steps (i + 1)
        return (e :: es, i)
      else
        let (_, i) ← expect ts (·.isMark .closeParen) (.callEnd name) i
        return ([e], i)

/-- The arguments of a call and its closing parenthesis (`_parse_arguments`). -/
def arguments (name : Text) (steps i : Nat) : Reading (List Expr × Nat) := do
  match ← look ts i with
  | none => moreArguments ts expr name steps i
  | some t =>
    if t.isMark .closeParen then return ([], i + 1) else moreArguments ts expr name steps i

/-- A literal, a variable, a call, or a group (`_parse_primary`). -/
def primary (steps i : Nat) : Reading (Expr × Nat) := do
  match ← look ts i with
  | none => miss ts .expression none
  | some t =>
    match t.literal? with
    | some e => return (e, i + 1)
    | none =>
      if t.kind = .identifier then
        let following ← look ts (i + 1)
        if following.any (·.isMark .openParen) then
          let (args, i) ← arguments ts expr t.text steps (i + 2)
          return (.call (.text t.text) args t.position, i)
        else return (.var (.text t.text) t.position, i + 1)
      else if t.isMark .openParen then
        let (e, i) ← expr (i + 1)
        let (_, i) ← expect ts (·.isMark .closeParen) .groupEnd i
        return (e, i)
      else miss ts .expression (some t)

/-- The loop over the method calls and indexes that follow an expression (`_parse_postfix`). -/
def suffixes : (steps : Nat) → Expr → Nat → Reading (Expr × Nat)
  | 0, _, _ => endless
  | steps + 1, e, i => do
    match ← look ts i with
    | none => return (e, i)
    | some t =>
      if t.isMark .dot then
        let (name, i) ← expect ts (·.kind == .identifier) .methodName (i + 1)
        let (_, i) ← expect ts (·.isMark .openParen) (.methodArguments name.text) i
        let (args, i) ← arguments ts expr name.text steps i
        suffixes steps (.method e (.text name.text) args name.position) i
      else if t.isMark .openBracket then
        let (index, i) ← expr (i + 1)
        let (_, i) ← expect ts (·.isMark .closeBracket) .indexEnd i
        suffixes steps (.index e index t.position) i
      else return (e, i)

/-- A primary and what follows it. -/
def operand (steps i : Nat) : Reading (Expr × Nat) := do
  let (e, i) ← primary ts expr steps i
  suffixes ts expr steps e i

end Operands

section Chains

variable (ts : Tokens) (unary : Nat → Reading (Expr × Nat))

/-- The loop over the operands that follow a left one. -/
def additions : (steps : Nat) → Expr → Nat → Reading (Expr × Nat)
  | 0, _, _ => endless
  | steps + 1, left, i => do
    match ← look ts i with
    | none => return (left, i)
    | some t =>
      match t.additive? with
      | none => return (left, i)
      | some op =>
        let (right, i) ← unary (i + 1)
        additions steps (.binary op left right t.position) i

/-- A chain of additive operators (`_parse_additive`). -/
def additive (steps i : Nat) : Reading (Expr × Nat) := do
  let (left, i) ← unary i
  additions ts unary steps left i

/-- A comparison of two chains, or one chain. -/
def comparison (steps i : Nat) : Reading (Expr × Nat) := do
  let (left, i) ← additive ts unary steps i
  match ← look ts i with
  | none => return (left, i)
  | some t =>
    match t.comparison? with
    | none => return (left, i)
    | some c =>
      let (right, i) ← additive ts unary steps (i + 1)
      return (.binary (.compare c) left right t.position, i)

end Chains

section Expressions

variable (ts : Tokens)

/-- An operand with its unary operators (`_parse_unary`). What nests in it is read with one step
less. -/
def unary : (steps : Nat) → (room : Option Nat) → Nat → Reading (Expr × Nat)
  | 0, _, _ => endless
  | steps + 1, room, i => do
    let room ← deeper room
    match ← look ts i with
    | none => operand ts (comparison ts (unary steps room) steps) steps i
    | some t =>
      match t.unary? with
      | none => operand ts (comparison ts (unary steps room) steps) steps i
      | some op =>
        let (e, i) ← unary steps room (i + 1)
        return (.unary op e t.position, i)

/-- An expression (`parse_expression_tokens`). -/
def expression (steps : Nat) (room : Option Nat) (i : Nat) : Reading (Expr × Nat) :=
  comparison ts (unary ts steps room) steps i

end Expressions

/-! ## Statements -/

section Statements

variable (ts : Tokens) (expr : Nat → Reading (Expr × Nat))

/-- An expression as what `build` makes of it, and the end of its statement. -/
def assignment (build : Expr → Statement) (i : Nat) : Reading (Statement × Nat) := do
  let (e, i) ← expr i
  let i ← endStatement ts i
  return (build e, i)

/-- A declaration, from behind its keyword. -/
def declaration (keyword : Keyword) (build : Datum → Expr → Statement) (i : Nat) :
    Reading (Statement × Nat) := do
  let (name, i) ← expect ts (·.kind == .identifier) (.variableName keyword) i
  let (_, i) ← expect ts (·.isSymbol .assign) .assignment i
  assignment ts expr (build (.text name.text)) i

/-- A statement that starts with the name at an index; where an index behind the name is not
assigned to, it is read again from the name. -/
def named (name : Token) (i : Nat) : Reading (Statement × Nat) := do
  match ← look ts (i + 1) with
  | none => assignment ts expr (.expression · name.position) i
  | some t =>
    if name.text = Text.of "print" ∧ t.isMark .openParen then
      let (e, i) ← expr (i + 2)
      let (_, i) ← expect ts (·.isMark .closeParen) .printEnd i
      let i ← endStatement ts i
      return (.print e name.position, i)
    else if t.isSymbol .assign then
      assignment ts expr (.assign (.text name.text) · name.position) (i + 2)
    else if t.isMark .openBracket then
      let (index, behind) ← expr (i + 2)
      let (_, behind) ← expect ts (·.isMark .closeBracket) .indexEnd behind
      match ← look ts behind with
      | none => assignment ts expr (.expression · name.position) i
      | some sign =>
        if sign.isSymbol .assign then
          assignment ts expr (.indexAssign (.text name.text) index · name.position) (behind + 1)
        else assignment ts expr (.expression · name.position) i
    else assignment ts expr (.expression · name.position) i

/-- A statement (`_parse_statement`). -/
def statement (i : Nat) : Reading (Statement × Nat) := do
  match ← look ts i with
  | none => assignment ts expr (.expression · ts.stop) i
  | some t =>
    match t.kind with
    | .keyword .let_ => declaration ts expr .let_ (.declare · · t.position) (i + 1)
    | .keyword .const => declaration ts expr .const (.constant · · t.position) (i + 1)
    | .identifier => named ts expr t i
    | _ => assignment ts expr (.expression · t.position) i

/-- Nesting that is too deep, as a failure at a place. -/
def orTooDeep {α : Type} (place : Position) (reading : Reading α) : Reading α :=
  tryCatch reading fun
    | .tooDeep => throw (.failed ⟨.nestedTooDeeply, place⟩)
    | trap => throw trap

/-- The loop over the statements of a script. -/
def statements : (steps i : Nat) → Reading (List Statement)
  | 0, _ => endless
  | steps + 1, i => do
    match ← look ts i with
    | none => return []
    | some t =>
      if t.isMark .semicolon then statements steps (i + 1)
      else
        let (s, i) ← orTooDeep t.position (statement ts expr i)
        let ss ← statements steps i
        return s :: ss

end Statements

section Sources

variable (ts : Tokens) (steps : Nat) (room : Option Nat)

/-- A source that is a script (`parse_script`). -/
def script : Reading (List Statement) := statements ts (expression ts steps room) steps 0

/-- A source that is one expression (`parse_expression`). -/
def loneExpression : Reading Expr := do
  let first ← look ts 0
  let (e, i) ← orTooDeep (ts.placeOf first) (expression ts steps room 0)
  match ← look ts i with
  | none => return e
  | some t => throw (.failed ⟨.trailing t.text, t.position⟩)

end Sources

end Indexed

end ScalarScript
