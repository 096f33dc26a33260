import ScalarScript.Syntax.Parse

/-!
# The grammar

A `Derivation` is a derivation tree of one of the phrases of the language, down to its tokens:

    expr       := additive comparison        comparison := ε | COMPARE additive
    additive   := unary additions            additions  := ε | ('+' | '-') unary additions
    unary      := ('-' | '!') unary | operand
    operand    := primary suffixes
    suffixes   := ε | '.' NAME '(' arguments ')' suffixes | '[' expr ']' suffixes
    primary    := LITERAL | NAME | NAME '(' arguments ')' | '(' expr ')'
    arguments  := ε | expr others            others     := ε | ',' expr others

`tokens` are the leaves, `tree` the syntax tree that the grammar prescribes, and `nesting` the
number of levels that a reader by descent is inside. What follows a first operand (`comparison`,
`additions`, `suffixes`) means what it makes of that operand, so chains nest to the left.

A statement is one of five forms. An expression statement may not start like a print statement:
that is the only place where the order of the alternatives matters. A script is a list of
statements and bare semicolons; a semicolon ends each statement but possibly the last.
-/

namespace ScalarScript.Grammar

/-! ## Tokens by class -/

abbrev MarkToken (m : Mark) := { t : Token // t.kind = .mark m }

abbrev SymbolToken (s : Symbol) := { t : Token // t.kind = .symbol s }

abbrev NameToken := { t : Token // t.kind = .identifier }

abbrev LiteralToken := { t : Token // t.literal?.isSome = true }

abbrev ComparisonToken := { t : Token // t.comparison?.isSome = true }

abbrev AdditiveToken := { t : Token // t.additive?.isSome = true }

abbrev UnaryToken := { t : Token // t.unary?.isSome = true }

/-! ## Expressions -/

/-- The phrases of an expression. -/
inductive Phrase where
  | expr
  | comparison
  | additive
  | additions
  | unary
  | operand
  | suffixes
  | primary
  | arguments
  | others

/-- A derivation of a phrase. -/
inductive Derivation : Phrase → Type where
  | expr (left : Derivation .additive) (tail : Derivation .comparison) : Derivation .expr
  | noComparison : Derivation .comparison
  | compare (op : ComparisonToken) (right : Derivation .additive) : Derivation .comparison
  | additive (left : Derivation .unary) (tail : Derivation .additions) : Derivation .additive
  | noAddition : Derivation .additions
  | add (op : AdditiveToken) (right : Derivation .unary) (tail : Derivation .additions) :
    Derivation .additions
  | unary (op : UnaryToken) (e : Derivation .unary) : Derivation .unary
  | bare (e : Derivation .operand) : Derivation .unary
  | operand (head : Derivation .primary) (tail : Derivation .suffixes) : Derivation .operand
  | noSuffix : Derivation .suffixes
  | method (dot : MarkToken .dot) (name : NameToken) (opening : MarkToken .openParen)
    (arguments : Derivation .arguments) (closing : MarkToken .closeParen)
    (tail : Derivation .suffixes) : Derivation .suffixes
  | index (opening : MarkToken .openBracket) (i : Derivation .expr)
    (closing : MarkToken .closeBracket) (tail : Derivation .suffixes) : Derivation .suffixes
  | literal (t : LiteralToken) : Derivation .primary
  | name (name : NameToken) : Derivation .primary
  | call (name : NameToken) (opening : MarkToken .openParen) (arguments : Derivation .arguments)
    (closing : MarkToken .closeParen) : Derivation .primary
  | group (opening : MarkToken .openParen) (e : Derivation .expr)
    (closing : MarkToken .closeParen) : Derivation .primary
  | noArgument : Derivation .arguments
  | arguments (first : Derivation .expr) (tail : Derivation .others) : Derivation .arguments
  | noOther : Derivation .others
  | other (comma : MarkToken .comma) (next : Derivation .expr) (tail : Derivation .others) :
    Derivation .others

/-- What a phrase means: a tree, what it makes of the tree before it, or a list of trees. -/
def Phrase.Meaning : Phrase → Type
  | expr | additive | unary | operand | primary => Expr
  | comparison | additions | suffixes => Expr → Expr
  | arguments | others => List Expr

namespace Derivation

/-- The tokens that a derivation derives. -/
def tokens : {p : Phrase} → Derivation p → List Token
  | _, expr left tail => left.tokens ++ tail.tokens
  | _, noComparison => []
  | _, compare op right => op.1 :: right.tokens
  | _, additive left tail => left.tokens ++ tail.tokens
  | _, noAddition => []
  | _, add op right tail => op.1 :: (right.tokens ++ tail.tokens)
  | _, unary op e => op.1 :: e.tokens
  | _, bare e => e.tokens
  | _, operand head tail => head.tokens ++ tail.tokens
  | _, noSuffix => []
  | _, method dot n opening args closing tail =>
    dot.1 :: n.1 :: opening.1 :: (args.tokens ++ closing.1 :: tail.tokens)
  | _, index opening i closing tail =>
    opening.1 :: (i.tokens ++ closing.1 :: tail.tokens)
  | _, literal t => [t.1]
  | _, name n => [n.1]
  | _, call n opening args closing => n.1 :: opening.1 :: (args.tokens ++ [closing.1])
  | _, group opening e closing => opening.1 :: (e.tokens ++ [closing.1])
  | _, noArgument => []
  | _, arguments first tail => first.tokens ++ tail.tokens
  | _, noOther => []
  | _, other comma next tail => comma.1 :: (next.tokens ++ tail.tokens)

/-- The tree of a derivation. -/
def tree : {p : Phrase} → Derivation p → p.Meaning
  | _, expr left tail => tail.tree left.tree
  | _, noComparison => fun left => left
  | _, compare op right => fun left =>
    Expr.binary (.compare (op.1.comparison?.get op.2)) left right.tree op.1.position
  | _, additive left tail => tail.tree left.tree
  | _, noAddition => fun left => left
  | _, add op right tail => fun left =>
    tail.tree (Expr.binary (op.1.additive?.get op.2) left right.tree op.1.position)
  | _, unary op e => Expr.unary (op.1.unary?.get op.2) e.tree op.1.position
  | _, bare e => e.tree
  | _, operand head tail => tail.tree head.tree
  | _, noSuffix => fun target => target
  | _, method _ n _ args _ tail => fun target =>
    tail.tree (Expr.method target (.text n.1.text) args.tree n.1.position)
  | _, index opening i _ tail => fun target =>
    tail.tree (Expr.index target i.tree opening.1.position)
  | _, literal t => t.1.literal?.get t.2
  | _, name n => Expr.var (.text n.1.text) n.1.position
  | _, call n _ args _ => Expr.call (.text n.1.text) args.tree n.1.position
  | _, group _ e _ => e.tree
  | _, noArgument => []
  | _, arguments first tail => first.tree :: tail.tree
  | _, noOther => []
  | _, other _ next tail => next.tree :: tail.tree

/-- The levels that a reader by descent is inside: one for each unary operator, and one around each
operand. -/
def nesting : {p : Phrase} → Derivation p → Nat
  | _, expr left tail => max left.nesting tail.nesting
  | _, noComparison => 0
  | _, compare _ right => right.nesting
  | _, additive left tail => max left.nesting tail.nesting
  | _, noAddition => 0
  | _, add _ right tail => max right.nesting tail.nesting
  | _, unary _ e => e.nesting + 1
  | _, bare e => e.nesting + 1
  | _, operand head tail => max head.nesting tail.nesting
  | _, noSuffix => 0
  | _, method _ _ _ args _ tail => max args.nesting tail.nesting
  | _, index _ i _ tail => max i.nesting tail.nesting
  | _, literal _ => 0
  | _, name _ => 0
  | _, call _ _ args _ => args.nesting
  | _, group _ e _ => e.nesting
  | _, noArgument => 0
  | _, arguments first tail => max first.nesting tail.nesting
  | _, noOther => 0
  | _, other _ next tail => max next.nesting tail.nesting

end Derivation

/-! ## Statements and scripts -/

/-- Whether tokens start like a print statement. -/
def startsPrint : List Token → Bool
  | name :: opening :: _ =>
    name.kind == .identifier && name.text == Text.of "print" && opening.isMark .openParen
  | _ => false

/-- A derivation of a statement, without its end. -/
inductive StatementDerivation where
  | declare (keyword : { t : Token // t.kind = .keyword .let_ }) (name : NameToken)
    (sign : SymbolToken .assign) (value : Derivation .expr)
  | constant (keyword : { t : Token // t.kind = .keyword .const }) (name : NameToken)
    (sign : SymbolToken .assign) (value : Derivation .expr)
  | assign (name : NameToken) (sign : SymbolToken .assign) (value : Derivation .expr)
  | indexAssign (name : NameToken) (opening : MarkToken .openBracket) (i : Derivation .expr)
    (closing : MarkToken .closeBracket) (sign : SymbolToken .assign) (value : Derivation .expr)
  | print (name : { t : Token // t.kind = .identifier ∧ t.text = Text.of "print" })
    (opening : MarkToken .openParen) (value : Derivation .expr) (closing : MarkToken .closeParen)
  | expression (value : Derivation .expr) (other : startsPrint value.tokens = false)

namespace StatementDerivation

/-- The tokens of a statement. -/
def tokens : StatementDerivation → List Token
  | declare keyword name sign value => keyword.1 :: name.1 :: sign.1 :: value.tokens
  | constant keyword name sign value => keyword.1 :: name.1 :: sign.1 :: value.tokens
  | assign name sign value => name.1 :: sign.1 :: value.tokens
  | indexAssign name opening i closing sign value =>
    name.1 :: opening.1 :: (i.tokens ++ closing.1 :: sign.1 :: value.tokens)
  | print name opening value closing => name.1 :: opening.1 :: (value.tokens ++ [closing.1])
  | expression value _ => value.tokens

/-- The statement that is derived. An expression statement stands at its first token. -/
def statement : StatementDerivation → Statement
  | declare keyword name _ value => .declare (.text name.1.text) value.tree keyword.1.position
  | constant keyword name _ value => .constant (.text name.1.text) value.tree keyword.1.position
  | assign name _ value => .assign (.text name.1.text) value.tree name.1.position
  | indexAssign name _ i _ _ value =>
    .indexAssign (.text name.1.text) i.tree value.tree name.1.position
  | print name _ value _ => .print value.tree name.1.position
  | expression value _ => .expression value.tree (value.tokens.head?.map Token.position)

/-- The nesting of the expressions in a statement. -/
def nesting : StatementDerivation → Nat
  | declare _ _ _ value | constant _ _ _ value | assign _ _ value | print _ _ value _
  | expression value _ => value.nesting
  | indexAssign _ _ i _ _ value => max i.nesting value.nesting

end StatementDerivation

/-- A derivation of a script: nothing, a last statement that no semicolon ends, or a semicolon or an
ended statement before a script. -/
inductive ScriptDerivation where
  | empty
  | last (s : StatementDerivation)
  | skip (semicolon : MarkToken .semicolon) (rest : ScriptDerivation)
  | statement (s : StatementDerivation) (semicolon : MarkToken .semicolon)
    (rest : ScriptDerivation)

namespace ScriptDerivation

/-- The tokens of a script. -/
def tokens : ScriptDerivation → List Token
  | empty => []
  | last s => s.tokens
  | skip semicolon rest => semicolon.1 :: rest.tokens
  | statement s semicolon rest => s.tokens ++ semicolon.1 :: rest.tokens

/-- The statements of a script. -/
def statements : ScriptDerivation → List Statement
  | empty => []
  | last s => [s.statement]
  | skip _ rest => rest.statements
  | statement s _ rest => s.statement :: rest.statements

/-- The nesting of the expressions in a script. -/
def nesting : ScriptDerivation → Nat
  | empty => 0
  | last s => s.nesting
  | skip _ rest => rest.nesting
  | statement s _ rest => max s.nesting rest.nesting

end ScriptDerivation

end ScalarScript.Grammar
