import ScalarScript.Syntax.Script
import ScalarScript.Value.Operand

/-!
# Scripts as data documents

Model of `script_to_dict` and `script_from_dict`, with `statement_to_dict`, `statement_from_dict`,
`expr_to_dict` and `expr_from_dict`.

A script is written as an object with its name and statements; a statement and an expression as an
object whose field `type` tells the kind of node. String literals are written decoded and
positions not at all.

Reading is lenient where nothing depends on it: fields that a node does not have are ignored, the
name of a script and lists of statements and arguments may be missing, and the data in the place
of a name, number or truth value is kept as it is. Only operators and string literals are checked.

* `Reading` is what a datum would be as an expression and as a list of expressions; the type of the
  node around it says which one counts.
* A list of nodes may also be an empty text or an empty object, since either has nothing in it.

Results: `fieldReadings_eq`, `itemReadings_eq` (readings go through fields and items one by one).
-/

namespace ScalarScript

/-- Why a document holds no script. -/
inductive DocumentError where
  | notObject
  | notText
  | notList
  | missingField (name : String)
  | unknownExpression (type : Datum)
  | unknownStatement (type : Datum)
  | unknownBinaryOperator (operator : Datum)
  | unknownUnaryOperator (operator : Datum)
  | string (e : StringFault)

namespace DocumentError

/-- The wording of a failure that has one. -/
def text? : DocumentError → Option Text
  | unknownExpression type => some (Text.of "Unsupported expression dict type: " ++ type.plain)
  | unknownStatement type => some (Text.of "Unsupported statement dict type: " ++ type.plain)
  | unknownBinaryOperator operator =>
    some (operator.shown ++ Text.of " is not a valid BinaryOperator")
  | unknownUnaryOperator operator =>
    some (operator.shown ++ Text.of " is not a valid UnaryOperator")
  | missingField name => some (Text.of name).quoted
  | string e => some e.message
  | notObject | notText | notList => none

end DocumentError

/-! ## Writing -/

/-- An object from its fields. -/
def Datum.ofFields (fields : List (String × Datum)) : Datum :=
  .object (fields.map fun field => (Text.of field.1, field.2))

/-- A text as a datum. -/
def Datum.ofString (s : String) : Datum := .text (Text.of s)

namespace Expr

/-- The document of an expression (`expr_to_dict`). -/
def toDatum : Expr → Datum
  | string value _ => Datum.ofFields [("type", .ofString "string"), ("value", .text value.text)]
  | char value _ => Datum.ofFields [("type", .ofString "char"), ("value", value)]
  | int value _ => Datum.ofFields [("type", .ofString "int"), ("value", value)]
  | bool value _ => Datum.ofFields [("type", .ofString "bool"), ("value", value)]
  | var name _ => Datum.ofFields [("type", .ofString "var"), ("name", name)]
  | binary op left right _ =>
    Datum.ofFields [("type", .ofString "binary"), ("operator", .ofString op.spelling),
      ("left", left.toDatum), ("right", right.toDatum)]
  | unary op operand _ =>
    Datum.ofFields [("type", .ofString "unary"), ("operator", .ofString op.spelling),
      ("operand", operand.toDatum)]
  | method target name arguments _ =>
    Datum.ofFields [("type", .ofString "call"), ("target", target.toDatum), ("method", name),
      ("arguments", .array (listToDatum arguments))]
  | call name arguments _ =>
    Datum.ofFields [("type", .ofString "fn_call"), ("name", name),
      ("arguments", .array (listToDatum arguments))]
  | index target i _ =>
    Datum.ofFields [("type", .ofString "index"), ("target", target.toDatum),
      ("index", i.toDatum)]
where
  listToDatum : List Expr → List Datum
    | [] => []
    | e :: rest => e.toDatum :: listToDatum rest

end Expr

/-- The document of a statement (`statement_to_dict`). -/
def Statement.toDatum : Statement → Datum
  | declare name value _ =>
    Datum.ofFields [("type", .ofString "let"), ("name", name), ("value", value.toDatum)]
  | constant name value _ =>
    Datum.ofFields [("type", .ofString "const"), ("name", name), ("value", value.toDatum)]
  | assign name value _ =>
    Datum.ofFields [("type", .ofString "assign"), ("name", name), ("value", value.toDatum)]
  | indexAssign name index value _ =>
    Datum.ofFields [("type", .ofString "index_assign"), ("name", name), ("index", index.toDatum),
      ("value", value.toDatum)]
  | print value _ => Datum.ofFields [("type", .ofString "print"), ("value", value.toDatum)]
  | expression value _ => Datum.ofFields [("type", .ofString "expr"), ("value", value.toDatum)]

/-- The document of a script (`script_to_dict`). -/
def Script.toDatum (s : Script) : Datum :=
  Datum.ofFields [("name", s.name), ("statements", .array (s.statements.map Statement.toDatum))]

/-! ## Reading -/

namespace Document

/-- A datum, and what it would be as an expression and as a list of expressions. -/
structure Reading where
  datum : Datum
  expr : Except DocumentError Expr
  list : Except DocumentError (List Expr)

/-- The fields of an object, each with its readings. -/
abbrev Fields := List (Text × Reading)

/-- A field that a node has to have. -/
def need (fields : Fields) (name : String) : Except DocumentError Reading :=
  match fields.lookup (Text.of name) with
  | some r => .ok r
  | none => .error (.missingField name)

/-- A field that has to be an expression. -/
def needExpr (fields : Fields) (name : String) : Except DocumentError Expr := do
  (← need fields name).expr

/-- The datum of a field that a node has to have. -/
def needDatum (fields : Fields) (name : String) : Except DocumentError Datum := do
  return (← need fields name).datum

/-- The arguments of a call, none where the field is missing. -/
def argumentsOf (fields : Fields) : Except DocumentError (List Expr) :=
  match fields.lookup (Text.of "arguments") with
  | some r => r.list
  | none => .ok []

/-- The type of a node; a missing one is nothing. -/
def typeOf (fields : Fields) : Datum :=
  ((fields.lookup (Text.of "type")).map Reading.datum).getD .null

/-- A string literal: text without surrogates. -/
def stringOf : Datum → Except DocumentError ScalarString
  | .text t => (ScalarString.ofHostText t).mapError .string
  | _ => .error .notText

/-- The binary operator a datum spells. -/
def binaryOperatorOf (d : Datum) : Except DocumentError BinaryOperator :=
  match d with
  | .text t =>
    match BinaryOperator.ofText? t with
    | some op => .ok op
    | none => .error (.unknownBinaryOperator d)
  | _ => .error (.unknownBinaryOperator d)

/-- The unary operator a datum spells. -/
def unaryOperatorOf (d : Datum) : Except DocumentError UnaryOperator :=
  match d with
  | .text t =>
    match UnaryOperator.ofText? t with
    | some op => .ok op
    | none => .error (.unknownUnaryOperator d)
  | _ => .error (.unknownUnaryOperator d)

/-- The kinds of expression nodes. -/
inductive ExprType where
  | string
  | char
  | int
  | bool
  | var
  | binary
  | unary
  | call
  | fnCall
  | index
deriving DecidableEq

def ExprType.all : List ExprType :=
  [.string, .char, .int, .bool, .var, .binary, .unary, .call, .fnCall, .index]

def ExprType.spelling : ExprType → String
  | string => "string"
  | char => "char"
  | int => "int"
  | bool => "bool"
  | var => "var"
  | binary => "binary"
  | unary => "unary"
  | call => "call"
  | fnCall => "fn_call"
  | index => "index"

/-- The kind of expression node that a type names. -/
def ExprType.ofDatum? : Datum → Option ExprType
  | .text t => all.find? fun k => t == Text.of k.spelling
  | _ => none

/-- The expression of an object, from the readings of its fields (`expr_from_dict`). -/
def exprOfFields (fields : Fields) : Except DocumentError Expr :=
  match ExprType.ofDatum? (typeOf fields) with
  | none => .error (.unknownExpression (typeOf fields))
  | some .string => do return .string (← stringOf (← needDatum fields "value")) none
  | some .char => do return .char (← needDatum fields "value") none
  | some .int => do return .int (← needDatum fields "value") none
  | some .bool => do return .bool (← needDatum fields "value") none
  | some .var => do return .var (← needDatum fields "name") none
  | some .binary => do
    let op ← binaryOperatorOf (← needDatum fields "operator")
    let left ← needExpr fields "left"
    let right ← needExpr fields "right"
    return .binary op left right none
  | some .unary => do
    let op ← unaryOperatorOf (← needDatum fields "operator")
    let operand ← needExpr fields "operand"
    return .unary op operand none
  | some .call => do
    let target ← needExpr fields "target"
    let name ← needDatum fields "method"
    let arguments ← argumentsOf fields
    return .method target name arguments none
  | some .fnCall => do
    let name ← needDatum fields "name"
    let arguments ← argumentsOf fields
    return .call name arguments none
  | some .index => do
    let target ← needExpr fields "target"
    let i ← needExpr fields "index"
    return .index target i none

/-- What a datum would be as a list of nodes, given its items as nodes. -/
def listOfItems {α : Type} (items : Except DocumentError (List α)) :
    Datum → Except DocumentError (List α)
  | .array _ => items
  | .text [] | .object [] => .ok []
  | .text (_ :: _) | .object (_ :: _) => .error .notObject
  | .null | .bool _ | .int _ | .float _ => .error .notList

/-- A datum with its readings. -/
def reading : Datum → Reading
  | .array items => ⟨.array items, .error .notObject, itemReadings items⟩
  | .object fields =>
    ⟨.object fields, exprOfFields (fieldReadings fields),
      listOfItems (.ok []) (.object fields)⟩
  | d => ⟨d, .error .notObject, listOfItems (.ok []) d⟩
where
  itemReadings : List Datum → Except DocumentError (List Expr)
    | [] => .ok []
    | d :: rest => do
      let e ← (reading d).expr
      let es ← itemReadings rest
      return e :: es
  fieldReadings : List (Text × Datum) → Fields
    | [] => []
    | (name, d) :: rest => (name, reading d) :: fieldReadings rest

/-- The kinds of statement nodes. -/
inductive StatementType where
  | declare
  | constant
  | assign
  | indexAssign
  | print
  | expression
deriving DecidableEq

def StatementType.all : List StatementType :=
  [.declare, .constant, .assign, .indexAssign, .print, .expression]

def StatementType.spelling : StatementType → String
  | declare => "let"
  | constant => "const"
  | assign => "assign"
  | indexAssign => "index_assign"
  | print => "print"
  | expression => "expr"

/-- The kind of statement node that a type names. -/
def StatementType.ofDatum? : Datum → Option StatementType
  | .text t => all.find? fun k => t == Text.of k.spelling
  | _ => none

/-- The statement of an object, from the readings of its fields. -/
def statementOfFields (fields : Fields) : Except DocumentError Statement :=
  match StatementType.ofDatum? (typeOf fields) with
  | none => .error (.unknownStatement (typeOf fields))
  | some .declare => do
    let name ← needDatum fields "name"
    return .declare name (← needExpr fields "value") none
  | some .constant => do
    let name ← needDatum fields "name"
    return .constant name (← needExpr fields "value") none
  | some .assign => do
    let name ← needDatum fields "name"
    return .assign name (← needExpr fields "value") none
  | some .indexAssign => do
    let name ← needDatum fields "name"
    let i ← needExpr fields "index"
    return .indexAssign name i (← needExpr fields "value") none
  | some .print => do return .print (← needExpr fields "value") none
  | some .expression => do return .expression (← needExpr fields "value") none

/-- The statement of a datum (`statement_from_dict`). -/
def statementOf : Datum → Except DocumentError Statement
  | .object fields => statementOfFields (reading.fieldReadings fields)
  | _ => .error .notObject

/-- The statements of a datum. -/
def statementsOf (d : Datum) : Except DocumentError (List Statement) :=
  match d with
  | .array items => items.mapM statementOf
  | d => listOfItems (.ok []) d

theorem fieldReadings_eq (fields : List (Text × Datum)) :
    reading.fieldReadings fields = fields.map fun field => (field.1, reading field.2) := by
  induction fields with
  | nil => rfl
  | cons field rest ih => rw [reading.fieldReadings, ih, List.map_cons]

theorem itemReadings_eq (items : List Datum) :
    reading.itemReadings items = items.mapM fun d => (reading d).expr := by
  induction items with
  | nil => rfl
  | cons d rest ih => rw [reading.itemReadings, ih, List.mapM_cons]

end Document

/-- The script of a document (`script_from_dict`). -/
def Script.ofDatum : Datum → Except DocumentError Script
  | .object fields => do
    let statements ← match Datum.field? fields "statements" with
      | some d => Document.statementsOf d
      | none => .ok []
    return ⟨statements, (Datum.field? fields "name").getD (.text Script.defaultName)⟩
  | _ => .error .notObject

end ScalarScript
