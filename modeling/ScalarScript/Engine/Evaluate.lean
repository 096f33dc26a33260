import ScalarScript.Engine.State
import ScalarScript.Engine.Traced
import ScalarScript.Registry
import ScalarScript.Settings

/-!
# Evaluating expressions

Model of `Engine._evaluate` and the expression handlers, from `Engine._eval_string` to
`Engine._eval_index`, with the checks `Engine._checked` and `Engine._checked_int`.

An expression is evaluated in a scope, operands from left to right before the operator is looked
at. The depth counts levels of the tree; where it ends, the evaluation fails with `tooDeep`, which
the statement or expression around it gives a place.

* `applyBinary`, `applyUnary` and `readIndex` are the operators on values, and have no effects.
* Every string that an expression makes is held to the length limit of the settings, and every
  integer to the range of script integers. A variable is read as it is.
* `+` joins as soon as one operand is a string. A host text that holds a surrogate then fails with
  a fault that is not wrapped.
* A host function gets the values of its arguments and may evaluate text on the same engine, one
  level deeper.
-/

namespace ScalarScript

/-- What a host function does: it may evaluate text, and gets its arguments. It may report to the
log. By its type it prints no line, runs no script and registers no function, and it keeps no state
from one call to the next: the same arguments give the same outcome. -/
abbrev HostFunction :=
  (Text → Traced Log.Record Value) → List Value → Traced Log.Record Value

/-- What evaluation depends on besides the scope. -/
structure Engine where
  settings : Settings
  functions : Registry HostFunction

/-! ## Limits -/

/-- A string as the value of an expression, if it is not too long (`Engine._checked`). -/
def checkLength (limit : Option Nat) (s : ScalarString) (pos : Option Position) :
    Except Failure Value :=
  match limit with
  | none => .ok (.string s)
  | some most =>
    if most < s.length then .error (.at_ (.tooLong s.length most) pos) else .ok (.string s)

/-- An integer as the value of an expression, if it is in range (`Engine._checked_int`). -/
def checkRange (n : Int) (operation : Overflow) (pos : Option Position) : Except Failure Value :=
  if Integer.inRange n then .ok (.int n) else .error (.at_ (.overflow operation) pos)

/-! ## Operators -/

/-- The outcome of joining. An operand without a text is a failure of the expression; any other
fault is passed on. -/
def joinResult (limit : Option Nat) (pos : Option Position) :
    Except StringFault ScalarString → Except Failure Value
  | .ok s => checkLength limit s pos
  | .error (.unsupportedOperand operator operand) =>
    .error (.at_ (.string (.unsupportedOperand operator operand)) pos)
  | .error e => .error (.fault (.string e))

/-- The failure of a binary operator on values that it has no meaning for
(`Engine._operand_error`). -/
def operandsFailure (op : BinaryOperator) (a b : Value) (pos : Option Position) : Failure :=
  .at_ (.operands op a.typeName b.typeName) pos

/-- The operator `+` (`Engine._add`). -/
def applyAdd (limit : Option Nat) (a b : Value) (pos : Option Position) : Except Failure Value :=
  match a, b with
  | .string s, b => joinResult limit pos (s.joined b)
  | a, .string s => joinResult limit pos (s.joinedAfter a)
  | .int m, .int n => checkRange (m + n) (.sum m n) pos
  | a, b => .error (operandsFailure .add a b pos)

/-- The operator `-` between two operands. -/
def applySubtract (a b : Value) (pos : Option Position) : Except Failure Value :=
  match a, b with
  | .int m, .int n => checkRange (m - n) (.difference m n) pos
  | a, b => .error (operandsFailure .subtract a b pos)

/-- The comparisons (`Engine._compare`): of two strings, of two integers, and of two truth values
for equality. -/
def applyComparison (c : Comparison) (a b : Value) (pos : Option Position) :
    Except Failure Value :=
  match a, b with
  | .string s, .string t => .ok (.bool (c.holds (s.compare t)))
  | .int m, .int n => .ok (.bool (c.holds (Ord.compare m n)))
  | .bool p, .bool q =>
    match c with
    | .equal => .ok (.bool (p == q))
    | .notEqual => .ok (.bool (p != q))
    | c => .error (operandsFailure (.compare c) a b pos)
  | a, b => .error (operandsFailure (.compare c) a b pos)

/-- A binary operator on the values of its operands (`Engine._eval_binary`). -/
def applyBinary (limit : Option Nat) (op : BinaryOperator) (a b : Value) (pos : Option Position) :
    Except Failure Value :=
  match op with
  | .add => applyAdd limit a b pos
  | .subtract => applySubtract a b pos
  | .compare c => applyComparison c a b pos

/-- A unary operator on the value of its operand (`Engine._eval_unary`). -/
def applyUnary (op : UnaryOperator) (v : Value) (pos : Option Position) : Except Failure Value :=
  match op, v with
  | .negate, .int n => checkRange (-n) (.negation n) pos
  | .not, .bool b => .ok (.bool (!b))
  | op, v => .error (.at_ (.operand op v.typeName) pos)

/-- The value of a character node, whose data may be no scalar (`Engine._eval_char`). -/
def characterValue (limit : Option Nat) (d : Datum) (pos : Option Position) :
    Except Failure Value :=
  match ScalarString.ofValues [d.toValue] with
  | .error e => .error (.at_ (.string e) pos)
  | .ok s => checkLength limit s pos

/-- One scalar of a string, as a string (`Engine._eval_index`). -/
def readIndex (limit : Option Nat) (target index : Value) (pos : Option Position) :
    Except Failure Value :=
  match target with
  | .string s =>
    match index with
    | .int i =>
      match s.scalarAt i with
      | .error e => .error (.at_ (.string e) pos)
      | .ok c => checkLength limit (ScalarString.ofScalars [c]) pos
    | v => .error (.at_ (.indexNotInteger v.typeName) pos)
  | v => .error (.at_ (.notIndexable v.typeName) pos)

/-- A name that cannot be looked up, since it is an array or an object. -/
def unusableName : Failure := .host .wrongType

/-- The value of a variable (`Engine._eval_variable`). -/
def readVariable (scope : Scope) (name : Datum) (pos : Option Position) : Except Failure Value :=
  match Name.ofDatum? name with
  | none => .error unusableName
  | some key =>
    match scope.get? key with
    | none => .error (.at_ (.unbound name) pos)
    | some v => .ok v

/-! ## Calls -/

/-- The value of a host function as a value of the script: host text becomes a string. -/
def hostResult (v : Value) : Except Failure Value :=
  match v with
  | .text t =>
    match ScalarString.ofHostText t with
    | .error e => .error (.fault (.string e))
    | .ok s => .ok (.string s)
  | v => .ok v

/-- The value of a call, held to the limits. -/
def checkResult (limit : Option Nat) (name : Datum) (v : Value) (pos : Option Position) :
    Except Failure Value :=
  match v with
  | .string s => checkLength limit s pos
  | .int n => checkRange n (.result name) pos
  | v => .ok v

/-- The function that a call goes to. -/
def findFunction (engine : Engine) (name : Datum) (arguments : List Value)
    (pos : Option Position) : Except Failure HostFunction :=
  match Name.ofDatum? name with
  | none => .error unusableName
  | some key =>
    let found := match key with
      | .text t => engine.functions.resolve t arguments
      | _ => none
    match found with
    | none => .error (.at_ (.noFunction name (arguments.map Value.typeName)) pos)
    | some r => .ok r.body

/-- Calls the function of a name with evaluated arguments (`Engine._call`). -/
def callFunction (engine : Engine) (evaluateText : Text → Traced Log.Record Value)
    (name : Datum) (arguments : List Value) (pos : Option Position) :
    Traced Log.Record Value := do
  let function ← Traced.ofExcept (findFunction engine name arguments pos)
  let v ← Traced.mapFailure (Failure.ofCall name pos) do
    Traced.ofExcept (hostResult (← function evaluateText arguments))
  Traced.ofExcept (checkResult engine.settings.maxStringLength name v pos)

/-! ## Expressions -/

/-- The value of an expression given as text, where `value` evaluates expressions in a scope. The
end of the depth is placed at the root of the expression. -/
def evaluateSource (value : Scope → Expr → Traced Log.Record Value) (scope : Scope)
    (source : Text) : Traced Log.Record Value := do
  let e ← Expr.traced source
  Traced.mapFailure (Failure.placed e.position) (value scope e)

/-- The value of an expression in a scope, for trees of at most `depth` levels
(`Engine._evaluate`). -/
def evaluate (engine : Engine) : (depth : Nat) → Scope → Expr → Traced Log.Record Value
  | 0, _, _ => .fail .tooDeep
  | depth + 1, scope, e =>
    match e with
    | .string s pos => .ofExcept (checkLength engine.settings.maxStringLength s pos)
    | .char d pos => .ofExcept (characterValue engine.settings.maxStringLength d pos)
    | .int d _ | .bool d _ => pure d.toValue
    | .var name pos => .ofExcept (readVariable scope name pos)
    | .binary op left right pos => do
      let a ← evaluate engine depth scope left
      let b ← evaluate engine depth scope right
      .ofExcept (applyBinary engine.settings.maxStringLength op a b pos)
    | .unary op operand pos => do
      let v ← evaluate engine depth scope operand
      .ofExcept (applyUnary op v pos)
    | .method target name arguments pos => do
      let v ← evaluate engine depth scope target
      let vs ← arguments.mapM (evaluate engine depth scope)
      callFunction engine (evaluateSource (evaluate engine depth) Scope.empty) name (v :: vs) pos
    | .call name arguments pos => do
      let vs ← arguments.mapM (evaluate engine depth scope)
      callFunction engine (evaluateSource (evaluate engine depth) Scope.empty) name vs pos
    | .index target i pos => do
      let v ← evaluate engine depth scope target
      let w ← evaluate engine depth scope i
      .ofExcept (readIndex engine.settings.maxStringLength v w pos)

/-- The depth to which an engine evaluates. -/
def Engine.depth : Nat := 1000

/-- The value of an expression given as text, in a scope (`Engine.eval_expression`). -/
def Engine.evaluateText (engine : Engine) (source : Text) (scope : Scope) :
    Traced Log.Record Value :=
  evaluateSource (evaluate engine Engine.depth) scope source

end ScalarScript
