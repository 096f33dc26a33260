import ScalarScript.Syntax.Parse

/-!
# Failures of execution

Model of `EvalError`, with the texts and causes that `Engine` gives it, and of what else
`Engine.execute` may raise.

* `Fault` collects what the layers below execution report.
* `EvalFault` says why a statement or expression fails; `text` words it and `cause` is the fault it
  was made of, if it was.
* `EvalError` adds the place.
* `Failure` is what an evaluation can end in. Besides an `EvalError` there are faults that nothing
  wraps, failures of a host function that are the host's own, and the end of the nesting depth,
  which has no place yet.

Results: `EvalFault.cause_eq_some_iff`.
-/

namespace ScalarScript

/-- A failure reported by a layer below execution. -/
inductive Fault where
  | decode (e : Literal.DecodeError)
  | string (e : StringFault)
  | source (e : SourceError)

/-- The wording of a fault. -/
def Fault.message : Fault → Text
  | decode e => e.message
  | string e => e.message
  | source e => e.message

/-- An exact result that is no script integer. -/
inductive Overflow where
  | sum (a b : Int)
  | difference (a b : Int)
  | negation (a : Int)
  | result (function : Datum)

/-- The wording of an operation whose result is out of range. -/
def Overflow.description : Overflow → Text
  | sum a b => Text.ofInt a ++ Text.of " + " ++ Text.ofInt b
  | difference a b => Text.ofInt a ++ Text.of " - " ++ Text.ofInt b
  | negation a => Text.of "-(" ++ Text.ofInt a ++ Text.of ")"
  | result function => Text.of "result of " ++ function.plain

/-- Why a statement or an expression fails. -/
inductive EvalFault where
  | unbound (name : Datum)
  | constant (name : Datum)
  | notIndexable (type : String)
  | indexNotInteger (type : String)
  | notSingleScalar
  | tooLong (length limit : Nat)
  | overflow (operation : Overflow)
  | operands (op : BinaryOperator) (left right : String)
  | operand (op : UnaryOperator) (type : String)
  | noFunction (name : Datum) (types : List String)
  | string (e : StringFault)
  | host (function : Datum) (fault : Fault)
  | nestedTooDeeply
  | raised (text : Text)

namespace EvalFault

/-- The wording of a failure, without its place. -/
def text : EvalFault → Text
  | unbound name => Text.of "Variable not found: " ++ name.plain
  | constant name => Text.of "Cannot assign to constant: " ++ name.plain
  | notIndexable type => Text.of "Cannot index into a value of type " ++ Text.of type
  | indexNotInteger type => Text.of "String index must be an int, not " ++ Text.of type
  | notSingleScalar => Text.of "Only a single character can be assigned into a string"
  | tooLong length limit =>
    Text.of "String length " ++ Text.ofNat length ++ Text.of " exceeds the limit of " ++
      Text.ofNat limit
  | overflow operation => Text.of "Integer overflow: " ++ operation.description
  | operands op left right =>
    Text.of "Unsupported operand types for '" ++ Text.of op.spelling ++ Text.of "': " ++
      Text.of left ++ Text.of " and " ++ Text.of right
  | operand op type =>
    Text.of "Unsupported operand type for '" ++ Text.of op.spelling ++ Text.of "': " ++
      Text.of type
  | noFunction name types =>
    Text.of "Function not found: " ++ name.plain ++ Text.of " (" ++
      Text.join (Text.of ", ") (types.map Text.of) ++ Text.of ")"
  | string e => e.message
  | host function fault => function.plain ++ Text.of ": " ++ fault.message
  | nestedTooDeeply => ScalarScript.nestedTooDeeply
  | raised text => text

/-- The fault that a failure was made of. -/
def cause : EvalFault → Option Fault
  | string e => some (.string e)
  | host _ fault => some fault
  | _ => none

end EvalFault

/-- A failure of execution with its place. -/
structure EvalError where
  fault : EvalFault
  position : Option Position

namespace EvalError

/-- The wording of a failure at a place, if it has one. -/
def located (text : Text) : Option Position → Text
  | none => text
  | some p => text ++ Text.of " (" ++ p.message ++ Text.of ")"

/-- The wording of a failure with its place. -/
def message (e : EvalError) : Text := located e.fault.text e.position

end EvalError

/-- A failure that is the host's own: a value has the wrong type, or cannot do what is asked of it,
or there is no item in a place. -/
inductive HostFailure where
  | wrongType
  | notSupported
  | noItem
deriving DecidableEq, Repr

/-- What an evaluation ends in where it has no value. -/
inductive Failure where
  | eval (e : EvalError)
  | fault (f : Fault)
  | host (f : HostFailure)
  | tooDeep

namespace Failure

/-- A failure of execution at a place. -/
def at_ (fault : EvalFault) (pos : Option Position) : Failure := .eval ⟨fault, pos⟩

/-- The end of the depth as a failure at a place; other failures stay. -/
def placed (pos : Option Position) : Failure → Failure
  | tooDeep => at_ .nestedTooDeeply pos
  | f => f

/-- A fault inside a host function as a failure of the call; other failures stay. -/
def ofCall (function : Datum) (pos : Option Position) : Failure → Failure
  | fault f => at_ (.host function f) pos
  | f => f

end Failure

theorem EvalFault.cause_eq_some_iff {e : EvalFault} {f : Fault} :
    e.cause = some f ↔ (∃ s, e = .string s ∧ f = .string s) ∨ ∃ name, e = .host name f := by
  cases e <;> simp [cause, eq_comm]

end ScalarScript
