import ScalarScript.Text.Identifier
import ScalarScript.Value.Basic

/-!
# Host functions

Model of `FunctionRegistry`, `HostFunction` and `_matches`.

A registry maps names to what the host wants called. A name may be registered many times with
different types of arguments; a call goes to the newest registration that accepts its arguments.

* A registration without types accepts any arguments. One with types accepts as many arguments as
  it has types, each of its type; a truth value is no integer.
* Names are Unicode identifiers.

Result: `resolve_add` (a new registration takes the calls of its name that it accepts and leaves
all others as they were).
-/

namespace ScalarScript

/-- The types of arguments that a registration may ask for. -/
inductive ArgumentType where
  | string
  | int
  | bool
deriving DecidableEq, Repr

/-- Whether a value is of a type (`_matches`). -/
def ArgumentType.accepts : ArgumentType → Value → Bool
  | string, .string _ => true
  | int, .int _ => true
  | bool, .bool _ => true
  | _, _ => false

/-- One registered function (`HostFunction`). -/
structure Registration (α : Type) where
  name : Text
  types : Option (List ArgumentType)
  body : α

/-- Whether a registration takes these arguments (`HostFunction.accepts`). -/
def Registration.accepts {α : Type} (r : Registration α) (arguments : List Value) : Bool :=
  match r.types with
  | none => true
  | some types =>
    arguments.length == types.length &&
      (types.zip arguments).all fun p => p.1.accepts p.2

/-- All registrations, the newest first (`FunctionRegistry`). -/
structure Registry (α : Type) where
  registrations : List (Registration α)

namespace Registry

variable {α : Type}

/-- No functions at all. -/
def empty : Registry α := ⟨[]⟩

/-- A registry with one more function. -/
def add (functions : Registry α) (r : Registration α) : Registry α :=
  ⟨r :: functions.registrations⟩

/-- Registers a function under an identifier (`FunctionRegistry.register`); any other name is
refused. -/
def register? (functions : Registry α) (r : Registration α) : Option (Registry α) :=
  if r.name.isIdentifier then some (functions.add r) else none

/-- The newest registration of a name that accepts the arguments (`FunctionRegistry.resolve`). -/
def resolve (functions : Registry α) (name : Text) (arguments : List Value) :
    Option (Registration α) :=
  functions.registrations.find? fun r => r.name == name && r.accepts arguments

/-- Whether a name is registered. -/
def contains (functions : Registry α) (name : Text) : Bool :=
  functions.registrations.any (·.name == name)

theorem resolve_add (functions : Registry α) (r : Registration α) (name : Text)
    (arguments : List Value) :
    (functions.add r).resolve name arguments =
      if r.name = name ∧ r.accepts arguments = true then some r
      else functions.resolve name arguments := by
  simp only [resolve, add, List.find?_cons]
  split <;> split <;> simp_all

end Registry

end ScalarScript
