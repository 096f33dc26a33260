import ScalarScript.Decimal.Shortest
import ScalarScript.ScalarString.Basic
import ScalarScript.Text.Quoted

/-!
# Values

Model of the values that a scope holds, and of `type_name`.

A script computes with strings, integers and booleans. A host may put other values into a scope or
return them from a function: text that is not a script string, doubles, nothing, lists and
objects. Such a value can be carried around; `typeName` names it and `shown` writes it out.

* `hostName` is the name of a value's kind in messages about host operands, `typeName` the name in
  messages about a script. They differ for script strings alone.
* `shown` nests: a list shows its items and an object its fields.

Results: `typeName_eq_hostName` for all but strings; `isString_iff`.
-/

namespace ScalarScript

/-- A value of a running script. -/
inductive Value where
  | string (s : ScalarString)
  | text (t : Text)
  | bool (b : Bool)
  | int (n : Int)
  | float (x : Binary64)
  | none
  | list (items : List Value)
  | object (fields : List (Text × Value))

namespace Value

instance : Inhabited Value := ⟨.none⟩

/-- The name of a value's kind among host values. -/
def hostName : Value → String
  | string _ => "StringValue"
  | text _ => "str"
  | bool _ => "bool"
  | int _ => "int"
  | float _ => "float"
  | none => "NoneType"
  | list _ => "list"
  | object _ => "dict"

/-- The name of a value's type in a script (`type_name`). -/
def typeName : Value → String
  | string _ => "string"
  | v => v.hostName

/-- Whether a value is a script string. -/
def isString : Value → Bool
  | string _ => true
  | _ => false

theorem isString_iff {v : Value} : v.isString = true ↔ ∃ s, v = .string s := by
  cases v <;> simp [isString]

theorem typeName_eq_hostName {v : Value} (h : v.isString = false) : v.typeName = v.hostName := by
  cases v <;> first | rfl | simp [isString] at h

/-- A truth value as messages show it. -/
def shownBool (b : Bool) : Text := Text.of (if b then "True" else "False")

/-- A value as messages show it. -/
def shown : Value → Text
  | string s => Text.of "StringValue(" ++ s.text.quoted ++ Text.of ")"
  | text t => t.quoted
  | bool b => shownBool b
  | int n => Text.ofInt n
  | float x => x.text
  | none => Text.of "None"
  | list items => Text.of "[" ++ Text.join (Text.of ", ") (shownItems items) ++ Text.of "]"
  | object fields =>
    Text.of "\x7b" ++ Text.join (Text.of ", ") (shownFields fields) ++ Text.of "\x7d"
where
  shownItems : List Value → List Text
    | [] => []
    | v :: rest => v.shown :: shownItems rest
  shownFields : List (Text × Value) → List Text
    | [] => []
    | (name, v) :: rest => (name.quoted ++ Text.of ": " ++ v.shown) :: shownFields rest

end Value

end ScalarScript
