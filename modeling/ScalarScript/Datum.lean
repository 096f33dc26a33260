import ScalarScript.Value.Basic

/-!
# Plain data

Model of what `script_from_dict` is given, and of what it leaves in nodes as it is.

A `Datum` is what a data document holds: nothing, a truth value, a number, text, an array, or an
object with named fields. Scripts carry such data where a document may have put anything in the
place of a name, a number or a truth value.

* `toValue` is the host value of a datum.
* `shown` writes a datum as messages show it; `plain` leaves the quotes off a text.
* `same` is equality of data. A truth value equals the number 0 or 1 and a whole double equals its
  integer; fields are compared without regard to order. There is one not-a-number, which is the
  same as itself wherever it stands.

Results: `same_text_iff`, `same_int_iff`.
-/

namespace ScalarScript

/-- The content of a data document. -/
inductive Datum where
  | null
  | bool (b : Bool)
  | int (n : Int)
  | float (x : Binary64)
  | text (t : Text)
  | array (items : List Datum)
  | object (fields : List (Text × Datum))

namespace Datum

instance : Inhabited Datum := ⟨.null⟩

/-- The host value of a datum. -/
def toValue : Datum → Value
  | null => .none
  | bool b => .bool b
  | int n => .int n
  | float x => .float x
  | text t => .text t
  | array items => .list (itemValues items)
  | object fields => .object (fieldValues fields)
where
  itemValues : List Datum → List Value
    | [] => []
    | d :: rest => d.toValue :: itemValues rest
  fieldValues : List (Text × Datum) → List (Text × Value)
    | [] => []
    | (name, d) :: rest => (name, d.toValue) :: fieldValues rest

/-- A datum as messages show it. -/
def shown (d : Datum) : Text := d.toValue.shown

/-- A datum inside running text: a text stands for itself. -/
def plain : Datum → Text
  | text t => t
  | d => d.shown

/-- The field of an object with a given name. -/
def field? (fields : List (Text × Datum)) (name : String) : Option Datum :=
  fields.lookup (Text.of name)

/-- Sets a field: a known name keeps its place, a new one goes to the end. -/
def setField (fields : List (Text × Datum)) (name : Text) (d : Datum) : List (Text × Datum) :=
  if fields.any (·.1 == name) then
    fields.map fun field => if field.1 = name then (name, d) else field
  else fields ++ [(name, d)]

/-- The integer a datum is equal to, if it is a number or a truth value. -/
def integer? : Datum → Option Int
  | bool b => some (if b then 1 else 0)
  | int n => some n
  | float x => x.toInt?
  | _ => none

/-- Equality of data. -/
def same : Datum → Datum → Bool
  | null, null => true
  | text t, text u => t == u
  | array xs, array ys => sameItems xs ys
  | object xs, object ys => xs.length == ys.length && sameFields xs ys
  | a, b =>
    match a.integer?, b.integer? with
    | some m, some n => m == n
    | none, none =>
      match a, b with
      | float x, float y => x == y
      | _, _ => false
    | _, _ => false
where
  sameItems : List Datum → List Datum → Bool
    | [], [] => true
    | a :: as, b :: bs => a.same b && sameItems as bs
    | _, _ => false
  sameFields : List (Text × Datum) → List (Text × Datum) → Bool
    | [], _ => true
    | (name, a) :: rest, ys =>
      (match ys.lookup name with
        | some b => a.same b
        | none => false) && sameFields rest ys

theorem same_text_iff {t u : Text} : (text t).same (text u) = true ↔ t = u := by
  simp [same]

theorem same_int_iff {m n : Int} : (int m).same (int n) = true ↔ m = n := by
  simp [same, integer?]

end Datum

end ScalarScript
