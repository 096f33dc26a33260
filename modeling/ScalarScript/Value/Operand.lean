import ScalarScript.Value.Render

/-!
# Values as operands of string operations

Model of `check_scalar`, `is_scalar`, and the methods of `StringValue` that look at their operands:
`from_scalars`, `scalar_at`, `with_replaced_at`, `concat`, `compare` and the comparisons of a host.

The string operations with any value in the place of an operand.

* A scalar may be given as its number or as host text of one character; a truth value is no number
  here.
* Joining renders what is not a string, on either side.
* An index must be an integer in range. It is looked at before the new scalar of a replacement.

Results: `joined_string`; `scalarAt_eq` and `replacedAt_eq` state the range check on the view of a
string, so the bytes are never found wanting.
-/

namespace ScalarScript

namespace Value

/-- The scalar value that a value stands for (`check_scalar`). -/
def scalar : Value → Except StringFault Char
  | int n =>
    match CodePoint.ofNat? n.toNat with
    | some (.scalar c) => if 0 ≤ n then .ok c else .error (.notScalar (int n))
    | _ => .error (.notScalar (int n))
  | text [.scalar c] => .ok c
  | text [p] => .error (.notScalar (int p.toNat))
  | v => .error (.notScalar v)

/-- Whether a number is that of a scalar value (`is_scalar`). -/
def isScalar (n : Int) : Bool := (scalar (int n)).isOk

end Value

namespace ScalarString

/-- The string of host text (`StringValue`); the first surrogate is reported by its number. -/
def ofHostText (t : Text) : Except StringFault ScalarString :=
  (ofText t).mapError fun p => .notScalar (.int p.toNat)

/-- The string of a list of scalars, each given as a value (`StringValue.from_scalars`). -/
def ofValues (items : List Value) : Except StringFault ScalarString :=
  (items.mapM Value.scalar).map ofScalars

/-- The string a value is or renders to, as an operand of `+`. -/
def ofOperand : Value → Except StringFault ScalarString
  | .string s => .ok s
  | v => do ofHostText (← v.render (Text.of "+"))

/-- A string followed by any value (`StringValue.concat`). -/
def joined (s : ScalarString) (v : Value) : Except StringFault ScalarString :=
  (ofOperand v).map (s ++ ·)

/-- Any value followed by a string. -/
def joinedAfter (s : ScalarString) (v : Value) : Except StringFault ScalarString :=
  (ofOperand v).map (· ++ s)

/-- The position that an integer index denotes, if it is in range (`StringValue._check_index`). -/
def position? (s : ScalarString) (index : Int) : Option Nat :=
  if 0 ≤ index ∧ index < s.length then some index.toNat else none

/-- The scalar at an integer index. -/
def scalarAt (s : ScalarString) (index : Int) : Except StringFault Char :=
  match (s.position? index).bind s.scalar? with
  | some c => .ok c
  | none => .error (.indexOutOfRange index s.length)

/-- The string with the scalar at an integer index replaced. -/
def replacedAt (s : ScalarString) (index : Int) (c : Char) : Except StringFault ScalarString :=
  match (s.position? index).bind (s.replace? · c) with
  | some t => .ok t
  | none => .error (.indexOutOfRange index s.length)

/-- An index given as a value. -/
def indexOf : Value → Except StringFault Int
  | .int n => .ok n
  | v => .error (.unsupportedOperand (Text.of "[]") v.hostName)

/-- The scalar at an index given as a value (`StringValue.scalar_at`). -/
def scalarAtValue (s : ScalarString) (index : Value) : Except StringFault Char := do
  s.scalarAt (← indexOf index)

/-- The string with a scalar replaced, index and scalar given as values
(`StringValue.with_replaced_at`). -/
def replacedAtValue (s : ScalarString) (index scalar : Value) :
    Except StringFault ScalarString := do
  let i ← indexOf index
  if (s.position? i).isNone then .error (.indexOutOfRange i s.length)
  else s.replacedAt i (← scalar.scalar)

/-- The order of a string and a value, which has to be a string too (`StringValue.compare`). -/
def compareValue (s : ScalarString) : Value → Except StringFault Ordering
  | .string t => .ok (s.compare t)
  | v => .error (.unsupportedOperand (Text.of "compare") v.hostName)

/-- The order that the operators of a host test (`StringValue._compare_or_none`); a value that is no
string has none. -/
def order? (s : ScalarString) : Value → Option Ordering
  | .string t => some (s.compare t)
  | _ => none

theorem joined_string (s t : ScalarString) : s.joined (.string t) = .ok (s ++ t) := rfl

theorem position?_eq_some_iff {s : ScalarString} {index : Int} {i : Nat} :
    s.position? index = some i ↔ index = i ∧ i < s.length := by
  unfold position?
  split
  · simp only [Option.some.injEq]
    omega
  · simp only [reduceCtorEq, false_iff]
    omega

theorem position?_eq_none_iff {s : ScalarString} {index : Int} :
    s.position? index = none ↔ index < 0 ∨ (s.length : Int) ≤ index := by
  unfold position?
  split
  · simp only [reduceCtorEq, false_iff]
    omega
  · simp only [true_iff]
    omega

/-- **Reading at an index.** -/
theorem scalarAt_eq (s : ScalarString) (index : Int) :
    s.scalarAt index =
      match (s.position? index).bind (s.scalars[·]?) with
      | some c => .ok c
      | none => .error (.indexOutOfRange index s.length) := by
  simp only [scalarAt, funext (scalar?_eq s)]

/-- **Replacing at an index.** -/
theorem replacedAt_eq (s : ScalarString) (index : Int) (c : Char) :
    s.replacedAt index c =
      match s.position? index with
      | some i => .ok (ofScalars (s.scalars.set i c))
      | none => .error (.indexOutOfRange index s.length) := by
  unfold replacedAt
  cases h : s.position? index with
  | none => rfl
  | some i =>
    simp only [Option.bind_some]
    rw [replace?_eq_some c (position?_eq_some_iff.mp h).2]

end ScalarString

end ScalarScript
