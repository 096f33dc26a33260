import ScalarScript.Json.Write
import ScalarScript.Yaml.Resolve

/-!
# YAML nodes

Part of the model of how `script_from_yaml` reads its text.

The tree that YAML text spells, before it is settled what its plain scalars stand for: scalars,
sequences, and mappings whose keys are scalars.

* `Node.toDatum` is the plain data of a node. A key that is no text is named as a data document
  writes it, and of two entries with one name the later value counts.

Results: `Scalar.toDatum_quoted`.
-/

namespace ScalarScript.Yaml

/-- Why a YAML text holds no plain data. -/
inductive ReadError where
  | malformed
  | date
deriving DecidableEq, Repr

/-- A scalar, in quotes or plain. -/
structure Scalar where
  quoted : Bool
  text : Text
deriving DecidableEq

/-- A tree of scalars. -/
inductive Node where
  | scalar (s : Scalar)
  | sequence (items : List Node)
  | mapping (entries : List (Scalar × Node))

/-- The scalar that stands where nothing is written. -/
def Scalar.empty : Scalar := ⟨false, []⟩

namespace Scalar

/-- The plain data of a scalar. -/
def toDatum (s : Scalar) : Except ReadError Datum :=
  if s.quoted then .ok (.text s.text)
  else match resolve s.text with
    | .text => .ok (.text s.text)
    | .datum d => .ok d
    | .date => .error .date
    | .reserved => .error .malformed

/-- The name that a scalar gives to a field. -/
def toName (s : Scalar) : Except ReadError Text :=
  if s.quoted then .ok s.text
  else match resolve s.text with
    | .text | .date => .ok s.text
    | .datum d => .ok (Json.write d)
    | .reserved => .error .malformed

theorem toDatum_quoted (t : Text) : toDatum ⟨true, t⟩ = .ok (.text t) := rfl

end Scalar

namespace Node

/-- The node that stands where nothing is written. -/
def empty : Node := scalar .empty

/-- The plain data of a node. -/
def toDatum : Node → Except ReadError Datum
  | scalar s => s.toDatum
  | sequence items => (itemData items).map .array
  | mapping entries => (fieldData [] entries).map .object
where
  itemData : List Node → Except ReadError (List Datum)
    | [] => .ok []
    | n :: rest => do
      let d ← n.toDatum
      return d :: (← itemData rest)
  fieldData (seen : List (Text × Datum)) :
      List (Scalar × Node) → Except ReadError (List (Text × Datum))
    | [] => .ok seen
    | (key, n) :: rest => do
      let name ← key.toName
      let d ← n.toDatum
      fieldData (Datum.setField seen name d) rest

end Node

end ScalarScript.Yaml
