import ScalarScript.Datum
import ScalarScript.Token.Basic

/-!
# Expressions

Model of `Expression` and its nodes, from `StringLiteral` to `IndexExpression`, and of
`BinaryOperator` and `UnaryOperator`.

The tree of an expression. Literals hold decoded values and nothing of their spelling. A node has
the position of the token it stands for, or none where the tree came from a document; positions
say nothing about meaning, so `same` leaves them out.

* A binary node stands at its operator, a method call at the method's name, an index at its
  bracket, and every other node at its first token. Parentheses leave no node.
* Names and the leaf data of character, integer and truth-value nodes are plain data, since a
  document may put anything there; the parser writes texts, numbers and truth values.

Result: `positions_mapPositions`.
-/

namespace ScalarScript

/-- The six comparisons (`COMPARISON_OPERATORS`). -/
inductive Comparison where
  | equal
  | notEqual
  | greater
  | greaterEqual
  | less
  | lessEqual
deriving DecidableEq, Repr

namespace Comparison

def all : List Comparison := [.equal, .notEqual, .greater, .greaterEqual, .less, .lessEqual]

def spelling : Comparison → String
  | equal => "=="
  | notEqual => "!="
  | greater => ">"
  | greaterEqual => ">="
  | less => "<"
  | lessEqual => "<="

/-- Whether a comparison holds of two values in this order. -/
def holds : Comparison → Ordering → Bool
  | equal, o => o == .eq
  | notEqual, o => o != .eq
  | less, o => o == .lt
  | lessEqual, o => o != .gt
  | greater, o => o == .gt
  | greaterEqual, o => o != .lt

end Comparison

/-- The operators between two operands. -/
inductive BinaryOperator where
  | add
  | subtract
  | compare (c : Comparison)
deriving DecidableEq, Repr

namespace BinaryOperator

def all : List BinaryOperator := .add :: .subtract :: Comparison.all.map .compare

def spelling : BinaryOperator → String
  | add => "+"
  | subtract => "-"
  | compare c => c.spelling

/-- The operator with a given spelling. -/
def ofText? (t : Text) : Option BinaryOperator := all.find? fun o => t == Text.of o.spelling

end BinaryOperator

/-- The operators before one operand. -/
inductive UnaryOperator where
  | negate
  | not
deriving DecidableEq, Repr

namespace UnaryOperator

def all : List UnaryOperator := [.negate, .not]

def spelling : UnaryOperator → String
  | negate => "-"
  | not => "!"

/-- The operator with a given spelling. -/
def ofText? (t : Text) : Option UnaryOperator := all.find? fun o => t == Text.of o.spelling

end UnaryOperator

/-- An expression (`Expression`). -/
inductive Expr where
  | string (value : ScalarString) (pos : Option Position)
  | char (value : Datum) (pos : Option Position)
  | int (value : Datum) (pos : Option Position)
  | bool (value : Datum) (pos : Option Position)
  | var (name : Datum) (pos : Option Position)
  | binary (op : BinaryOperator) (left right : Expr) (pos : Option Position)
  | unary (op : UnaryOperator) (operand : Expr) (pos : Option Position)
  | method (target : Expr) (name : Datum) (arguments : List Expr) (pos : Option Position)
  | call (name : Datum) (arguments : List Expr) (pos : Option Position)
  | index (target index : Expr) (pos : Option Position)

namespace Expr

instance : Inhabited Expr := ⟨.bool .null none⟩

/-- The position of the root. -/
def position : Expr → Option Position
  | string _ pos | char _ pos | int _ pos | bool _ pos | var _ pos | binary _ _ _ pos
  | unary _ _ pos | method _ _ _ pos | call _ _ pos | index _ _ pos => pos

/-- The positions of all nodes: a node, then its operands in order. -/
def positions : Expr → List (Option Position)
  | string _ pos | char _ pos | int _ pos | bool _ pos | var _ pos => [pos]
  | binary _ left right pos => pos :: (left.positions ++ right.positions)
  | unary _ operand pos => pos :: operand.positions
  | method target _ arguments pos => pos :: (target.positions ++ listPositions arguments)
  | call _ arguments pos => pos :: listPositions arguments
  | index target i pos => pos :: (target.positions ++ i.positions)
where
  listPositions : List Expr → List (Option Position)
    | [] => []
    | e :: rest => e.positions ++ listPositions rest

/-- The tree with other positions. -/
def mapPositions (f : Option Position → Option Position) : Expr → Expr
  | string value pos => string value (f pos)
  | char value pos => char value (f pos)
  | int value pos => int value (f pos)
  | bool value pos => bool value (f pos)
  | var name pos => var name (f pos)
  | binary op left right pos => binary op (left.mapPositions f) (right.mapPositions f) (f pos)
  | unary op operand pos => unary op (operand.mapPositions f) (f pos)
  | method target name arguments pos =>
    method (target.mapPositions f) name (listMapPositions f arguments) (f pos)
  | call name arguments pos => call name (listMapPositions f arguments) (f pos)
  | index target i pos => index (target.mapPositions f) (i.mapPositions f) (f pos)
where
  listMapPositions (f : Option Position → Option Position) : List Expr → List Expr
    | [] => []
    | e :: rest => e.mapPositions f :: listMapPositions f rest

/-- The tree with no positions. -/
def withoutPositions (e : Expr) : Expr := e.mapPositions fun _ => none

/-- Equality of trees, positions left out. -/
def same : Expr → Expr → Bool
  | string s _, string t _ => s == t
  | char a _, char b _ => a.same b
  | int a _, int b _ => a.same b
  | bool a _, bool b _ => a.same b
  | var a _, var b _ => a.same b
  | binary o l r _, binary p m s _ => o == p && l.same m && r.same s
  | unary o e _, unary p f _ => o == p && e.same f
  | method t n as _, method u m bs _ => t.same u && n.same m && sameList as bs
  | call n as _, call m bs _ => n.same m && sameList as bs
  | index t i _, index u j _ => t.same u && i.same j
  | _, _ => false
where
  sameList : List Expr → List Expr → Bool
    | [], [] => true
    | a :: as, b :: bs => a.same b && sameList as bs
    | _, _ => false

theorem position_mapPositions (f : Option Position → Option Position) (e : Expr) :
    (e.mapPositions f).position = f e.position := by
  cases e <;> rfl

mutual

theorem positions_mapPositions (f : Option Position → Option Position) :
    ∀ e : Expr, (e.mapPositions f).positions = e.positions.map f
  | string .. | char .. | int .. | bool .. | var .. => rfl
  | binary _ left right _ => by
    simp [mapPositions, positions, positions_mapPositions f left, positions_mapPositions f right]
  | unary _ operand _ => by simp [mapPositions, positions, positions_mapPositions f operand]
  | method target _ arguments _ => by
    simp [mapPositions, positions, positions_mapPositions f target,
      listPositions_listMapPositions f arguments]
  | call _ arguments _ => by
    simp [mapPositions, positions, listPositions_listMapPositions f arguments]
  | index target i _ => by
    simp [mapPositions, positions, positions_mapPositions f target, positions_mapPositions f i]

theorem listPositions_listMapPositions (f : Option Position → Option Position) :
    ∀ es : List Expr,
      positions.listPositions (mapPositions.listMapPositions f es) =
        (positions.listPositions es).map f
  | [] => rfl
  | e :: rest => by
    simp [mapPositions.listMapPositions, positions.listPositions, positions_mapPositions f e,
      listPositions_listMapPositions f rest]

end

end Expr

end ScalarScript
