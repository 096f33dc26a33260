import ScalarScript.Syntax.Expr

/-!
# Scripts

Model of `Statement` and its kinds, and of `Script` with `Script.variables`.

A script is a list of statements and a name. A statement declares a variable or a constant, rebinds
a variable, replaces one scalar of a string variable, prints, or evaluates an expression for its
effects alone. Its position is that of its first token.

Result: `positions_mapPositions` (changing positions changes nothing else in their list).
-/

namespace ScalarScript

/-- A statement. -/
inductive Statement where
  | declare (name : Datum) (value : Expr) (pos : Option Position)
  | constant (name : Datum) (value : Expr) (pos : Option Position)
  | assign (name : Datum) (value : Expr) (pos : Option Position)
  | indexAssign (name : Datum) (index value : Expr) (pos : Option Position)
  | print (value : Expr) (pos : Option Position)
  | expression (value : Expr) (pos : Option Position)

namespace Statement

/-- The position of the first token. -/
def position : Statement → Option Position
  | declare _ _ pos | constant _ _ pos | assign _ _ pos | indexAssign _ _ _ pos | print _ pos
  | expression _ pos => pos

/-- The expressions of a statement in the order of evaluation. -/
def expressions : Statement → List Expr
  | declare _ value _ | constant _ value _ | assign _ value _ | print value _
  | expression value _ => [value]
  | indexAssign _ index value _ => [index, value]

/-- The positions of a statement and all nodes in it. -/
def positions (s : Statement) : List (Option Position) :=
  s.position :: s.expressions.flatMap Expr.positions

/-- The name that a statement introduces. -/
def declared? : Statement → Option Datum
  | declare name _ _ | constant name _ _ => some name
  | _ => none

/-- The statement with other positions. -/
def mapPositions (f : Option Position → Option Position) : Statement → Statement
  | declare name value pos => declare name (value.mapPositions f) (f pos)
  | constant name value pos => constant name (value.mapPositions f) (f pos)
  | assign name value pos => assign name (value.mapPositions f) (f pos)
  | indexAssign name index value pos =>
    indexAssign name (index.mapPositions f) (value.mapPositions f) (f pos)
  | print value pos => print (value.mapPositions f) (f pos)
  | expression value pos => expression (value.mapPositions f) (f pos)

/-- Equality of statements, positions left out. -/
def same : Statement → Statement → Bool
  | declare n e _, declare m f _ => n.same m && e.same f
  | constant n e _, constant m f _ => n.same m && e.same f
  | assign n e _, assign m f _ => n.same m && e.same f
  | indexAssign n i e _, indexAssign m j f _ => n.same m && i.same j && e.same f
  | print e _, print f _ => e.same f
  | expression e _, expression f _ => e.same f
  | _, _ => false

theorem positions_mapPositions (f : Option Position → Option Position) (s : Statement) :
    (s.mapPositions f).positions = s.positions.map f := by
  cases s <;> simp [mapPositions, positions, position, expressions, Expr.positions_mapPositions]

end Statement

/-- A script: statements in order, and a name to report it by. -/
structure Script where
  statements : List Statement
  name : Datum

namespace Script

/-- The name of a script that was given none. -/
def defaultName : Text := Text.of "<script>"

/-- Adds a name to those seen, unless it is among them. -/
def addName (seen : List Datum) (name : Datum) : List Datum :=
  if seen.any name.same then seen else seen ++ [name]

/-- The names that statements introduce, each once, in the order of first declaration. -/
def declaredNames (statements : List Statement) : List Datum :=
  (statements.filterMap Statement.declared?).foldl addName []

/-- The names that a script introduces (`Script.variables`). -/
def declared (s : Script) : List Datum := declaredNames s.statements

/-- The positions of all statements and nodes, in order. -/
def positions (s : Script) : List (Option Position) := s.statements.flatMap Statement.positions

/-- The script with other positions. -/
def mapPositions (f : Option Position → Option Position) (s : Script) : Script :=
  { s with statements := s.statements.map (Statement.mapPositions f) }

/-- The script with no positions. -/
def withoutPositions (s : Script) : Script := s.mapPositions fun _ => none

/-- Equality of scripts, positions left out. -/
def same (a b : Script) : Bool :=
  a.statements.length == b.statements.length &&
    (a.statements.zip b.statements).all (fun p => p.1.same p.2) && a.name.same b.name

theorem positions_mapPositions (f : Option Position → Option Position) (s : Script) :
    (s.mapPositions f).positions = s.positions.map f := by
  simp [positions, mapPositions, List.flatMap_map, List.map_flatMap,
    Statement.positions_mapPositions]

end Script

end ScalarScript
