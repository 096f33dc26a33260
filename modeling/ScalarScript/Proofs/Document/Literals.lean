import ScalarScript.Proofs.Document.Restored

/-!
# The string literals of a script

Each literal comes with the number of expressions around it, for that decides how far to the right
it is written.

Result: **`Script.same_restored_literals_iff`**: a restored script is the same as before exactly if
its literals and its name are.
-/

namespace ScalarScript

/-- The string literals in an expression which has `depth` expressions around it, each with the
expressions around it. -/
def Expr.literals (depth : Nat) : Expr → List (Nat × ScalarString)
  | string value _ => [(depth, value)]
  | char _ _ | int _ _ | bool _ _ | var _ _ => []
  | binary _ left right _ => left.literals (depth + 1) ++ right.literals (depth + 1)
  | unary _ operand _ => operand.literals (depth + 1)
  | method target _ arguments _ => target.literals (depth + 1) ++ listLiterals (depth + 1) arguments
  | call _ arguments _ => listLiterals (depth + 1) arguments
  | index target i _ => target.literals (depth + 1) ++ i.literals (depth + 1)
where
  listLiterals (depth : Nat) : List Expr → List (Nat × ScalarString)
    | [] => []
    | e :: rest => e.literals depth ++ listLiterals depth rest

/-- The string literals in a statement. -/
def Statement.literals : Statement → List (Nat × ScalarString)
  | declare _ value _ | constant _ value _ | assign _ value _ => value.literals 0
  | indexAssign _ i value _ => i.literals 0 ++ value.literals 0
  | print value _ | expression value _ => value.literals 0

/-- The string literals in a script. -/
def Script.literals (script : Script) : List (Nat × ScalarString) :=
  script.statements.flatMap Statement.literals

section Literals

variable {g : ScalarString → ScalarString}

theorem Expr.restoredList_eq_iff {es : List Expr} {depth : Nat}
    (h : ∀ e ∈ es, e.restored g = e.withoutPositions ↔ ∀ l ∈ e.literals depth, g l.2 = l.2) :
    restored.restoredList g es = mapPositions.listMapPositions (fun _ => none) es ↔
      ∀ l ∈ literals.listLiterals depth es, g l.2 = l.2 := by
  induction es with
  | nil => simp [restored.restoredList, mapPositions.listMapPositions, literals.listLiterals]
  | cons e es ih =>
    obtain ⟨he, hes⟩ := List.forall_mem_cons.mp h
    rw [restored.restoredList, mapPositions.listMapPositions, literals.listLiterals,
      List.cons.injEq, List.forall_mem_append, ih hes, ← he, withoutPositions]

theorem Expr.WellFormed.restored_eq_iff {e : Expr} (h : e.WellFormed) (depth : Nat) :
    e.restored g = e.withoutPositions ↔ ∀ l ∈ e.literals depth, g l.2 = l.2 := by
  induction h generalizing depth with
  | string s =>
    show Expr.string (g s) none = Expr.string s none ↔ ∀ l ∈ [(depth, s)], g l.2 = l.2
    rw [Expr.string.injEq, List.forall_mem_singleton]
    exact and_iff_left rfl
  | char | int | bool | var => exact ⟨fun _ _ => nofun, fun _ => rfl⟩
  | binary op _ _ _ hl hr =>
    rw [literals, List.forall_mem_append, ← hl (depth + 1), ← hr (depth + 1), Expr.restored,
      withoutPositions, mapPositions, Expr.binary.injEq]
    exact ⟨fun h => ⟨h.2.1, h.2.2.1⟩, fun h => ⟨rfl, h.1, h.2, rfl⟩⟩
  | unary op _ _ he =>
    rw [literals, ← he (depth + 1), Expr.restored, withoutPositions, mapPositions, Expr.unary.injEq]
    exact ⟨fun h => h.2.1, fun h => ⟨rfl, h, rfl⟩⟩
  | method _ _ _ _ ht ha =>
    have ha := Expr.restoredList_eq_iff fun e he => ha e he (depth + 1)
    rw [literals, List.forall_mem_append, ← ht (depth + 1), ← ha, Expr.restored, withoutPositions,
      mapPositions, Expr.method.injEq]
    exact ⟨fun h => ⟨h.1, h.2.2.1⟩, fun h => ⟨h.1, rfl, h.2, rfl⟩⟩
  | call _ _ _ ha =>
    have ha := Expr.restoredList_eq_iff fun e he => ha e he (depth + 1)
    rw [literals, ← ha, Expr.restored, withoutPositions, mapPositions, Expr.call.injEq]
    exact ⟨fun h => h.2.1, fun h => ⟨rfl, h, rfl⟩⟩
  | index _ _ _ ht hi =>
    rw [literals, List.forall_mem_append, ← ht (depth + 1), ← hi (depth + 1), Expr.restored,
      withoutPositions, mapPositions, Expr.index.injEq]
    exact ⟨fun h => ⟨h.1, h.2.1⟩, fun h => ⟨h.1, h.2, rfl⟩⟩

theorem Statement.WellFormed.restored_eq_iff {s : Statement} (h : s.WellFormed) :
    s.restored g = s.withoutPositions ↔ ∀ l ∈ s.literals, g l.2 = l.2 := by
  cases h with
  | declare _ _ he =>
    rw [literals, ← he.restored_eq_iff 0, Statement.restored, withoutPositions, mapPositions,
      Statement.declare.injEq]
    exact ⟨fun h => h.2.1, fun h => ⟨rfl, h, rfl⟩⟩
  | constant _ _ he =>
    rw [literals, ← he.restored_eq_iff 0, Statement.restored, withoutPositions, mapPositions,
      Statement.constant.injEq]
    exact ⟨fun h => h.2.1, fun h => ⟨rfl, h, rfl⟩⟩
  | assign _ _ he =>
    rw [literals, ← he.restored_eq_iff 0, Statement.restored, withoutPositions, mapPositions,
      Statement.assign.injEq]
    exact ⟨fun h => h.2.1, fun h => ⟨rfl, h, rfl⟩⟩
  | indexAssign _ _ hi he =>
    rw [literals, List.forall_mem_append, ← hi.restored_eq_iff 0, ← he.restored_eq_iff 0,
      Statement.restored, withoutPositions, mapPositions, Statement.indexAssign.injEq]
    exact ⟨fun h => ⟨h.2.1, h.2.2.1⟩, fun h => ⟨rfl, h.1, h.2, rfl⟩⟩
  | print _ he =>
    rw [literals, ← he.restored_eq_iff 0, Statement.restored, withoutPositions, mapPositions,
      Statement.print.injEq]
    exact and_iff_left rfl
  | expression _ he =>
    rw [literals, ← he.restored_eq_iff 0, Statement.restored, withoutPositions, mapPositions,
      Statement.expression.injEq]
    exact and_iff_left rfl

/-- **A restored script is the same as before exactly if its literals and its name are.** -/
theorem Script.same_restored_literals_iff {ss : List Statement} {name name' : Text}
    (hs : ∀ s ∈ ss, s.WellFormed) :
    Script.same ⟨ss.map (Statement.restored g), .text name'⟩ ⟨ss, .text name⟩ = true ↔
      (∀ l ∈ Script.literals ⟨ss, .text name⟩, g l.2 = l.2) ∧ name' = name := by
  have hstatements : (∀ s ∈ ss, s.restored g = s.withoutPositions) ↔
      ∀ l ∈ Script.literals ⟨ss, .text name⟩, g l.2 = l.2 := by
    rw [Script.literals, List.forall_mem_flatMap]
    exact forall₂_congr fun s hmem => (hs s hmem).restored_eq_iff
  rw [Script.same_restored_iff hs, hstatements]

end Literals

end ScalarScript
