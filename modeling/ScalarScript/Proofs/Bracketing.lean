import Mathlib.Algebra.GroupWithZero.Nat
import ScalarScript.Proofs.Evaluation.Values

/-!
# Bracketing

A chain of sums of string variables can be bracketed in many ways, and each of them holds other
strings to the limit on the way: `(a + b) + c` looks at the length of `a + b`, and `a + (b + c)` at
that of `b + c`. What comes out is the same. A part of a chain is not longer than the whole, so no
sum on the way is too long unless the last one is, or would be; and joining is associative, for the
bytes as for the scalars.

A variable alone is not held to the limit: it takes a sum for a chain to be too long.

* `Bracketing`: a way to bracket a chain of variables, with its `names`, its `height` and the
  expression `expr` that it is.
* `Exceeds`: a limit is set, and a length is above it; `TooLong`: the failure of such a string.
* `Bracketing.Settles`: the two ways in which the evaluation of a bracketing can end.

Results:
* `scalars_joined`, `length_joined`, `joined_congr`: a bracketed join depends on the names alone.
* `Settles.join`: a sum settles if its sides do; `settles`: so every bracketing does.
* **`bracketing_irrelevant`**: two bracketings of a chain have one value, or are both too long.
-/

namespace ScalarScript

/-! ## Chains -/

/-- A way to bracket a chain of variables, with the places of its nodes. -/
inductive Bracketing where
  | operand (name : Text) (pos : Option Position)
  | join (left right : Bracketing) (pos : Option Position)

namespace Bracketing

/-- The chain: its variables in order. -/
def names : Bracketing → List Text
  | operand name _ => [name]
  | join left right _ => left.names ++ right.names

/-- The expression. -/
def expr : Bracketing → Expr
  | operand name pos => .var (.text name) pos
  | join left right pos => .binary .add left.expr right.expr pos

/-- The levels of the expression. -/
def height : Bracketing → Nat
  | operand _ _ => 1
  | join left right _ => max left.height right.height + 1

/-- The strings of the variables, joined as the brackets say. -/
def joined (value : Text → ScalarString) : Bracketing → ScalarString
  | operand name _ => value name
  | join left right _ => left.joined value ++ right.joined value

variable {value : Text → ScalarString}

theorem scalars_joined (b : Bracketing) :
    (b.joined value).scalars = b.names.flatMap fun x => (value x).scalars := by
  induction b with
  | operand name pos => exact (List.flatMap_singleton ..).symm
  | join left right pos ihl ihr =>
    rw [joined, ScalarString.scalars_append, ihl, ihr, names, List.flatMap_append]

theorem length_joined (b : Bracketing) :
    (b.joined value).length = (b.names.map fun x => (value x).length).sum := by
  induction b with
  | operand name pos => exact List.sum_singleton.symm
  | join left right pos ihl ihr =>
    rw [joined, ScalarString.length_append, ihl, ihr, names, List.map_append, List.sum_append]

/-- Joining is associative: only the chain counts. -/
theorem joined_congr {b b' : Bracketing} (h : b.names = b'.names) :
    b.joined value = b'.joined value :=
  ScalarString.ext_scalars (by rw [scalars_joined, scalars_joined, h])

end Bracketing

/-! ## Outcomes -/

/-- A limit is set, and a length is above it. -/
def Exceeds (limit : Option Nat) (length : Nat) : Prop := ∃ most, limit = some most ∧ most < length

theorem Exceeds.mono {limit : Option Nat} {m n : Nat} (h : Exceeds limit m) (hle : m ≤ n) :
    Exceeds limit n := by
  obtain ⟨most, hlimit, hlt⟩ := h
  exact ⟨most, hlimit, by omega⟩

/-- The failure of a string that is longer than the limit. -/
def TooLong (limit : Option Nat) (outcome : Except Failure Value) : Prop :=
  ∃ most length pos, limit = some most ∧ most < length ∧
    outcome = .error (.at_ (.tooLong length most) pos)

/-- A string is held to the limit. -/
theorem checkLength_cases (limit : Option Nat) (s : ScalarString) (pos : Option Position) :
    (¬ Exceeds limit s.length ∧ checkLength limit s pos = .ok (.string s)) ∨
      (Exceeds limit s.length ∧ TooLong limit (checkLength limit s pos)) := by
  cases limit with
  | none => exact .inl ⟨nofun, rfl⟩
  | some most =>
    by_cases h : most < s.length
    · exact .inr ⟨⟨most, rfl, h⟩, most, s.length, pos, rfl, h, if_pos h⟩
    · refine .inl ⟨?_, if_neg h⟩
      rintro ⟨_, ⟨⟩, hlt⟩
      exact h hlt

section Outcomes

variable {engine : Engine} {scope : Scope} {value : Text → ScalarString} {depth : Nat}

/-- A bracketing evaluates to the join of its strings, which is not too long unless it is a variable
alone; or the join is too long, and the evaluation fails with that. -/
def Bracketing.Settles (engine : Engine) (scope : Scope) (value : Text → ScalarString)
    (depth : Nat) (b : Bracketing) : Prop :=
  ((evaluate engine depth scope b.expr).result = .ok (.string (b.joined value)) ∧
    (2 ≤ b.names.length → ¬ Exceeds engine.settings.maxStringLength (b.joined value).length)) ∨
  (Exceeds engine.settings.maxStringLength (b.joined value).length ∧
    TooLong engine.settings.maxStringLength (evaluate engine depth scope b.expr).result)

namespace Bracketing

/-- **A sum settles if its sides do.** A side that is too long makes the whole too long. -/
theorem Settles.join {left right : Bracketing} (hl : left.Settles engine scope value depth)
    (hr : right.Settles engine scope value depth) (pos : Option Position) :
    (Bracketing.join left right pos).Settles engine scope value (depth + 1) := by
  rw [Settles, expr, result_evaluate_binary, joined, ScalarString.length_append]
  rcases hl with ⟨hl, -⟩ | ⟨hexceeds, most, length, p, hlimit, hlt, hl⟩
  · rcases hr with ⟨hr, -⟩ | ⟨hexceeds, most, length, p, hlimit, hlt, hr⟩
    · rw [hl, hr]
      exact (checkLength_cases engine.settings.maxStringLength
        (left.joined value ++ right.joined value) pos).imp (fun h => ⟨h.2, fun _ => h.1⟩) id
    · rw [hl, hr]
      exact .inr ⟨hexceeds.mono (Nat.le_add_left ..), most, length, p, hlimit, hlt, rfl⟩
  · rw [hl]
    exact .inr ⟨hexceeds.mono (Nat.le_add_right ..), most, length, p, hlimit, hlt, rfl⟩

/-- **Every bracketing of string variables settles**, where the depth is enough for it. -/
theorem settles (engine : Engine) {b : Bracketing} (hdepth : b.height ≤ depth)
    (hvalue : ∀ x ∈ b.names, scope.get? (.text x) = some (.string (value x))) :
    b.Settles engine scope value depth := by
  induction b generalizing depth with
  | operand name pos =>
    obtain ⟨depth, rfl⟩ := Nat.exists_eq_add_of_le' hdepth
    exact .inl ⟨evaluate_var depth (hvalue name List.mem_cons_self),
      fun h => absurd h (Nat.not_succ_le_self 1)⟩
  | join left right pos ihl ihr =>
    obtain ⟨depth, rfl⟩ := Nat.exists_eq_add_of_le' (Nat.le_of_add_left_le hdepth)
    have hsides : max left.height right.height ≤ depth := Nat.le_of_add_le_add_right hdepth
    obtain ⟨hleft, hright⟩ := List.forall_mem_append.mp hvalue
    exact (ihl (Nat.le_trans (Nat.le_max_left ..) hsides) hleft).join
      (ihr (Nat.le_trans (Nat.le_max_right ..) hsides) hright) pos

/-- A chain of two or more has the join as its value if the strings are not too long in all, and
fails if they are. -/
theorem outcome (engine : Engine) {b : Bracketing} (hmany : 2 ≤ b.names.length)
    (hdepth : b.height ≤ depth)
    (hvalue : ∀ x ∈ b.names, scope.get? (.text x) = some (.string (value x))) :
    (¬ Exceeds engine.settings.maxStringLength (b.names.map fun x => (value x).length).sum →
      (evaluate engine depth scope b.expr).result = .ok (.string (b.joined value))) ∧
    (Exceeds engine.settings.maxStringLength (b.names.map fun x => (value x).length).sum →
      TooLong engine.settings.maxStringLength (evaluate engine depth scope b.expr).result) := by
  rw [← length_joined]
  rcases settles engine hdepth hvalue with ⟨hok, hnot⟩ | ⟨hexceeds, hfails⟩
  · exact ⟨fun _ => hok, fun h => absurd h (hnot hmany)⟩
  · exact ⟨fun h => absurd hexceeds h, fun _ => hfails⟩

/-- **Bracketing is irrelevant**, also under a limit. Take a chain of two or more variables that are
bound to strings, and two bracketings of it. If there is no limit, or the strings have no more
scalars in all than it allows, both evaluate to one string, whose scalars are those of the strings
in order. If they have more, both fail, with an error that says that a string is too long. -/
theorem bracketing_irrelevant (engine : Engine) {scope : Scope} {value : Text → ScalarString}
    {b b' : Bracketing} (hnames : b.names = b'.names) (hmany : 2 ≤ b.names.length)
    (hvalue : ∀ x ∈ b.names, scope.get? (.text x) = some (.string (value x))) {depth depth' : Nat}
    (hdepth : b.height ≤ depth) (hdepth' : b'.height ≤ depth') :
    (¬ Exceeds engine.settings.maxStringLength (b.names.map fun x => (value x).length).sum →
      ∃ s : ScalarString, s.scalars = (b.names.flatMap fun x => (value x).scalars) ∧
        (evaluate engine depth scope b.expr).result = .ok (.string s) ∧
        (evaluate engine depth' scope b'.expr).result = .ok (.string s)) ∧
    (Exceeds engine.settings.maxStringLength (b.names.map fun x => (value x).length).sum →
      TooLong engine.settings.maxStringLength (evaluate engine depth scope b.expr).result ∧
        TooLong engine.settings.maxStringLength
          (evaluate engine depth' scope b'.expr).result) := by
  obtain ⟨hok, hfails⟩ := outcome engine hmany hdepth hvalue
  obtain ⟨hok', hfails'⟩ := outcome engine (hnames ▸ hmany) hdepth' (hnames ▸ hvalue)
  rw [← hnames, ← joined_congr hnames] at hok'
  rw [← hnames] at hfails'
  exact ⟨fun h => ⟨_, b.scalars_joined, hok h, hok' h⟩, fun h => ⟨hfails h, hfails' h⟩⟩

/-! ### Three strings -/

/-- `(a + b) + c`. -/
def leftFirst : Bracketing :=
  .join (.join (.operand (Text.of "a") none) (.operand (Text.of "b") none) none)
    (.operand (Text.of "c") none) none

/-- `a + (b + c)`. -/
def rightFirst : Bracketing :=
  .join (.operand (Text.of "a") none)
    (.join (.operand (Text.of "b") none) (.operand (Text.of "c") none) none) none

/-- The string of each variable; that of `b` has two scalars. -/
def spelled (x : Text) : ScalarString :=
  if x = Text.of "b" then .ofScalars ['é', 'b'] else .ofScalars x.chars

/-- The scope in which they are bound. -/
def spelledScope : Scope :=
  ⟨["a", "b", "c"].map fun x => (.text (Text.of x), .string (spelled (Text.of x)))⟩

/-- With four scalars allowed both bracketings have the value, and with three neither has. -/
theorem bracketing_irrelevant_of_three :
    (∃ s : ScalarString, s.scalars = ['a', 'é', 'b', 'c'] ∧
      (evaluate (.new { maxStringLength := some 4 }) 3 spelledScope leftFirst.expr).result =
        .ok (.string s) ∧
      (evaluate (.new { maxStringLength := some 4 }) 3 spelledScope rightFirst.expr).result =
        .ok (.string s)) ∧
    TooLong (some 3)
      (evaluate (.new { maxStringLength := some 3 }) 3 spelledScope leftFirst.expr).result ∧
    TooLong (some 3)
      (evaluate (.new { maxStringLength := some 3 }) 3 spelledScope rightFirst.expr).result := by
  have hvalue : ∀ x ∈ leftFirst.names,
      spelledScope.get? (.text x) = some (.string (spelled x)) :=
    List.forall_mem_cons.mpr ⟨rfl, List.forall_mem_cons.mpr ⟨rfl,
      List.forall_mem_singleton.mpr rfl⟩⟩
  have hmany : 2 ≤ leftFirst.names.length := Nat.le_succ 2
  have hfour : ¬ Exceeds (some 4) (leftFirst.names.map fun x => (spelled x).length).sum := by
    rintro ⟨most, ⟨⟩, hlt⟩
    exact absurd hlt (Nat.lt_irrefl 4)
  have hthree : Exceeds (some 3) (leftFirst.names.map fun x => (spelled x).length).sum :=
    ⟨3, rfl, Nat.lt_succ_self 3⟩
  have hnames : leftFirst.names = rightFirst.names := rfl
  obtain ⟨s, hs, hleft, hright⟩ := (bracketing_irrelevant (.new { maxStringLength := some 4 })
    hnames hmany hvalue (Nat.le_refl 3) (Nat.le_refl 3)).1 hfour
  exact ⟨⟨s, hs, hleft, hright⟩, (bracketing_irrelevant (.new { maxStringLength := some 3 })
    hnames hmany hvalue (Nat.le_refl 3) (Nat.le_refl 3)).2 hthree⟩

end Bracketing

end Outcomes

end ScalarScript
