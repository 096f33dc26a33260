import ScalarScript.Datum

/-!
# The state of an execution

Model of `ExecutionState`.

* A `Name` is what a variable is known by: text where a script was parsed, and any plain data but
  arrays and objects where it comes from a document. Numbers are one name if they are equal.
* A `Scope` binds names to values. Binding a name again replaces its value.
* A `State` is a scope, the names that are constants, and the lines printed so far.

Results: `get?_set`, `mem_names_iff`.
-/

namespace ScalarScript

/-- What a variable is known by. -/
inductive Name where
  | text (t : Text)
  | null
  | int (n : Int)
  | float (x : Binary64)
deriving DecidableEq, Repr

/-- The name that plain data stands for; arrays and objects cannot be names. -/
def Name.ofDatum? : Datum → Option Name
  | .text t => some (.text t)
  | .null => some .null
  | .bool b => some (.int (if b then 1 else 0))
  | .int n => some (.int n)
  | .float x => some (match x.toInt? with
    | some n => .int n
    | none => .float x)
  | .array _ | .object _ => none

/-- The bindings of names to values. -/
structure Scope where
  bindings : List (Name × Value)

namespace Scope

def empty : Scope := ⟨[]⟩

/-- The value of a name. -/
def get? (scope : Scope) (name : Name) : Option Value := scope.bindings.lookup name

/-- Binds a name, in its place if it is bound already. -/
def set (scope : Scope) (name : Name) (v : Value) : Scope :=
  if scope.bindings.any (·.1 == name) then
    ⟨scope.bindings.map fun b => if b.1 = name then (name, v) else b⟩
  else ⟨scope.bindings ++ [(name, v)]⟩

/-- The bound names. -/
def names (scope : Scope) : List Name := scope.bindings.map Prod.fst

/-- The scope of a list of bindings; the last of two with one name counts. -/
def ofList (bindings : List (Name × Value)) : Scope :=
  bindings.foldl (fun scope b => scope.set b.1 b.2) empty

theorem mem_names_iff {scope : Scope} {name : Name} :
    name ∈ scope.names ↔ (scope.get? name).isSome = true := by
  obtain ⟨bindings⟩ := scope
  simp only [names, get?]
  induction bindings with
  | nil => simp
  | cons b rest ih =>
    obtain ⟨n, v⟩ := b
    simp only [List.map_cons, List.mem_cons, List.lookup_cons]
    by_cases h : name = n
    · simp [h]
    · have hbeq : (name == n) = false := by simpa using h
      rw [ih, hbeq]
      simp [h]

theorem lookup_map_replace (bindings : List (Name × Value)) (name other : Name) (v : Value)
    (h : bindings.any (·.1 == name) = true) :
    (bindings.map fun b => if b.1 = name then (name, v) else b).lookup other =
      if other = name then some v else bindings.lookup other := by
  induction bindings with
  | nil => simp at h
  | cons b rest ih =>
    obtain ⟨n, w⟩ := b
    simp only [List.map_cons]
    by_cases hn : n = name
    · subst hn
      simp only [if_true, List.lookup_cons]
      by_cases ho : other = n
      · simp [ho]
      · have hbeq : (other == n) = false := by simpa using ho
        simp only [hbeq, ho, if_false]
        by_cases hr : rest.any (·.1 == n) = true
        · rw [ih hr, if_neg ho]
        · have : (rest.map fun b => if b.1 = n then (n, v) else b) = rest := by
            conv => rhs; rw [← List.map_id rest]
            refine List.map_congr_left fun b hb => if_neg fun e => ?_
            exact hr (List.any_eq_true.mpr ⟨b, hb, by simp [e]⟩)
          rw [this]
    · have hr : rest.any (·.1 == name) = true := by simpa [hn] using h
      simp only [hn, if_false, List.lookup_cons, ih hr]
      by_cases ho : other = n
      · subst ho
        simp [hn]
      · have hbeq : (other == n) = false := by simpa using ho
        simp [hbeq]

theorem get?_set (scope : Scope) (name other : Name) (v : Value) :
    (scope.set name v).get? other = if other = name then some v else scope.get? other := by
  unfold set get?
  split
  · next h => exact lookup_map_replace _ _ _ _ h
  · next h =>
    obtain ⟨bindings⟩ := scope
    simp only at h ⊢
    induction bindings with
    | nil =>
      simp only [List.nil_append, List.lookup_cons, List.lookup_nil]
      by_cases ho : other = name
      · simp [ho]
      · have hbeq : (other == name) = false := by simpa using ho
        simp [hbeq, ho]
    | cons b rest ih =>
      obtain ⟨n, w⟩ := b
      have hn : n ≠ name := by
        rintro rfl
        simp at h
      have hr : ¬ rest.any (·.1 == name) = true := by
        intro e
        simp [e] at h
      simp only [List.cons_append, List.lookup_cons, ih hr]
      by_cases ho : other = n
      · subst ho
        simp [hn]
      · have hbeq : (other == n) = false := by simpa using ho
        simp [hbeq]

end Scope

/-- The state of an execution (`ExecutionState`). -/
structure State where
  scope : Scope
  constants : List Name
  output : List Text

namespace State

/-- The state in which a script starts with a scope. -/
def start (scope : Scope) : State := ⟨scope, [], []⟩

/-- Binds a name, its mark left as it is. -/
def rebind (state : State) (name : Name) (v : Value) : State :=
  { state with scope := state.scope.set name v }

/-- Takes the mark of a constant off a name. -/
def unmark (state : State) (name : Name) : State :=
  { state with constants := state.constants.filter (· ≠ name) }

/-- Marks a name as a constant. -/
def mark (state : State) (name : Name) : State :=
  { state with
    constants := if name ∈ state.constants then state.constants else state.constants ++ [name] }

/-- Binds a variable, which takes the mark of a constant off its name. -/
def declare (state : State) (name : Name) (v : Value) : State :=
  (state.rebind name v).unmark name

/-- Binds a constant. -/
def fix (state : State) (name : Name) (v : Value) : State := (state.rebind name v).mark name

/-- Adds a printed line. -/
def print (state : State) (line : Text) : State := { state with output := state.output ++ [line] }

end State

end ScalarScript
