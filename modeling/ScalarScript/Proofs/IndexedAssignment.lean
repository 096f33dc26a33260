import ScalarScript.Proofs.Steps
import ScalarScript.Proofs.StringView

/-!
# Assignments at an index

Strings never change: `x[i] = e` binds `x` to a new string, and whoever holds the old one keeps it.
The statement looks at the name, evaluates the index and the new scalar, and looks at the range of
the index last. `WritesAt` is all that it has to find before that.

Results:
* `names_set_of_mem`: a name that is bound again keeps its place among the names.
* `perform_writesAt_of_lt`, `perform_writesAt_of_not_lt`: the range of the index settles what
  becomes of a write.
* **`indexAssign_rebinds`**: when `x[i] = e` succeeds, and that it rebinds `x` and nothing else.
-/

namespace ScalarScript

/-- A name that is bound again keeps its place among the names. -/
theorem Scope.names_set_of_mem {scope : Scope} {name : Name} (h : name ∈ scope.names) (v : Value) :
    (scope.set name v).names = scope.names := by
  have hbound : scope.bindings.any (·.1 == name) = true := by
    obtain ⟨b, hb, rfl⟩ := List.mem_map.mp h
    exact List.any_eq_true.mpr ⟨b, hb, beq_self_eq_true _⟩
  rw [Scope.set, if_pos hbound, Scope.names, Scope.names, List.map_map]
  refine List.map_congr_left fun b _ => ?_
  show (if b.1 = name then (name, v) else b).1 = b.1
  split
  · next hb => exact hb.symm
  · rfl

/-- One bound name has got a new value, and nothing else of the state is different. -/
structure State.ReboundTo (before : State) (key : Name) (v : Value) (after : State) : Prop where
  value : after.scope.get? key = some v
  others : ∀ other, other ≠ key → after.scope.get? other = before.scope.get? other
  names : after.scope.names = before.scope.names
  constants : after.constants = before.constants
  output : after.output = before.output

theorem State.reboundTo_rebind {state : State} {key : Name} (h : key ∈ state.scope.names)
    (v : Value) : state.ReboundTo key v (state.rebind key v) where
  value := by rw [State.rebind, Scope.get?_set, if_pos rfl]
  others other ho := by rw [State.rebind, Scope.get?_set, if_neg ho]
  names := Scope.names_set_of_mem h v
  constants := rfl
  output := rfl

namespace Engine

/-- `x[i] = e` is a write at the index `k`: `x` is a variable with a string, `i` has an integer for
its value and `e` a string of one scalar. Whether the string has a scalar at `k` is left open. -/
structure WritesAt (engine : Engine) (state : State) (name : Datum) (i e : Expr) (key : Name)
    (s : ScalarString) (k : Int) (c : Char) : Prop where
  named : Name.ofDatum? name = some key
  holds : state.scope.get? key = some (.string s)
  unmarked : key ∉ state.constants
  index : (evaluate engine depth state.scope i).result = .ok (.int k)
  scalar : ∃ u : ScalarString, (evaluate engine depth state.scope e).result = .ok (.string u) ∧
    u.scalars = [c]

variable {engine : Engine} {state : State} {name : Datum} {i e : Expr} {key : Name}
  {s : ScalarString} {k : Int} {c : Char}

theorem WritesAt.assignable_eq_ok (h : engine.WritesAt state name i e key s k c)
    (pos : Option Position) : assignable state name pos = .ok (key, .string s) :=
  assignable_eq_ok_iff.mpr ⟨h.named, h.holds, h.unmarked⟩

/-- What a plan has found is a write in range. -/
theorem planned_indexAssign_iff {pos : Option Position} {change : Change} :
    Planned (evaluate engine depth state.scope) state (.indexAssign name i e pos) change ↔
      ∃ key s k c, engine.WritesAt state name i e key s k c ∧ (0 ≤ k ∧ k < s.length) ∧
        change = .replace name key k (.ofScalars (s.scalars.set k.toNat c)) := by
  constructor
  · intro h
    cases h with
    | @indexAssign _ _ _ _ key s u t k c ht hi he hu hr =>
      obtain ⟨hk, hs, hc⟩ := assignable_eq_ok_iff.mp ht
      rw [ScalarString.replacedAt_eq_ite] at hr
      split at hr
      · next hrange =>
        cases hr
        exact ⟨key, s, k, c, ⟨hk, hs, hc, hi, u, he, hu⟩, hrange, rfl⟩
      · cases hr
  · rintro ⟨key, s, k, c, h, hrange, rfl⟩
    obtain ⟨u, he, hu⟩ := h.scalar
    refine .indexAssign (h.assignable_eq_ok pos) h.index he hu ?_
    rw [ScalarString.replacedAt_eq_ite, if_pos hrange]

/-- A write in range rebinds the variable. -/
theorem perform_writesAt_of_lt (h : engine.WritesAt state name i e key s k c)
    (hrange : 0 ≤ k ∧ k < s.length) (pos : Option Position) :
    state.ReboundTo key (.string (.ofScalars (s.scalars.set k.toNat c)))
      (engine.perform (.indexAssign name i e pos) state).state := by
  have hbound : key ∈ state.scope.names := Scope.mem_names_iff.mpr (by rw [h.holds]; rfl)
  have hplanned : Planned (evaluate engine depth state.scope) state (.indexAssign name i e pos) _ :=
    planned_indexAssign_iff.mpr ⟨key, s, k, c, h, hrange, rfl⟩
  rw [(perform_of_planned hplanned).2]
  exact State.reboundTo_rebind hbound _

/-- A write out of range fails with that. -/
theorem perform_writesAt_of_not_lt (h : engine.WritesAt state name i e key s k c)
    (hrange : ¬ (0 ≤ k ∧ k < s.length)) (pos : Option Position) :
    (engine.perform (.indexAssign name i e pos) state).result =
      .error (.at_ (.string (.indexOutOfRange k s.length)) pos) := by
  obtain ⟨u, he, hu⟩ := h.scalar
  have hreplace : replaceScalar s k c pos =
      .error (.at_ (.string (.indexOutOfRange k s.length)) pos) := by
    rw [replaceScalar, ScalarString.replacedAt_eq_ite, if_neg hrange]
    rfl
  have hplan : (engine.plan state (.indexAssign name i e pos)).result =
      .error (.at_ (.string (.indexOutOfRange k s.length)) pos) := by
    refine Except.mapError_eq_error_iff.mpr
      ⟨.at_ (.string (.indexOutOfRange k s.length)) pos, ?_, rfl⟩
    refine Traced.result_bind_eq_error_iff.mpr (.inr ⟨_, h.assignable_eq_ok pos, ?_⟩)
    refine Traced.result_bind_eq_error_iff.mpr (.inr ⟨s, rfl, ?_⟩)
    refine Traced.result_bind_eq_error_iff.mpr (.inr ⟨_, h.index, ?_⟩)
    refine Traced.result_bind_eq_error_iff.mpr (.inr ⟨k, rfl, ?_⟩)
    refine Traced.result_bind_eq_error_iff.mpr (.inr ⟨_, he, ?_⟩)
    refine Traced.result_bind_eq_error_iff.mpr
      (.inr ⟨c, singleScalar_eq_ok_iff.mpr ⟨u, rfl, hu⟩, ?_⟩)
    exact Traced.result_bind_eq_error_iff.mpr (.inl hreplace)
  rw [perform_eq, result_commit, hplan]
  rfl

/-- **An assignment at an index rebinds a variable, and does nothing else.** It succeeds exactly if
the name is a variable with a string, the index an integer and the new value a string of one scalar,
and the index is in the range of the string. Then the name has the string with that scalar at the
index, as long as the old one; the other bindings, also those with the same old string, the
constants and the output are what they were. Where the index alone is wrong, the failure is caused
by that, and the state stays. -/
theorem indexAssign_rebinds (engine : Engine) (state : State) (name : Datum) (i e : Expr)
    (pos : Option Position) :
    ((engine.perform (.indexAssign name i e pos) state).result = .ok () ↔
      ∃ key s k c, engine.WritesAt state name i e key s k c ∧ 0 ≤ k ∧ k < s.length) ∧
    ∀ key s k c, engine.WritesAt state name i e key s k c →
      (0 ≤ k ∧ k < s.length → ∃ t : ScalarString, t.scalars = s.scalars.set k.toNat c ∧
        t.length = s.length ∧
        state.ReboundTo key (.string t)
          (engine.perform (.indexAssign name i e pos) state).state) ∧
      (¬ (0 ≤ k ∧ k < s.length) → ∃ error : EvalError,
        (engine.perform (.indexAssign name i e pos) state).result = .error (.eval error) ∧
        error.fault.cause = some (.string (.indexOutOfRange k s.length)) ∧
        error.position = pos ∧
        (engine.perform (.indexAssign name i e pos) state).state = state) := by
  refine ⟨?_, fun key s k c h => ⟨fun hrange => ?_, fun hrange => ?_⟩⟩
  · rw [perform_eq_ok_iff]
    constructor
    · rintro ⟨change, hchange⟩
      obtain ⟨key, s, k, c, h, hrange, -⟩ := planned_indexAssign_iff.mp hchange
      exact ⟨key, s, k, c, h, hrange⟩
    · rintro ⟨key, s, k, c, h, hrange⟩
      exact ⟨_, planned_indexAssign_iff.mpr ⟨key, s, k, c, h, hrange, rfl⟩⟩
  · refine ⟨.ofScalars (s.scalars.set k.toNat c), ScalarString.scalars_ofScalars _, ?_,
      perform_writesAt_of_lt h hrange pos⟩
    rw [ScalarString.length_ofScalars, List.length_set, s.length_eq]
  · have herror := perform_writesAt_of_not_lt h hrange pos
    exact ⟨_, herror, rfl, rfl, (perform_error herror).1⟩

/-! ### A string that two variables hold -/

/-- Two variables with one string, whose second scalar takes two bytes. -/
def sharedString : State :=
  ⟨⟨[(.text (Text.of "x"), .string (.ofScalars ['a', 'é'])),
    (.text (Text.of "y"), .string (.ofScalars ['a', 'é']))]⟩, [], []⟩

/-- `x[k] = "z"`. -/
def writeLetter (k : Int) : Statement :=
  .indexAssign (.text (Text.of "x")) (.int (.int k) none) (.string (.ofScalars ['z']) none)
    (some ⟨1, 1⟩)

theorem writesAt_sharedString (k : Int) :
    (new {}).WritesAt sharedString (.text (Text.of "x")) (.int (.int k) none)
      (.string (.ofScalars ['z']) none) (.text (Text.of "x")) (.ofScalars ['a', 'é']) k 'z' where
  named := rfl
  holds := rfl
  unmarked := nofun
  index := rfl
  scalar := ⟨.ofScalars ['z'], rfl, ScalarString.scalars_ofScalars _⟩

/-- The scalar of two bytes is replaced for `x` alone; before the first scalar there is nothing to
replace. -/
theorem indexAssign_rebinds_of_shared :
    ((new {}).perform (writeLetter 1) sharedString).result = .ok () ∧
      (∃ t : ScalarString, t.scalars = ['a', 'z'] ∧ sharedString.ReboundTo (.text (Text.of "x"))
        (.string t) ((new {}).perform (writeLetter 1) sharedString).state) ∧
      ∃ error : EvalError,
        ((new {}).perform (writeLetter (-1)) sharedString).result = .error (.eval error) ∧
        error.fault.cause = some (.string (.indexOutOfRange (-1) 2)) ∧
        ((new {}).perform (writeLetter (-1)) sharedString).state = sharedString := by
  have hin : (0 : Int) ≤ 1 ∧ (1 : Int) < (ScalarString.ofScalars ['a', 'é']).length := by decide
  have hout : ¬ ((0 : Int) ≤ -1 ∧ (-1 : Int) < (ScalarString.ofScalars ['a', 'é']).length) := by
    decide
  obtain ⟨hiff, hwrite⟩ := indexAssign_rebinds (new {}) sharedString (.text (Text.of "x"))
    (.int (.int 1) none) (.string (.ofScalars ['z']) none) (some ⟨1, 1⟩)
  obtain ⟨-, hrefused⟩ := indexAssign_rebinds (new {}) sharedString (.text (Text.of "x"))
    (.int (.int (-1)) none) (.string (.ofScalars ['z']) none) (some ⟨1, 1⟩)
  refine ⟨hiff.mpr ⟨_, _, _, _, writesAt_sharedString 1, hin⟩, ?_, ?_⟩
  · obtain ⟨t, ht, -, hstate⟩ := (hwrite _ _ _ _ (writesAt_sharedString 1)).1 hin
    exact ⟨t, ht.trans (by rw [ScalarString.scalars_ofScalars]; rfl), hstate⟩
  · obtain ⟨error, herror, hcause, -, hstate⟩ :=
      (hrefused _ _ _ _ (writesAt_sharedString (-1))).2 hout
    exact ⟨error, herror, hcause, hstate⟩

end Engine

end ScalarScript
