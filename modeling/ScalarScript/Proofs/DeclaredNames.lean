import ScalarScript.Proofs.IndexedAssignment

/-!
# Declared names

The names that a script declares are read off its statements, without running it: each `let` or
`const` adds its name, unless one that is the same is listed already. A run that succeeds adds
exactly these names to its scope. Whatever else a statement does, it binds only names that are bound
already, and no statement takes a name away.

* `ListsFirsts`: a list has each of some names once, in the order in which they come first.
* `Script.declaredKeys`: what the variables that a script declares are known by.

Results:
* `ofDatum?_eq_of_same`, `same_of_ofDatum?_eq`: data that are the same are the same variable's name,
  and the other way round.
* `ListsFirsts.addName`: listing one more name.
* `names_perform`: a statement that declares nothing leaves the names of the scope.
* `mem_names_perform_iff`, `mem_names_executeAll_iff`: the names behind a statement, and behind a
  run.
* `exists_key_of_executeAll`: what a successful run declares can be the name of a variable.
* **`declared_names_are_added`**: a run adds the declared names and no others.
-/

namespace ScalarScript

/-! ## Equal data as names -/

namespace Name

theorem ofDatum?_of_integer? {d : Datum} {n : Int} (h : d.integer? = some n) :
    ofDatum? d = some (.int n) := by
  cases d with
  | bool b | int m =>
    cases h
    rfl
  | float x =>
    have hx : x.toInt? = some n := h
    simp only [ofDatum?, hx]
  | null | text t | array items | object fields => cases h

/-- What a name is the name of: a text, nothing, a whole number in any form, or one other double. -/
theorem cases_of_ofDatum? {d : Datum} {key : Name} (h : ofDatum? d = some key) :
    (∃ t, d = .text t ∧ key = .text t) ∨ (d = .null ∧ key = .null) ∨
      (∃ n, d.integer? = some n ∧ key = .int n) ∨
      ∃ x, d = .float x ∧ x.toInt? = none ∧ key = .float x := by
  cases d with
  | text t =>
    cases h
    exact .inl ⟨t, rfl, rfl⟩
  | null =>
    cases h
    exact .inr (.inl ⟨rfl, rfl⟩)
  | bool b | int n =>
    cases h
    exact .inr (.inr (.inl ⟨_, rfl, rfl⟩))
  | float x =>
    cases hx : x.toInt? with
    | some n =>
      have hn : (Datum.float x).integer? = some n := hx
      cases (ofDatum?_of_integer? hn).symm.trans h
      exact .inr (.inr (.inl ⟨n, hn, rfl⟩))
    | none =>
      simp only [ofDatum?, hx] at h
      cases h
      exact .inr (.inr (.inr ⟨x, rfl, hx, rfl⟩))
  | array items | object fields => cases h

theorem same_of_integer? {a b : Datum} {n : Int} (ha : a.integer? = some n)
    (hb : b.integer? = some n) : a.same b = true := by
  cases a with
  | bool p | int p | float x =>
    cases b with
    | bool q | int q | float y => simp [Datum.same, ha, hb]
    | null | text t | array items | object fields => cases hb
  | null | text t | array items | object fields => cases ha

/-- Data that are the same are one name, or no names. -/
theorem ofDatum?_eq_of_same {a b : Datum} (h : a.same b = true) : ofDatum? a = ofDatum? b := by
  revert h
  fun_cases Datum.same a b with
  | case1 => exact fun _ => rfl
  | case2 t u =>
    intro h
    rw [eq_of_beq h]
  | case3 xs ys => exact fun _ => rfl
  | case4 xs ys => exact fun _ => rfl
  | case5 _ _ _ _ _ _ m n hm hn =>
    intro h
    rw [ofDatum?_of_integer? hm, ofDatum?_of_integer? hn, eq_of_beq h]
  | case6 x y =>
    intro h
    rw [eq_of_beq h]
  | case7 => exact nofun
  | case8 => exact nofun

/-- Data that are one name are the same. -/
theorem same_of_ofDatum?_eq {a b : Datum} {key : Name} (ha : ofDatum? a = some key)
    (hb : ofDatum? b = some key) : a.same b = true := by
  rcases cases_of_ofDatum? ha with
    ⟨t, rfl, rfl⟩ | ⟨rfl, rfl⟩ | ⟨n, hn, rfl⟩ | ⟨x, rfl, hx, rfl⟩ <;>
  rcases cases_of_ofDatum? hb with
    ⟨t', rfl, h⟩ | ⟨rfl, h⟩ | ⟨n', hn', h⟩ | ⟨x', rfl, hx', h⟩ <;> cases h
  · exact Datum.same_text_iff.mpr rfl
  · rfl
  · exact same_of_integer? hn hn'
  · simp [Datum.same, Datum.integer?, hx]

end Name

/-! ## Listing names -/

/-- A list has each of some names once, in the order in which they come first: its members stand
among the names at rising places, and in front of each name, or in its own place, stands a member
that it is the same as. -/
structure ListsFirsts (names listed : List Datum) : Prop where
  once : listed.Pairwise fun earlier later => later.same earlier = false
  ordered : ∃ firsts : List (Datum × Nat), firsts.Sublist names.zipIdx ∧
    firsts.map Prod.fst = listed ∧
    ∀ p ∈ names.zipIdx, ∃ q ∈ firsts, q.2 ≤ p.2 ∧ (q = p ∨ p.1.same q.1 = true)

theorem listsFirsts_nil : ListsFirsts [] [] := ⟨.nil, [], .slnil, rfl, nofun⟩

section Listing

variable {names listed : List Datum} {key : Name}

/-- One more name is listed at the end, unless it is the same as one that is listed. -/
theorem ListsFirsts.addName (h : ListsFirsts names listed) (name : Datum) :
    ListsFirsts (names ++ [name]) (Script.addName listed name) := by
  obtain ⟨hsome, firsts, hsub, hfirsts, hcover⟩ := h
  have hzip : (names ++ [name]).zipIdx = names.zipIdx ++ [(name, names.length)] := by
    rw [List.zipIdx_append, Nat.zero_add, List.zipIdx_singleton]
  have hplace : ∀ q ∈ firsts, q.2 ≤ names.length := fun q hq =>
    Nat.le_of_lt (List.snd_lt_of_mem_zipIdx (hsub.subset hq))
  unfold Script.addName
  split
  · next hseen =>
    obtain ⟨d, hd, hsame⟩ := List.any_eq_true.mp hseen
    rw [← hfirsts] at hd
    obtain ⟨q, hq, rfl⟩ := List.mem_map.mp hd
    refine ⟨hsome, firsts, hzip ▸ hsub.trans (List.sublist_append_left _ _), hfirsts, ?_⟩
    rw [hzip, List.forall_mem_append, List.forall_mem_singleton]
    exact ⟨hcover, q, hq, hplace q hq, .inr hsame⟩
  · next hnew =>
    have hnone : ∀ d ∈ listed, name.same d = false := by simpa using hnew
    refine ⟨?_, firsts ++ [(name, names.length)], hzip ▸ hsub.append_right _, ?_, ?_⟩
    · rw [List.pairwise_append]
      refine ⟨hsome, List.pairwise_singleton _ _, fun d hd e he => ?_⟩
      rw [List.mem_singleton.mp he]
      exact hnone d hd
    · rw [List.map_append, hfirsts]
      rfl
    · rw [hzip, List.forall_mem_append, List.forall_mem_singleton]
      refine ⟨fun p hp => ?_, (name, names.length), ?_, Nat.le_refl _, .inl rfl⟩
      · obtain ⟨q, hq, hle, hsame⟩ := hcover p hp
        exact ⟨q, List.mem_append_left _ hq, hle, hsame⟩
      · exact List.mem_append_right _ (List.mem_singleton_self _)

theorem ListsFirsts.foldl (h : ListsFirsts names listed) (rest : List Datum) :
    ListsFirsts (names ++ rest) (rest.foldl Script.addName listed) := by
  induction rest generalizing names listed with
  | nil => rwa [List.append_nil]
  | cons name rest ih =>
    rw [List.append_cons]
    exact ih (h.addName name)

theorem ListsFirsts.subset (h : ListsFirsts names listed) : listed ⊆ names := by
  obtain ⟨-, firsts, hsub, rfl, -⟩ := h
  intro d hd
  obtain ⟨q, hq, rfl⟩ := List.mem_map.mp hd
  exact List.fst_mem_of_mem_zipIdx (hsub.subset hq)

/-- The variables of the listed names are those of all the names. -/
theorem ListsFirsts.mem_keys_iff (h : ListsFirsts names listed) :
    key ∈ listed.filterMap Name.ofDatum? ↔ key ∈ names.filterMap Name.ofDatum? := by
  simp only [List.mem_filterMap]
  constructor
  · rintro ⟨d, hd, hkey⟩
    exact ⟨d, h.subset hd, hkey⟩
  · obtain ⟨-, firsts, hsub, rfl, hcover⟩ := h
    rintro ⟨d, hd, hkey⟩
    obtain ⟨i, hi⟩ := List.mem_iff_getElem?.mp hd
    obtain ⟨q, hq, -, rfl | hsame⟩ := hcover (d, i) (List.mem_zipIdx_iff_getElem?.mpr hi)
    · exact ⟨d, List.mem_map_of_mem hq, hkey⟩
    · exact ⟨q.1, List.mem_map_of_mem hq, (Name.ofDatum?_eq_of_same hsame).symm.trans hkey⟩

/-- No two listed names are those of one variable. -/
theorem ListsFirsts.nodup_keys (h : ListsFirsts names listed) :
    (listed.filterMap Name.ofDatum?).Nodup := by
  refine List.pairwise_filterMap.mpr (h.once.imp fun {d e} hne key hd other he hkey => ?_)
  subst hkey
  rw [Name.same_of_ofDatum?_eq he hd] at hne
  cases hne

end Listing

namespace Script

/-- The names in the declarations of a script, in order. -/
def declarations (s : Script) : List Datum := s.statements.filterMap Statement.declared?

/-- What the variables that a script declares are known by. -/
def declaredKeys (s : Script) : List Name := s.declared.filterMap Name.ofDatum?

theorem listsFirsts_declared (s : Script) : ListsFirsts s.declarations s.declared :=
  listsFirsts_nil.foldl s.declarations

theorem mem_declaredKeys_iff {s : Script} {key : Name} :
    key ∈ s.declaredKeys ↔
      ∃ t ∈ s.statements, t.declared?.bind Name.ofDatum? = some key := by
  rw [declaredKeys, s.listsFirsts_declared.mem_keys_iff, declarations]
  simp only [List.mem_filterMap, Option.bind_eq_some_iff]
  constructor
  · rintro ⟨d, ⟨t, ht, hd⟩, hkey⟩
    exact ⟨t, ht, d, hd, hkey⟩
  · rintro ⟨t, ht, d, hd, hkey⟩
    exact ⟨d, ⟨t, ht, hd⟩, hkey⟩

end Script

/-! ## Names along a run -/

theorem Scope.mem_names_set_iff {scope : Scope} {name other : Name} {v : Value} :
    other ∈ (scope.set name v).names ↔ other ∈ scope.names ∨ other = name := by
  rw [mem_names_iff, mem_names_iff, get?_set]
  split
  · next h => simp [h]
  · next h => simp [h]

theorem mem_names_of_assignable {state : State} {name : Datum} {pos : Option Position} {key : Name}
    {v : Value} (h : assignable state name pos = .ok (key, v)) : key ∈ state.scope.names := by
  obtain ⟨-, hbound, -⟩ := assignable_eq_ok_iff.mp h
  rw [Scope.mem_names_iff, hbound]
  rfl

/-- A change that is planned without a declaration leaves the names. -/
theorem Planned.names_apply {value : Expr → Traced Log.Record Value} {state : State}
    {s : Statement} {c : Change} (h : Planned value state s c) (hs : s.declared? = none) :
    (c.apply state).scope.names = state.scope.names := by
  cases h with
  | declare | constant => cases hs
  | assign ht => exact Scope.names_set_of_mem (mem_names_of_assignable ht) _
  | indexAssign ht => exact Scope.names_set_of_mem (mem_names_of_assignable ht) _
  | print | expression => rfl

/-- A planned change adds the name that is declared. -/
theorem Planned.mem_names_apply_iff {value : Expr → Traced Log.Record Value} {state : State}
    {s : Statement} {c : Change} (h : Planned value state s c) {key : Name} :
    key ∈ (c.apply state).scope.names ↔
      key ∈ state.scope.names ∨ s.declared?.bind Name.ofDatum? = some key := by
  cases hs : s.declared? with
  | none =>
    rw [h.names_apply hs]
    simp
  | some name =>
    cases h with
    | declare _ hk | constant _ hk =>
      cases hs
      rw [Option.bind_some, hk, Option.some.injEq, eq_comm (b := key)]
      exact Scope.mem_names_set_iff
    | assign | indexAssign | print | expression => cases hs

/-- What a planned change declares can be the name of a variable. -/
theorem Planned.exists_key {value : Expr → Traced Log.Record Value} {state : State}
    {s : Statement} {c : Change} (h : Planned value state s c) {name : Datum}
    (hs : s.declared? = some name) : ∃ key, Name.ofDatum? name = some key := by
  cases h with
  | declare _ hk | constant _ hk =>
    cases hs
    exact ⟨_, hk⟩
  | assign | indexAssign | print | expression => cases hs

namespace Engine

variable {engine : Engine} {state : State} {s : Statement} {key : Name}

/-- A statement that declares nothing leaves the names of the scope, whether or not it succeeds. -/
theorem names_perform (hs : s.declared? = none) :
    (engine.perform s state).state.scope.names = state.scope.names := by
  rcases engine.perform_cases s state with ⟨-, hsame⟩ | ⟨c, hc, hchange⟩
  · rw [hsame]
  · rw [hchange, hc.names_apply hs]

/-- A statement that succeeds adds the name that it declares. -/
theorem mem_names_perform_iff (h : (engine.perform s state).result = .ok ()) :
    key ∈ (engine.perform s state).state.scope.names ↔
      key ∈ state.scope.names ∨ s.declared?.bind Name.ofDatum? = some key := by
  obtain ⟨c, hc⟩ := perform_eq_ok_iff.mp h
  rw [(perform_of_planned hc).2, hc.mem_names_apply_iff]

/-- A run that succeeds adds the names that its statements declare. -/
theorem mem_names_executeAll_iff {name : Datum} {final : State} {ss : List Statement}
    (h : (engine.executeAll name state ss).result = .ok final) :
    key ∈ final.scope.names ↔
      key ∈ state.scope.names ∨ ∃ s ∈ ss, s.declared?.bind Name.ofDatum? = some key := by
  induction ss generalizing state with
  | nil =>
    cases h
    simp
  | cons s ss ih =>
    rw [executeAll_cons, Traced.result_bind_eq_ok_iff] at h
    obtain ⟨next, hstep, h⟩ := h
    obtain ⟨hs, rfl⟩ := executeReported_eq_ok_iff.mp hstep
    simp only [ih h, mem_names_perform_iff hs, or_assoc, List.mem_cons, exists_eq_or_imp]

/-- What the statements of a successful run declare can be names of variables. -/
theorem exists_key_of_executeAll {name : Datum} {final : State} {ss : List Statement}
    (h : (engine.executeAll name state ss).result = .ok final) {d : Datum}
    (hd : d ∈ ss.filterMap Statement.declared?) : ∃ key, Name.ofDatum? d = some key := by
  induction ss generalizing state with
  | nil => cases hd
  | cons s ss ih =>
    rw [executeAll_cons, Traced.result_bind_eq_ok_iff] at h
    obtain ⟨next, hstep, h⟩ := h
    rw [List.filterMap_cons] at hd
    split at hd
    · exact ih h hd
    · next hs =>
      rcases List.mem_cons.mp hd with rfl | hd
      · obtain ⟨c, hc⟩ := perform_eq_ok_iff.mp (executeReported_eq_ok_iff.mp hstep).1
        exact hc.exists_key hs
      · exact ih h hd

/-- **A run adds the declared names and no others.** The declared names of a script are those in its
declarations, each once and in the order of first declaration, and no two of them are one variable.
Where a run succeeds, each of them is the name of a variable, and the names in its final scope are
those it started with and the declared ones. A statement that is no declaration leaves the names of
the scope in each state, whatever it evaluates and calls, and whether or not it succeeds. -/
theorem declared_names_are_added (engine : Engine) :
    (∀ script : Script, ListsFirsts script.declarations script.declared ∧
      script.declaredKeys.Nodup) ∧
    (∀ (script : Script) (scope : Scope) (final : State),
      (engine.execute script scope).result = .ok final →
      (∀ name ∈ script.declared, ∃ key, Name.ofDatum? name = some key) ∧
      ∀ key, key ∈ final.scope.names ↔ key ∈ scope.names ∨ key ∈ script.declaredKeys) ∧
    ∀ (state : State) (s : Statement), s.declared? = none →
      (engine.perform s state).state.scope.names = state.scope.names := by
  refine ⟨fun script => ⟨script.listsFirsts_declared, script.listsFirsts_declared.nodup_keys⟩,
    fun script scope final h => ⟨fun name hname => ?_, fun key => ?_⟩,
    fun state s => names_perform⟩
  · have hall : (engine.executeAll script.name (.start scope) script.statements).result =
      .ok final := h
    exact exists_key_of_executeAll hall (script.listsFirsts_declared.subset hname)
  · have hall : (engine.executeAll script.name (.start scope) script.statements).result =
      .ok final := h
    rw [Script.mem_declaredKeys_iff]
    exact mem_names_executeAll_iff hall

/-! ### A name that is declared twice, beside one that was there before -/

/-- `let b = 1; const a = b; b = 2; let b = "c";` -/
def declaresTwice : Script where
  statements :=
    [.declare (.ofString "b") (.int (.int 1) none) none,
      .constant (.ofString "a") (.var (.ofString "b") none) none,
      .assign (.ofString "b") (.int (.int 2) none) none,
      .declare (.ofString "b") (.string (.ofScalars ['c']) none) none]
  name := .text Script.defaultName

/-- A scope that binds `z`. -/
def bindsZ : Scope := Scope.empty.set (.text (Text.of "z")) (.bool true)

/-- The name that is declared twice is listed once, in front of the other one; the run adds both
names to the one that was bound. -/
theorem declared_names_are_added_of_twice :
    declaresTwice.declaredKeys = [.text (Text.of "b"), .text (Text.of "a")] ∧
    ListsFirsts declaresTwice.declarations declaresTwice.declared ∧
    (∃ final, ((new {}).execute declaresTwice bindsZ).result = .ok final ∧
      (∀ name ∈ declaresTwice.declared, ∃ key, Name.ofDatum? name = some key) ∧
      ∀ key, key ∈ final.scope.names ↔
        key ∈ bindsZ.names ∨ key ∈ declaresTwice.declaredKeys) ∧
    ((new {}).perform (.assign (.ofString "b") (.int (.int 2) none) none)
      (.start bindsZ)).state.scope.names = bindsZ.names := by
  obtain ⟨hlists, hrun, hother⟩ := declared_names_are_added (new {})
  exact ⟨rfl, (hlists declaresTwice).1, ⟨_, rfl, hrun declaresTwice bindsZ _ rfl⟩,
    hother (.start bindsZ) (.assign (.ofString "b") (.int (.int 2) none) none) rfl⟩

end Engine

end ScalarScript
