import ScalarScript.Proofs.FailedRun

/-!
# What statements do to the state

A statement that fails leaves the state as it was, and one that succeeds changes it as planned.
`Planned` is what a statement of each kind has found on the way to its plan: that the name may be
assigned to, and what the expressions have for values. `Change.binding?` is the one binding that a
change makes.

A script stops at its first failure. The state of an execution can also be carried on behind it:
`stateAfter` performs statements one after another, whether or not those before have failed. Where
none fails, it is the state in which the script ends.

Results:
* `plan_eq_ok_iff`: a plan succeeds exactly as `Planned` says.
* `get?_apply`, `mem_constants_apply_iff`: what a change does to the bindings and the constants.
* `perform_cases`: a statement fails and leaves the state, or makes its planned change;
  `perform_of_plan_eq`: in another state with the same plan, it makes the same change.
* `stateAfter_of_executeAll`: the state in which a successful run ends.
* **`stateAfter_induction`**: what every planned change keeps holds in every state of a run.
-/

namespace ScalarScript

/-! ## Checks -/

theorem declarable_eq_ok_iff {name : Datum} {key : Name} :
    declarable name = .ok key ↔ Name.ofDatum? name = some key := by
  unfold declarable
  split
  · next h => simp [h]
  · next h => simp [h]

theorem assignable_eq_ok_iff {state : State} {name : Datum} {pos : Option Position} {key : Name}
    {v : Value} :
    assignable state name pos = .ok (key, v) ↔
      Name.ofDatum? name = some key ∧ state.scope.get? key = some v ∧ key ∉ state.constants := by
  unfold assignable
  split
  · next h => simp [h]
  · next k hk =>
    rw [hk]
    split
    · next hv =>
      refine ⟨nofun, ?_⟩
      rintro ⟨⟨⟩, hsome, -⟩
      rw [hv] at hsome
      cases hsome
    · next w hw =>
      split
      · next hc =>
        refine ⟨nofun, ?_⟩
        rintro ⟨⟨⟩, -, hnot⟩
        exact absurd hc hnot
      · next hc =>
        constructor
        · intro h
          cases h
          exact ⟨rfl, hw, hc⟩
        · rintro ⟨⟨⟩, hv, -⟩
          rw [hw] at hv
          cases hv
          rfl

/-- A name that is a constant is refused. -/
theorem assignable_of_constant {state : State} {name : Datum} {key : Name} {v : Value}
    (hk : Name.ofDatum? name = some key) (hv : state.scope.get? key = some v)
    (hc : key ∈ state.constants) (pos : Option Position) :
    assignable state name pos = .error (.at_ (.constant name) pos) := by
  simp only [assignable, hk, hv, hc, if_true]

theorem indexable_eq_ok_iff {v : Value} {pos : Option Position} {s : ScalarString} :
    indexable v pos = .ok s ↔ v = .string s := by
  unfold indexable
  split
  · simp
  · next h => exact ⟨nofun, fun hv => absurd hv (h s)⟩

theorem indexNumber_eq_ok_iff {v : Value} {pos : Option Position} {n : Int} :
    indexNumber v pos = .ok n ↔ v = .int n := by
  unfold indexNumber
  split
  · simp
  · next h => exact ⟨nofun, fun hv => absurd hv (h n)⟩

theorem singleScalar_eq_ok_iff {v : Value} {pos : Option Position} {c : Char} :
    singleScalar v pos = .ok c ↔ ∃ s, v = .string s ∧ s.scalars = [c] := by
  unfold singleScalar
  split
  · next s =>
    simp only [Value.string.injEq, exists_eq_left']
    split
    · next h =>
      obtain ⟨d, hd⟩ := List.length_eq_one_iff.mp (s.length_eq ▸ h)
      have hposition : s.position? 0 = some 0 :=
        ScalarString.position?_eq_some_iff.mpr ⟨rfl, by omega⟩
      simp only [ScalarString.scalarAt_eq, hposition, Option.bind_some, hd,
        List.getElem?_cons_zero, Except.ok.injEq, List.cons.injEq, and_true]
    · next h =>
      refine ⟨nofun, fun hc => absurd ?_ h⟩
      rw [s.length_eq, hc]
      rfl
  · next h =>
    refine ⟨nofun, ?_⟩
    rintro ⟨s, hs, -⟩
    exact absurd hs (h s)

theorem replaceScalar_eq_ok_iff {s t : ScalarString} {i : Int} {c : Char} {pos : Option Position} :
    replaceScalar s i c pos = .ok t ↔ s.replacedAt i c = .ok t := Except.mapError_eq_ok_iff

theorem printedLine_eq_ok_iff {v : Value} {line : Text} {pos : Option Position} :
    printedLine v pos = .ok line ↔ v.plainText? = some line := by
  rw [printedLine, Except.mapError_eq_ok_iff, Value.render_eq_ok_iff]

/-! ## Plans that succeed -/

/-- What a statement that succeeds has found, and the change that it comes to. -/
inductive Planned (value : Expr → Traced Log.Record Value) (state : State) :
    Statement → Change → Prop
  | declare {name : Datum} {e : Expr} {pos : Option Position} {key : Name} {v : Value}
    (hv : (value e).result = .ok v) (hk : Name.ofDatum? name = some key) :
    Planned value state (.declare name e pos) (.declare name key v)
  | constant {name : Datum} {e : Expr} {pos : Option Position} {key : Name} {v : Value}
    (hv : (value e).result = .ok v) (hk : Name.ofDatum? name = some key) :
    Planned value state (.constant name e pos) (.fix name key v)
  | assign {name : Datum} {e : Expr} {pos : Option Position} {key : Name} {old v : Value}
    (ht : assignable state name pos = .ok (key, old)) (hv : (value e).result = .ok v) :
    Planned value state (.assign name e pos) (.assign key v)
  | indexAssign {name : Datum} {i e : Expr} {pos : Option Position} {key : Name}
    {s u t : ScalarString} {n : Int} {c : Char}
    (ht : assignable state name pos = .ok (key, .string s))
    (hi : (value i).result = .ok (.int n)) (he : (value e).result = .ok (.string u))
    (hu : u.scalars = [c]) (hr : s.replacedAt n c = .ok t) :
    Planned value state (.indexAssign name i e pos) (.replace name key n t)
  | print {e : Expr} {pos : Option Position} {v : Value} {line : Text}
    (hv : (value e).result = .ok v) (hl : v.plainText? = some line) :
    Planned value state (.print e pos) (.print line)
  | expression {e : Expr} {pos : Option Position} {v : Value} (hv : (value e).result = .ok v) :
    Planned value state (.expression e pos) .nothing

theorem plan_eq_ok_iff {value : Expr → Traced Log.Record Value} {state : State} {s : Statement}
    {c : Change} : (plan value state s).result = .ok c ↔ Planned value state s c := by
  constructor
  · intro h
    cases s with
    | declare name e pos =>
      obtain ⟨v, hv, h⟩ := Traced.result_bind_eq_ok_iff.mp h
      obtain ⟨key, hk, h⟩ := Traced.result_bind_eq_ok_iff.mp h
      cases h
      exact .declare hv (declarable_eq_ok_iff.mp hk)
    | constant name e pos =>
      obtain ⟨v, hv, h⟩ := Traced.result_bind_eq_ok_iff.mp h
      obtain ⟨key, hk, h⟩ := Traced.result_bind_eq_ok_iff.mp h
      cases h
      exact .constant hv (declarable_eq_ok_iff.mp hk)
    | assign name e pos =>
      obtain ⟨⟨key, old⟩, ht, h⟩ := Traced.result_bind_eq_ok_iff.mp h
      obtain ⟨v, hv, h⟩ := Traced.result_bind_eq_ok_iff.mp h
      cases h
      exact .assign ht hv
    | indexAssign name i e pos =>
      obtain ⟨⟨key, old⟩, ht, h⟩ := Traced.result_bind_eq_ok_iff.mp h
      obtain ⟨s, hs, h⟩ := Traced.result_bind_eq_ok_iff.mp h
      obtain ⟨index, hi, h⟩ := Traced.result_bind_eq_ok_iff.mp h
      obtain ⟨n, hn, h⟩ := Traced.result_bind_eq_ok_iff.mp h
      obtain ⟨scalar, he, h⟩ := Traced.result_bind_eq_ok_iff.mp h
      obtain ⟨c, hc, h⟩ := Traced.result_bind_eq_ok_iff.mp h
      obtain ⟨t, hr, h⟩ := Traced.result_bind_eq_ok_iff.mp h
      cases h
      obtain rfl : old = .string s := indexable_eq_ok_iff.mp hs
      obtain rfl : index = .int n := indexNumber_eq_ok_iff.mp hn
      obtain ⟨u, rfl, hu⟩ := singleScalar_eq_ok_iff.mp hc
      exact .indexAssign ht hi he hu (replaceScalar_eq_ok_iff.mp hr)
    | print e pos =>
      obtain ⟨v, hv, h⟩ := Traced.result_bind_eq_ok_iff.mp h
      obtain ⟨line, hl, h⟩ := Traced.result_bind_eq_ok_iff.mp h
      cases h
      exact .print hv (printedLine_eq_ok_iff.mp hl)
    | expression e pos =>
      obtain ⟨v, hv, h⟩ := Traced.result_bind_eq_ok_iff.mp h
      cases h
      exact .expression hv
  · intro h
    cases h with
    | declare hv hk | constant hv hk =>
      refine Traced.result_bind_eq_ok_iff.mpr ⟨_, hv, ?_⟩
      exact Traced.result_bind_eq_ok_iff.mpr ⟨_, declarable_eq_ok_iff.mpr hk, rfl⟩
    | assign ht hv =>
      refine Traced.result_bind_eq_ok_iff.mpr ⟨_, ht, ?_⟩
      exact Traced.result_bind_eq_ok_iff.mpr ⟨_, hv, rfl⟩
    | indexAssign ht hi he hu hr =>
      refine Traced.result_bind_eq_ok_iff.mpr ⟨_, ht, ?_⟩
      refine Traced.result_bind_eq_ok_iff.mpr ⟨_, rfl, ?_⟩
      refine Traced.result_bind_eq_ok_iff.mpr ⟨_, hi, ?_⟩
      refine Traced.result_bind_eq_ok_iff.mpr ⟨_, rfl, ?_⟩
      refine Traced.result_bind_eq_ok_iff.mpr ⟨_, he, ?_⟩
      refine Traced.result_bind_eq_ok_iff.mpr ⟨_, singleScalar_eq_ok_iff.mpr ⟨_, rfl, hu⟩, ?_⟩
      exact Traced.result_bind_eq_ok_iff.mpr ⟨_, replaceScalar_eq_ok_iff.mpr hr, rfl⟩
    | print hv hl =>
      refine Traced.result_bind_eq_ok_iff.mpr ⟨_, hv, ?_⟩
      exact Traced.result_bind_eq_ok_iff.mpr ⟨_, printedLine_eq_ok_iff.mpr hl, rfl⟩
    | expression hv => exact Traced.result_bind_eq_ok_iff.mpr ⟨_, hv, rfl⟩

/-! ## Changes -/

namespace Change

variable {c : Change} {state : State} {key other : Name} {v : Value}

/-- The binding that a change makes. -/
def binding? : Change → Option (Name × Value)
  | declare _ key v | fix _ key v | assign key v => some (key, v)
  | replace _ key _ t => some (key, .string t)
  | print _ | nothing => none

theorem scope_apply_of_none (h : c.binding? = none) : (c.apply state).scope = state.scope := by
  cases c with
  | print line | nothing => rfl
  | declare | fix | assign | replace => cases h

/-- A change binds one name, and leaves all others. -/
theorem get?_apply (h : c.binding? = some (key, v)) :
    (c.apply state).scope.get? other = if other = key then some v else state.scope.get? other := by
  cases c with
  | declare | fix | assign | replace =>
    cases h
    exact Scope.get?_set _ _ _ _
  | print | nothing => cases h

theorem get?_apply_of_ne (h : ∀ v, c.binding? ≠ some (key, v)) :
    (c.apply state).scope.get? key = state.scope.get? key := by
  cases hb : c.binding? with
  | none => rw [scope_apply_of_none hb]
  | some b =>
    rw [get?_apply hb, if_neg]
    rintro rfl
    exact h b.2 hb

/-- A name that is bound stays bound. -/
theorem mem_names_apply (h : key ∈ state.scope.names) : key ∈ (c.apply state).scope.names := by
  rw [Scope.mem_names_iff] at h ⊢
  cases hb : c.binding? with
  | none => rwa [scope_apply_of_none hb]
  | some b =>
    rw [get?_apply hb]
    split
    · rfl
    · exact h

/-- A constant is what a change has marked, or what was one and is not declared afresh. -/
theorem mem_constants_apply_iff :
    key ∈ (c.apply state).constants ↔
      (∃ name v, c = .fix name key v) ∨
        key ∈ state.constants ∧ ∀ name v, c ≠ .declare name key v := by
  cases c with
  | declare name k v =>
    show key ∈ state.constants.filter (· ≠ k) ↔ _
    simp only [List.mem_filter, decide_eq_true_eq, reduceCtorEq, exists_false, false_or, ne_eq,
      declare.injEq]
    refine and_congr_right fun _ => ⟨fun h n w he => h he.2.1.symm, fun h he => ?_⟩
    exact h name v ⟨rfl, he.symm, rfl⟩
  | fix name k v =>
    have hmark : key ∈ (Change.apply state (.fix name k v)).constants ↔
        k = key ∨ key ∈ state.constants := by
      show key ∈ (if k ∈ state.constants then state.constants else state.constants ++ [k]) ↔ _
      split
      · next hk => exact ⟨.inr, fun h => h.elim (· ▸ hk) id⟩
      · rw [List.mem_append, List.mem_singleton, or_comm, eq_comm]
    rw [hmark]
    refine or_congr ⟨fun h => ⟨name, v, by rw [h]⟩, ?_⟩ ⟨fun h => ⟨h, nofun⟩, And.left⟩
    rintro ⟨n, w, h⟩
    cases h
    rfl
  | assign k v | replace name k i t | print line | nothing =>
    simp only [reduceCtorEq, exists_false, false_or, ne_eq, not_false_eq_true, implies_true,
      and_true]
    exact Iff.rfl

end Change

/-! ## Performing a statement -/

namespace Engine

variable {engine : Engine} {state : State} {s : Statement}

/-- A statement makes its planned change. -/
theorem perform_of_planned {c : Change}
    (h : Planned (evaluate engine depth state.scope) state s c) :
    (engine.perform s state).result = .ok () ∧ (engine.perform s state).state = c.apply state := by
  have hplan : (engine.plan state s).result = .ok c :=
    Except.mapError_eq_ok_iff.mpr (plan_eq_ok_iff.mpr h)
  rw [perform_eq, commit, hplan]
  exact ⟨rfl, rfl⟩

theorem perform_eq_ok_iff :
    (engine.perform s state).result = .ok () ↔
      ∃ c, Planned (evaluate engine depth state.scope) state s c := by
  constructor
  · intro h
    rw [perform_eq, result_commit, Except.map_eq_ok_iff] at h
    obtain ⟨c, hc, -⟩ := h
    exact ⟨c, plan_eq_ok_iff.mp (Except.mapError_eq_ok_iff.mp hc)⟩
  · rintro ⟨c, hc⟩
    exact (perform_of_planned hc).1

/-- Where a statement has the same plan in another state, it makes the same change there. -/
theorem perform_of_plan_eq {other : State} {c : Change}
    (hc : Planned (evaluate engine depth state.scope) state s c)
    (hplan : engine.plan other s = engine.plan state s) :
    (engine.perform s other).result = .ok () ∧
      (engine.perform s other).effects = (engine.perform s state).effects ∧
      (engine.perform s other).state = c.apply other := by
  have hresult : (engine.plan state s).result = .ok c :=
    Except.mapError_eq_ok_iff.mpr (plan_eq_ok_iff.mpr hc)
  rw [perform_eq, perform_eq, hplan, commit, commit, hresult]
  exact ⟨rfl, rfl, rfl⟩

/-- **What a statement does**: it fails and leaves the state, or makes its planned change. -/
theorem perform_cases (engine : Engine) (s : Statement) (state : State) :
    ((∃ f, (engine.perform s state).result = .error f) ∧
      (engine.perform s state).state = state) ∨
    ∃ c, Planned (evaluate engine depth state.scope) state s c ∧
      (engine.perform s state).state = c.apply state := by
  cases h : (engine.perform s state).result with
  | error f => exact .inl ⟨⟨f, rfl⟩, (perform_error h).1⟩
  | ok =>
    obtain ⟨c, hc⟩ := perform_eq_ok_iff.mp h
    exact .inr ⟨c, hc, (perform_of_planned hc).2⟩

/-! ## Runs that go on -/

/-- The state after statements that are performed one after another, whether or not those before
have failed. -/
def stateAfter (engine : Engine) (state : State) (ss : List Statement) : State :=
  ss.foldl (fun state s => (engine.perform s state).state) state

theorem stateAfter_cons (engine : Engine) (state : State) (s : Statement) (ss : List Statement) :
    engine.stateAfter state (s :: ss) = engine.stateAfter (engine.perform s state).state ss := rfl

/-- A run that succeeds ends in the state that its statements lead to. -/
theorem stateAfter_of_executeAll {name : Datum} {final : State} {ss : List Statement}
    (h : (engine.executeAll name state ss).result = .ok final) :
    engine.stateAfter state ss = final := by
  induction ss generalizing state with
  | nil =>
    cases h
    rfl
  | cons s ss ih =>
    rw [executeAll_cons, Traced.result_bind_eq_ok_iff] at h
    obtain ⟨next, hs, h⟩ := h
    rw [stateAfter_cons, (executeReported_eq_ok_iff.mp hs).2]
    exact ih h

/-- Every statement of a run is as described, in the state in which it is performed. -/
def Along (engine : Engine) (R : State → Statement → Prop) (state : State)
    (ss : List Statement) : Prop :=
  ∀ before s after, ss = before ++ s :: after → R (engine.stateAfter state before) s

theorem along_nil (engine : Engine) (R : State → Statement → Prop) (state : State) :
    engine.Along R state [] := by
  intro before s after h
  cases before <;> cases h

theorem along_cons_iff {R : State → Statement → Prop} {ss : List Statement} :
    engine.Along R state (s :: ss) ↔
      R state s ∧ engine.Along R (engine.perform s state).state ss := by
  constructor
  · intro h
    refine ⟨h [] s ss rfl, fun before t after hss => ?_⟩
    exact h (s :: before) t after (congrArg (s :: ·) hss)
  · rintro ⟨hs, h⟩ before t after hss
    cases before with
    | nil =>
      cases hss
      exact hs
    | cons u before =>
      cases hss
      exact h before t after rfl

theorem along_mem (engine : Engine) (state : State) (ss : List Statement) :
    engine.Along (fun _ s => s ∈ ss) state ss := by
  rintro before s after rfl
  exact List.mem_append_right _ List.mem_cons_self

/-- **What every planned change keeps holds in every state of a run.** -/
theorem stateAfter_induction {I : State → Prop} {R : State → Statement → Prop}
    {ss : List Statement} (hstart : I state) (hrun : engine.Along R state ss)
    (hstep : ∀ state s c, I state → R state s →
      Planned (evaluate engine depth state.scope) state s c → I (c.apply state)) :
    I (engine.stateAfter state ss) := by
  induction ss generalizing state with
  | nil => exact hstart
  | cons s ss ih =>
    obtain ⟨hs, hrest⟩ := along_cons_iff.mp hrun
    have hnext : I (engine.perform s state).state := by
      rcases engine.perform_cases s state with ⟨-, hsame⟩ | ⟨c, hc, hchange⟩
      · rwa [hsame]
      · rw [hchange]
        exact hstep state s c hstart hs hc
    exact ih hnext hrest

end Engine

end ScalarScript
