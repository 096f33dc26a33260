import ScalarScript.Proofs.Steps

/-!
# Constants

A name that a statement has made a constant keeps its value until a statement declares it afresh.
Assignments look at the mark before they evaluate anything, so they cannot get at the value; and a
declaration sets or takes off the mark only after its expression has a value, so one that fails
leaves both.

* `Statement.assigned?` is the name that an assignment rebinds, in either form, and
  `Statement.fixed?` the name that a statement makes a constant.
* `Declares`, `Fixes`: a statement succeeds in declaring a name, or in making it a constant.
* `Constant key v state`: `key` is a constant with the value `v`.

Results:
* `names_of_mem_constants`: in a run, every constant is bound.
* `performWith_of_constant`: an assignment to a constant is refused, whatever evaluates its
  expressions.
* `constant_stateAfter`, `notMem_constants_stateAfter`: a constant stays one, and a variable a
  variable, as long as no statement makes it otherwise.
* **`constants_keep_values`**: constants are never changed by assignment.
-/

namespace ScalarScript

namespace Statement

/-- The name that an assignment rebinds. -/
def assigned? : Statement → Option Datum
  | assign name _ _ | indexAssign name _ _ _ => some name
  | _ => none

/-- The name that a statement makes a constant. -/
def fixed? : Statement → Option Datum
  | constant name _ _ => some name
  | _ => none

end Statement

/-- A name is a constant with a value. -/
structure State.Constant (key : Name) (v : Value) (state : State) : Prop where
  marked : key ∈ state.constants
  bound : state.scope.get? key = some v

/-! ## Refused assignments -/

theorem perform_eq_performWith (engine : Engine) (s : Statement) (state : State) :
    engine.perform s state =
      (performWith engine.settings (evaluate engine Engine.depth) s).mapFailure
        (Failure.placed s.position) state := rfl

/-- An assignment to a constant is refused, whatever evaluates its expressions: it does nothing,
and the state stays. -/
theorem performWith_of_constant {settings : Settings}
    {value : Scope → Expr → Traced Log.Record Value} {state : State} {s : Statement}
    {name : Datum} {key : Name} {v : Value} (hs : s.assigned? = some name)
    (hk : Name.ofDatum? name = some key) (hc : state.Constant key v) :
    performWith settings value s state =
      ⟨[], state, .error (.at_ (.constant name) s.position)⟩ := by
  have hrefused := fun pos => assignable_of_constant hk hc.bound hc.marked pos
  rw [performWith_eq]
  cases s with
  | assign n e pos =>
    cases hs
    simp only [plan, hrefused]
    rfl
  | indexAssign n i e pos =>
    cases hs
    simp only [plan, hrefused]
    rfl
  | declare | constant | print | expression => cases hs

/-! ## One step -/

section Steps

variable {value : Expr → Traced Log.Record Value} {state : State} {s : Statement} {c : Change}
  {key : Name} {v : Value}

/-- Only a declaration binds a constant. -/
theorem Planned.declared_of_binding (h : Planned value state s c)
    (hb : c.binding? = some (key, v)) (hc : key ∈ state.constants) :
    s.declared?.bind Name.ofDatum? = some key := by
  cases h with
  | declare _ hk | constant _ hk =>
    cases hb
    exact hk
  | assign ht _ | indexAssign ht _ _ _ _ =>
    cases hb
    exact absurd hc (assignable_eq_ok_iff.mp ht).2.2
  | print | expression => cases hb

/-- Only a statement that makes a constant marks a name. -/
theorem Planned.fixed_of_fix {name : Datum} (h : Planned value state s (.fix name key v)) :
    s.fixed?.bind Name.ofDatum? = some key := by
  cases h with
  | constant _ hk => exact hk

end Steps

namespace Engine

variable {engine : Engine} {state : State} {s : Statement} {ss : List Statement} {key : Name}

/-- A statement declares a name, as a variable or a constant, and succeeds. -/
def Declares (engine : Engine) (key : Name) (state : State) (s : Statement) : Prop :=
  s.declared?.bind Name.ofDatum? = some key ∧ (engine.perform s state).result = .ok ()

/-- A statement makes a name a constant, and succeeds. -/
def Fixes (engine : Engine) (key : Name) (state : State) (s : Statement) : Prop :=
  s.fixed?.bind Name.ofDatum? = some key ∧ (engine.perform s state).result = .ok ()

/-! ## Runs -/

/-- **Every constant is bound.** -/
theorem names_of_mem_constants (engine : Engine) (scope : Scope) (ss : List Statement) :
    ∀ key ∈ (engine.stateAfter (.start scope) ss).constants,
      key ∈ (engine.stateAfter (.start scope) ss).scope.names := by
  refine stateAfter_induction (I := fun state => ∀ key ∈ state.constants, key ∈ state.scope.names)
    nofun (engine.along_mem _ ss) fun state s c hbound _ hc key hkey => ?_
  rcases Change.mem_constants_apply_iff.mp hkey with ⟨name, v, rfl⟩ | ⟨hkey, -⟩
  · rw [Scope.mem_names_iff, Change.get?_apply rfl, if_pos rfl]
    rfl
  · exact Change.mem_names_apply (hbound key hkey)

/-- A constant keeps its mark and its value as long as no statement declares it. -/
theorem constant_stateAfter {v : Value} (hc : state.Constant key v)
    (hrun : engine.Along (fun state s => ¬ engine.Declares key state s) state ss) :
    (engine.stateAfter state ss).Constant key v := by
  refine stateAfter_induction hc hrun fun state s c hc hnot hplanned => ?_
  have hbinding : ∀ w, c.binding? ≠ some (key, w) := fun w hw =>
    hnot ⟨hplanned.declared_of_binding hw hc.marked, (perform_of_planned hplanned).1⟩
  refine ⟨Change.mem_constants_apply_iff.mpr (.inr ⟨hc.marked, ?_⟩), ?_⟩
  · rintro name w rfl
    exact hbinding w rfl
  · rw [Change.get?_apply_of_ne hbinding]
    exact hc.bound

/-- A variable stays one as long as no statement makes it a constant. -/
theorem notMem_constants_stateAfter (hnot : key ∉ state.constants)
    (hrun : engine.Along (fun state s => ¬ engine.Fixes key state s) state ss) :
    key ∉ (engine.stateAfter state ss).constants := by
  refine stateAfter_induction (I := fun state => key ∉ state.constants) hnot hrun
    fun state s c hnot hfixes hplanned hkey => ?_
  rcases Change.mem_constants_apply_iff.mp hkey with ⟨name, v, rfl⟩ | ⟨hkey, -⟩
  · exact hfixes ⟨hplanned.fixed_of_fix, (perform_of_planned hplanned).1⟩
  · exact hnot hkey

theorem mem_names_stateAfter (h : key ∈ state.scope.names) (ss : List Statement) :
    key ∈ (engine.stateAfter state ss).scope.names :=
  stateAfter_induction (I := fun state => key ∈ state.scope.names) h (engine.along_mem _ ss)
    fun _ _ _ h _ _ => Change.mem_names_apply h

/-! ## Declarations -/

/-- A declaration whose expression fails leaves the state. -/
theorem perform_declared_of_error {e : Expr} {f : Failure} (hd : s.declared?.isSome = true)
    (he : s.expressions = [e]) (h : (evaluate engine depth state.scope e).result = .error f) :
    (engine.perform s state).result = .error (f.placed s.position) ∧
      (engine.perform s state).state = state := by
  have hplan : (engine.plan state s).result = .error (f.placed s.position) := by
    refine Except.mapError_eq_error_iff.mpr ⟨f, ?_, rfl⟩
    cases s with
    | declare name value pos | constant name value pos =>
      cases he
      exact Traced.result_bind_eq_error_iff.mpr (.inl h)
    | assign | indexAssign | print | expression => cases hd
  rw [perform_eq, commit_of_error hplan]
  exact ⟨rfl, rfl⟩

/-- A statement that makes a constant binds it to the value of its expression. -/
theorem constant_of_perform {name : Datum} {e : Expr} {pos : Option Position}
    (hk : Name.ofDatum? name = some key)
    (h : (engine.perform (.constant name e pos) state).result = .ok ()) :
    ∃ v, (evaluate engine depth state.scope e).result = .ok v ∧
      (engine.perform (.constant name e pos) state).state.Constant key v := by
  obtain ⟨c, hc⟩ := perform_eq_ok_iff.mp h
  rw [(perform_of_planned hc).2]
  cases hc with
  | constant hv hkey =>
    cases hk.symm.trans hkey
    refine ⟨_, hv, Change.mem_constants_apply_iff.mpr (.inl ⟨_, _, rfl⟩), ?_⟩
    rw [Change.get?_apply rfl, if_pos rfl]

/-- A variable that is declared is bound and no constant. -/
theorem variable_of_perform {name : Datum} {e : Expr} {pos : Option Position}
    (hk : Name.ofDatum? name = some key)
    (h : (engine.perform (.declare name e pos) state).result = .ok ()) :
    key ∈ (engine.perform (.declare name e pos) state).state.scope.names ∧
      key ∉ (engine.perform (.declare name e pos) state).state.constants := by
  obtain ⟨c, hc⟩ := perform_eq_ok_iff.mp h
  rw [(perform_of_planned hc).2]
  cases hc with
  | declare hv hkey =>
    cases hk.symm.trans hkey
    refine ⟨?_, fun hm => ?_⟩
    · rw [Scope.mem_names_iff, Change.get?_apply rfl, if_pos rfl]
      rfl
    · rcases Change.mem_constants_apply_iff.mp hm with ⟨_, _, hfix⟩ | ⟨-, hdeclare⟩
      · cases hfix
      · exact hdeclare _ _ rfl

/-! ## Assignments -/

/-- An assignment to a constant is refused as such. It does nothing, and since it comes to the same
whatever evaluates its expressions, nothing of it is evaluated. -/
def Refuses (engine : Engine) (state : State) (s : Statement) (name : Datum) : Prop :=
  engine.perform s state = ⟨[], state, .error (.at_ (.constant name) s.position)⟩ ∧
    ∀ value, performWith engine.settings value s state =
      ⟨[], state, .error (.at_ (.constant name) s.position)⟩

theorem refuses_of_constant {name : Datum} {v : Value} (hs : s.assigned? = some name)
    (hk : Name.ofDatum? name = some key) (hc : state.Constant key v) :
    engine.Refuses state s name := by
  refine ⟨?_, fun value => performWith_of_constant hs hk hc⟩
  rw [perform_eq_performWith, Action.mapFailure, performWith_of_constant hs hk hc]
  rfl

/-- `x[i] = e` makes the string `t` of the value of `x`. -/
def Replaces (engine : Engine) (state : State) (current : Value) (i e : Expr)
    (t : ScalarString) : Prop :=
  ∃ s n u c, current = .string s ∧ (evaluate engine depth state.scope i).result = .ok (.int n) ∧
    (evaluate engine depth state.scope e).result = .ok (.string u) ∧ u.scalars = [c] ∧
    s.replacedAt n c = .ok t

/-- Assignments to a name of the value `current` are allowed: `x = e` succeeds exactly if `e` has a
value, and `x[i] = e` exactly if it makes a string. Then `x` is bound to that. -/
structure Allows (engine : Engine) (state : State) (name : Datum) (key : Name)
    (current : Value) : Prop where
  assign_iff : ∀ e pos, (engine.perform (.assign name e pos) state).result = .ok () ↔
    ∃ v, (evaluate engine depth state.scope e).result = .ok v
  assign : ∀ e pos v, (evaluate engine depth state.scope e).result = .ok v →
    (engine.perform (.assign name e pos) state).state = state.rebind key v
  indexAssign_iff : ∀ i e pos,
    (engine.perform (.indexAssign name i e pos) state).result = .ok () ↔
      ∃ t, engine.Replaces state current i e t
  indexAssign : ∀ i e pos t, engine.Replaces state current i e t →
    (engine.perform (.indexAssign name i e pos) state).state = state.rebind key (.string t)

theorem allows_of_variable {name : Datum} {current : Value} (hk : Name.ofDatum? name = some key)
    (hv : state.scope.get? key = some current) (hc : key ∉ state.constants) :
    engine.Allows state name key current := by
  have ht (pos : Option Position) : assignable state name pos = .ok (key, current) :=
    assignable_eq_ok_iff.mpr ⟨hk, hv, hc⟩
  refine ⟨fun e pos => ⟨fun h => ?_, ?_⟩, fun e pos v h => ?_, fun i e pos => ⟨fun h => ?_, ?_⟩,
    fun i e pos t h => ?_⟩
  · obtain ⟨c, hplanned⟩ := perform_eq_ok_iff.mp h
    cases hplanned with
    | assign _ hv => exact ⟨_, hv⟩
  · rintro ⟨v, h⟩
    exact (perform_of_planned (.assign (ht pos) h)).1
  · exact (perform_of_planned (.assign (ht pos) h)).2
  · obtain ⟨c, hplanned⟩ := perform_eq_ok_iff.mp h
    cases hplanned with
    | indexAssign ht' hi he hu hr =>
      cases (ht pos).symm.trans ht'
      exact ⟨_, _, _, _, _, rfl, hi, he, hu, hr⟩
  · rintro ⟨t, s, n, u, c, rfl, hi, he, hu, hr⟩
    exact (perform_of_planned (.indexAssign (ht pos) hi he hu hr)).1
  · obtain ⟨s, n, u, c, rfl, hi, he, hu, hr⟩ := h
    exact (perform_of_planned (.indexAssign (ht pos) hi he hu hr)).2

/-- **Constants are never changed by assignment.** In every state of a run, whether or not
statements of it have failed, each constant is bound. From a successful `const x` on, as long as no
declaration of `x` succeeds, `x` has the value of the `const` and each assignment to it is refused.
A declaration whose expression fails changes nothing at all. From a successful `let x` on, as long
as no `const x` succeeds, `x` is a variable and assignments to it are allowed. -/
theorem constants_keep_values (engine : Engine) :
    (∀ (scope : Scope) (ss : List Statement),
      ∀ key ∈ (engine.stateAfter (.start scope) ss).constants,
        key ∈ (engine.stateAfter (.start scope) ss).scope.names) ∧
    (∀ (state : State) (name : Datum) (e : Expr) (pos : Option Position) (key : Name),
      Name.ofDatum? name = some key →
      (engine.perform (.constant name e pos) state).result = .ok () →
      ∃ v, (evaluate engine depth state.scope e).result = .ok v ∧
        ∀ later final, engine.Along (fun state s => ¬ engine.Declares key state s)
            (engine.perform (.constant name e pos) state).state later →
          final = engine.stateAfter state (.constant name e pos :: later) →
          final.scope.get? key = some v ∧
            ∀ s other, s.assigned? = some other → Name.ofDatum? other = some key →
              engine.Refuses final s other) ∧
    (∀ (state : State) (s : Statement) (e : Expr) (f : Failure), s.declared?.isSome = true →
      s.expressions = [e] → (evaluate engine depth state.scope e).result = .error f →
      (engine.perform s state).result = .error (f.placed s.position) ∧
        (engine.perform s state).state = state) ∧
    (∀ (state : State) (name : Datum) (e : Expr) (pos : Option Position) (key : Name),
      Name.ofDatum? name = some key →
      (engine.perform (.declare name e pos) state).result = .ok () →
      ∀ later final, engine.Along (fun state s => ¬ engine.Fixes key state s)
          (engine.perform (.declare name e pos) state).state later →
        final = engine.stateAfter state (.declare name e pos :: later) →
        key ∉ final.constants ∧ ∃ current, final.scope.get? key = some current ∧
          ∀ other, Name.ofDatum? other = some key → engine.Allows final other key current) ∧
    ∀ name, EvalFault.text (.constant name) =
      Text.of "Cannot assign to constant: " ++ name.plain := by
  refine ⟨engine.names_of_mem_constants, fun state name e pos key hk h => ?_,
    fun state s e f hd he h => perform_declared_of_error hd he h,
    fun state name e pos key hk h later final hrun hfinal => ?_, fun name => rfl⟩
  · obtain ⟨v, hv, hc⟩ := constant_of_perform hk h
    refine ⟨v, hv, fun later final hrun hfinal => ?_⟩
    rw [stateAfter_cons] at hfinal
    have hlater : final.Constant key v := hfinal ▸ constant_stateAfter hc hrun
    exact ⟨hlater.bound, fun s other hs hother => refuses_of_constant hs hother hlater⟩
  · obtain ⟨hbound, hnot⟩ := variable_of_perform hk h
    rw [stateAfter_cons] at hfinal
    have hnames : key ∈ final.scope.names := hfinal ▸ mem_names_stateAfter hbound later
    have hfree : key ∉ final.constants := hfinal ▸ notMem_constants_stateAfter hnot hrun
    obtain ⟨current, hcurrent⟩ := Option.isSome_iff_exists.mp (Scope.mem_names_iff.mp hnames)
    exact ⟨hfree, current, hcurrent, fun other hother => allows_of_variable hother hcurrent hfree⟩

/-! ### A constant, a refused assignment, and a declaration that fails -/

/-- A name. -/
def letterX : Datum := .text (Text.of "x")

/-- `const x = "ab"`. -/
def fixString : Statement := .constant letterX (.string (.ofScalars ['a', 'b']) none) none

/-- `x = 1`. -/
def assignOne : Statement := .assign letterX (.int (.int 1) none) none

/-- `let x = y`, with a name that is not bound. -/
def declareUnbound : Statement := .declare letterX (.var (.text (Text.of "y")) none) none

/-- `let x = 1`. -/
def declareOne : Statement := .declare letterX (.int (.int 1) none) none

/-- The constant outlives both, and is refused then too; a declaration that succeeds allows
assignments again. -/
theorem constants_keep_values_of_string :
    (∃ v, ((new {}).stateAfter (.start .empty) [fixString, assignOne, declareUnbound]).scope.get?
          (.text (Text.of "x")) = some v ∧ v = .string (.ofScalars ['a', 'b'])) ∧
      (new {}).Refuses
        ((new {}).stateAfter (.start .empty) [fixString, assignOne, declareUnbound]) assignOne
        letterX ∧
      ∃ current, (new {}).Allows
        ((new {}).stateAfter (.start .empty) [fixString, declareOne]) letterX
        (.text (Text.of "x")) current := by
  obtain ⟨-, hconstant, hfail, hvariable, -⟩ := constants_keep_values (new {})
  have hname : Name.ofDatum? letterX = some (.text (Text.of "x")) := rfl
  have hunbound : ((new {}).perform declareUnbound
      ((new {}).perform fixString (.start .empty)).state).result =
        .error (.at_ (.unbound (.text (Text.of "y"))) none) :=
    (hfail _ declareUnbound _ (.at_ (.unbound (.text (Text.of "y"))) none) rfl rfl rfl).1
  have hconst : ((new {}).perform fixString (.start .empty)).result = .ok () := rfl
  have hlet :
      ((new {}).perform declareOne ((new {}).perform fixString (.start .empty)).state).result =
        .ok () := rfl
  obtain ⟨v, hv, hlater⟩ := hconstant (.start .empty) letterX _ none _ hname hconst
  have hrun : (new {}).Along (fun state s => ¬ (new {}).Declares (.text (Text.of "x")) state s)
      ((new {}).perform fixString (.start .empty)).state [assignOne, declareUnbound] := by
    refine along_cons_iff.mpr ⟨?_, along_cons_iff.mpr ⟨?_, along_nil _ _ _⟩⟩
    · rintro ⟨h, -⟩
      cases h
    · rintro ⟨-, h⟩
      cases hunbound.symm.trans h
  obtain ⟨hvalue, hrefused⟩ := hlater _ _ hrun rfl
  obtain ⟨-, current, -, hallowed⟩ := hvariable ((new {}).perform fixString (.start .empty)).state
    letterX _ none _ hname hlet [] _ (along_nil _ _ _) rfl
  exact ⟨⟨v, hvalue, (Except.ok.inj hv).symm⟩, hrefused assignOne letterX rfl hname,
    current, hallowed letterX hname⟩

end Engine

end ScalarScript
