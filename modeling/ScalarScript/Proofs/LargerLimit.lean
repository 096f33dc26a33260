import ScalarScript.Proofs.StringLimit
import ScalarScript.Proofs.FailedRun

/-!
# A larger limit on strings

A script is executed under a limit and under a larger one. Each string is made in the same way in
both runs, and then held to the limit. So the runs are in step up to the first string that is too
long for the smaller limit, and there the run under the smaller limit fails. What a host function
does must not depend on the limit either, so it may not evaluate text on the engine: it has to be
pure.

* `LimitLe limit limit'`: the second limit is at least the first. No limit is above all others.
* `Overruns limit r`: an outcome is the failure of a string that is longer than the limit.
* `Traced.Fits limit x y`: an evaluation under the limit comes to the same as one under a larger
  limit, or overruns the limit.
* `HostFunction.Pure`, `Engine.PureFunctions`: functions of their arguments.
* `Engine.SameOn`, `Engine.OverrunsAt`: two runs are the same, or the first overruns the limit at a
  statement that the second reaches.

Results:
* `fits_of_held`: what is held to the limit fits; `Traced.Fits.bind` puts evaluations together.
* `fits_evaluate`, `fits_plan`, `perform_fits`: an expression, a plan and a statement under both
  limits; `executeAll_fits`: a whole run.
* **`larger_limit_keeps_fitting_runs`**: a larger limit never changes a run that fits.
-/

namespace ScalarScript

/-! ## Limits and functions -/

/-- A limit is at most another one, where to have none is more than any. -/
def LimitLe (limit limit' : Option Nat) : Prop :=
  ∀ most', limit' = some most' → ∃ most, limit = some most ∧ most ≤ most'

/-- An outcome is the failure of a string that is longer than the limit. -/
def Overruns {α : Type} (limit : Option Nat) (r : Except Failure α) : Prop :=
  ∃ most n pos, limit = some most ∧ most < n ∧ r = .error (.at_ (.tooLong n most) pos)

/-- A host function is pure: what it does depends on its arguments alone. -/
def HostFunction.Pure (f : HostFunction) : Prop := ∀ text text' vs, f text vs = f text' vs

/-- All functions of an engine are pure. -/
def Engine.PureFunctions (engine : Engine) : Prop :=
  ∀ r ∈ engine.functions.registrations, HostFunction.Pure r.body

/-- The same engine with this limit on strings. -/
def Engine.withLimit (engine : Engine) (limit : Option Nat) : Engine :=
  { engine with settings := { engine.settings with maxStringLength := limit } }

/-- The function that every engine starts with is pure. -/
theorem Engine.pureFunctions_new (settings : Settings) : (new settings).PureFunctions := by
  intro r hr
  obtain rfl := List.mem_singleton.mp hr
  exact fun text text' vs => rfl

theorem Engine.PureFunctions.add {engine : Engine} {r : Registration HostFunction}
    (h : engine.PureFunctions) (hr : HostFunction.Pure r.body) :
    PureFunctions { engine with functions := engine.functions.add r } :=
  List.forall_mem_cons.mpr ⟨hr, h⟩

/-! ## Evaluations under two limits -/

/-- An evaluation comes to the same as another one, or overruns the limit. -/
def Traced.Fits {ε α : Type} (limit : Option Nat) (x y : Traced ε α) : Prop :=
  x = y ∨ Overruns limit x.result

namespace Traced.Fits

variable {ε α β : Type} {limit : Option Nat}

theorem refl (x : Traced ε α) : x.Fits limit x := .inl rfl

theorem bind {x y : Traced ε α} {f g : α → Traced ε β} (hxy : x.Fits limit y)
    (hfg : ∀ a, x.result = .ok a → (f a).Fits limit (g a)) :
    (x >>= f).Fits limit (y >>= g) := by
  rcases hxy with rfl | ⟨most, n, pos, hmost, hlong, hx⟩
  · obtain ⟨effects, result⟩ := x
    cases result with
    | error e => exact .inl rfl
    | ok a =>
      rcases hfg a rfl with hsame | ⟨most, n, pos, hmost, hlong, hf⟩
      · exact .inl (congrArg (fun z => Traced.mk (effects ++ z.effects) z.result) hsame)
      · exact .inr ⟨most, n, pos, hmost, hlong, hf⟩
  · exact .inr ⟨most, n, pos, hmost, hlong, Traced.result_bind_eq_error_iff.mpr (.inl hx)⟩

theorem mapM {f g : α → Traced ε β} {xs : List α} (h : ∀ x ∈ xs, (f x).Fits limit (g x)) :
    (xs.mapM f).Fits limit (xs.mapM g) := by
  induction xs with
  | nil => exact .refl _
  | cons x xs ih =>
    obtain ⟨hx, hxs⟩ := List.forall_mem_cons.mp h
    rw [List.mapM_cons, List.mapM_cons]
    exact hx.bind fun b _ => (ih hxs).bind fun bs _ => .refl _

/-- The end of the depth is placed in both. -/
theorem placed {x y : Traced ε α} (h : x.Fits limit y) (pos : Option Position) :
    (x.mapFailure (Failure.placed pos)).Fits limit (y.mapFailure (Failure.placed pos)) := by
  rcases h with rfl | ⟨most, n, p, hmost, hlong, hx⟩
  · exact .refl _
  · exact .inr ⟨most, n, p, hmost, hlong, by rw [result_mapFailure, hx]; rfl⟩

end Traced.Fits

section Limits

variable {limit limit' : Option Nat}

/-- **What is held to the limit fits.** -/
theorem fits_of_held (hle : LimitLe limit limit') {x : Option Nat → Except Failure Value}
    {pos : Option Position}
    (hx : ∀ most, x (some most) = x none >>= holdLength most pos) :
    (Traced.ofExcept (x limit) : Traced Log.Record Value).Fits limit
      (Traced.ofExcept (x limit')) := by
  cases limit with
  | none =>
    cases limit' with
    | none => exact .refl _
    | some most' => obtain ⟨most, hmost, -⟩ := hle most' rfl; cases hmost
  | some most =>
    -- What is within the smaller limit is within the larger one.
    have hsame : (∀ v, x none = .ok v → v.Within most) → x (some most) = x limit' := by
      intro hwithin
      rw [hx, bind_holdLength_of_within hwithin]
      cases limit' with
      | none => rfl
      | some most' =>
        obtain ⟨_, hmost, hlemost⟩ := hle most' rfl
        cases hmost
        rw [hx, bind_holdLength_of_within]
        exact fun v hv s hs => Nat.le_trans (hwithin v hv s hs) hlemost
    by_cases hwithin : ∀ v, x none = .ok v → v.Within most
    · exact .inl (congrArg _ (hsame hwithin))
    · obtain ⟨v, hv, hlong⟩ : ∃ v, x none = .ok v ∧ ¬ v.Within most := by
        simpa using hwithin
      obtain ⟨s, rfl, hs⟩ : ∃ s, v = .string s ∧ most < s.length := by
        simpa [Value.Within] using hlong
      refine .inr ⟨most, s.length, pos, rfl, hs, ?_⟩
      rw [Traced.result_ofExcept, hx, hv]
      exact holdLength_of_lt hs

variable {engine : Engine}

/-- The function that a call goes to is one of those that are registered. -/
theorem pure_of_findFunction (hpure : engine.PureFunctions) {name : Datum} {vs : List Value}
    {pos : Option Position} {f : HostFunction} (h : findFunction engine name vs pos = .ok f) :
    f.Pure := by
  obtain ⟨r, hr, -, rfl⟩ := findFunction_eq_ok h
  exact hpure r hr

/-- A pure function returns the same to both engines, and the value of the call is held to the
limit of each. -/
theorem fits_callFunction (hle : LimitLe limit limit') (hpure : engine.PureFunctions)
    (text text' : Text → Traced Log.Record Value) (name : Datum) (vs : List Value)
    (pos : Option Position) :
    (callFunction (engine.withLimit limit) text name vs pos).Fits limit
      (callFunction (engine.withLimit limit') text' name vs pos) := by
  refine Traced.Fits.bind (.refl (Traced.ofExcept (findFunction engine name vs pos)))
    fun f hf => ?_
  rw [pure_of_findFunction hpure hf text text' vs]
  exact Traced.Fits.bind (.refl _) fun v _ =>
    fits_of_held (x := fun l => checkResult l name v pos) hle fun _ => checkResult_limited name v

/-- A node makes the same of the values of its operands under both limits, or overruns. -/
theorem fits_combine (hle : LimitLe limit limit') (hpure : engine.PureFunctions)
    (text text' : Text → Traced Log.Record Value) (scope : Scope) (e : Expr) (vs : List Value) :
    (combine (engine.withLimit limit) text scope e vs).Fits limit
      (combine (engine.withLimit limit') text' scope e vs) := by
  cases e with
  | string s pos =>
    exact fits_of_held (x := fun l => checkLength l s pos) hle fun _ => rfl
  | char d pos =>
    exact fits_of_held (x := fun l => characterValue l d pos) hle fun _ => characterValue_limited d
  | int d pos | bool d pos | var name pos => exact .refl _
  | binary op left right pos =>
    rcases vs with _ | ⟨a, _ | ⟨b, _ | ⟨c, vs⟩⟩⟩
    · exact .refl _
    · exact .refl _
    · exact fits_of_held (x := fun l => applyBinary l op a b pos) hle fun _ =>
        applyBinary_limited op a b
    · exact .refl _
  | unary op operand pos =>
    rcases vs with _ | ⟨v, _ | ⟨w, vs⟩⟩ <;> exact .refl _
  | method target name arguments pos => exact fits_callFunction hle hpure text text' name vs pos
  | call name arguments pos => exact fits_callFunction hle hpure text text' name vs pos
  | index target i pos =>
    rcases vs with _ | ⟨a, _ | ⟨b, _ | ⟨c, vs⟩⟩⟩
    · exact .refl _
    · exact .refl _
    · exact fits_of_held (x := fun l => readIndex l a b pos) hle fun _ => readIndex_limited a b
    · exact .refl _

/-- **An expression comes to the same under both limits, or overruns the smaller one.** -/
theorem fits_evaluate (hle : LimitLe limit limit') (hpure : engine.PureFunctions) (depth : Nat)
    (scope : Scope) (e : Expr) :
    (evaluate (engine.withLimit limit) depth scope e).Fits limit
      (evaluate (engine.withLimit limit') depth scope e) := by
  induction depth generalizing e with
  | zero => exact .refl _
  | succ depth ih =>
    rw [evaluate_succ, evaluate_succ]
    exact Traced.Fits.bind (.mapM fun operand _ => ih operand) fun vs _ =>
      fits_combine hle hpure _ _ scope e vs

/-! ## Statements -/

theorem fits_plan {value value' : Expr → Traced Log.Record Value}
    (hvalue : ∀ e, (value e).Fits limit (value' e)) (state : State) (s : Statement) :
    (plan value state s).Fits limit (plan value' state s) := by
  cases s with
  | declare name e pos | constant name e pos => exact (hvalue e).bind fun v _ => .refl _
  | assign name e pos =>
    exact Traced.Fits.bind (.refl _) fun target _ => (hvalue e).bind fun v _ => .refl _
  | indexAssign name i e pos =>
    refine Traced.Fits.bind (.refl _) fun target _ => Traced.Fits.bind (.refl _) fun s _ => ?_
    refine (hvalue i).bind fun index _ => Traced.Fits.bind (.refl _) fun n _ => ?_
    exact (hvalue e).bind fun scalar _ => .refl _
  | print e pos => exact (hvalue e).bind fun v _ => .refl _
  | expression e pos => exact (hvalue e).bind fun v _ => .refl _

namespace Engine

/-- A plan is carried out in the same way under any limit. -/
theorem commit_withLimit (engine : Engine) (limit : Option Nat) (state : State)
    (t : Traced Log.Record Change) :
    commit (engine.withLimit limit).settings state t = commit engine.settings state t := by
  obtain ⟨effects, result⟩ := t
  cases result with
  | error f => rfl
  | ok c => cases c <;> rfl

/-- **A statement does the same under both limits, or overruns the smaller one.** -/
theorem perform_fits (hle : LimitLe limit limit') (hpure : engine.PureFunctions) (s : Statement)
    (state : State) :
    (engine.withLimit limit).perform s state = (engine.withLimit limit').perform s state ∨
      Overruns limit ((engine.withLimit limit).perform s state).result := by
  have hplan : ((engine.withLimit limit).plan state s).Fits limit
      ((engine.withLimit limit').plan state s) :=
    (fits_plan (fits_evaluate hle hpure depth state.scope) state s).placed s.position
  rw [perform_eq, perform_eq, commit_withLimit, commit_withLimit]
  rcases hplan with hsame | ⟨most, n, pos, hmost, hlong, hfails⟩
  · exact .inl (congrArg (commit engine.settings state) hsame)
  · exact .inr ⟨most, n, pos, hmost, hlong, by rw [commit_of_error hfails]⟩

/-! ## Runs -/

/-- A run is the same on two engines: it has the same effects, and ends in the same state, or fails
at the same statement, in the same state and with the same failure. -/
structure SameOn (a b : Engine) (name : Datum) (state : State) (ss : List Statement) : Prop where
  run : a.executeAll name state ss = b.executeAll name state ss
  failure : ∀ f, (a.executeAll name state ss).result = .error f →
    ∃ n mid, a.FailsAt name state ss n mid f ∧ b.FailsAt name state ss n mid f

/-- A run fails on the first engine behind `n` statements, which leave `mid`, with a string that is
longer than the limit. On the second engine those statements leave the same state, and the run
prints at least as much. -/
structure OverrunsAt (a b : Engine) (limit : Option Nat) (name : Datum) (state : State)
    (ss : List Statement) (n : Nat) (mid : State) : Prop where
  fails : ∃ most length pos, limit = some most ∧ most < length ∧
    a.FailsAt name state ss n mid (.at_ (.tooLong length most) pos)
  reached : (b.executeAll name state (ss.take n)).result = .ok mid
  lines : Effect.linesOf (a.executeAll name state ss).effects <+:
    Effect.linesOf (b.executeAll name state ss).effects
  echoes : Effect.echoesOf (a.executeAll name state ss).effects <+:
    Effect.echoesOf (b.executeAll name state ss).effects

section Runs

variable {a b : Engine} {name : Datum} {state : State} {s : Statement} {ss : List Statement}

theorem sameOn_nil (a b : Engine) (name : Datum) (state : State) : a.SameOn b name state [] :=
  ⟨rfl, nofun⟩

theorem SameOn.cons (hs : a.perform s state = b.perform s state)
    (hok : (a.perform s state).result = .ok ())
    (h : a.SameOn b name (a.perform s state).state ss) : a.SameOn b name state (s :: ss) := by
  have hok' : (b.perform s state).result = .ok () := hs ▸ hok
  constructor
  · rw [executeAll_cons_of_ok name hok, executeAll_cons_of_ok name hok', ← hs, h.run]
  · intro f hf
    rw [executeAll_cons_of_ok name hok] at hf
    obtain ⟨n, mid, ha, hb⟩ := h.failure f hf
    rw [hs] at hb
    exact ⟨n + 1, mid, ha.cons hok, hb.cons hok'⟩

theorem sameOn_of_error (ss : List Statement) (hs : a.perform s state = b.perform s state)
    {f : Failure} (hf : (a.perform s state).result = .error f) :
    a.SameOn b name state (s :: ss) := by
  have hf' : (b.perform s state).result = .error f := hs ▸ hf
  constructor
  · rw [executeAll_cons_of_error name hf, executeAll_cons_of_error name hf', hs]
  · intro g hg
    rw [executeAll_cons_of_error name hf] at hg
    cases hg
    exact ⟨0, state, .head name hf, .head name hf'⟩

/-- A run that fails at its first statement has printed nothing. -/
theorem overrunsAt_head (b : Engine) (ss : List Statement)
    (h : Overruns limit (a.perform s state).result) :
    a.OverrunsAt b limit name state (s :: ss) 0 state := by
  obtain ⟨most, length, pos, hmost, hlong, hf⟩ := h
  obtain ⟨-, hlines, hechoes⟩ := perform_error hf
  refine ⟨⟨most, length, pos, hmost, hlong, .head name hf⟩, rfl, ?_, ?_⟩
  · rw [executeAll_cons_of_error name hf, Effect.linesOf_append, hlines, linesOf_failureReport]
    exact List.nil_prefix
  · rw [executeAll_cons_of_error name hf, Effect.echoesOf_append, hechoes, echoesOf_failureReport]
    exact List.nil_prefix

theorem OverrunsAt.cons {n : Nat} {mid : State} (hs : a.perform s state = b.perform s state)
    (hok : (a.perform s state).result = .ok ())
    (h : a.OverrunsAt b limit name (a.perform s state).state ss n mid) :
    a.OverrunsAt b limit name state (s :: ss) (n + 1) mid := by
  have hok' : (b.perform s state).result = .ok () := hs ▸ hok
  obtain ⟨⟨most, length, pos, hmost, hlong, hf⟩, hreached, hlines, hechoes⟩ := h
  refine ⟨⟨most, length, pos, hmost, hlong, hf.cons hok⟩, ?_, ?_, ?_⟩
  · rw [List.take_succ_cons, executeAll_cons_of_ok name hok', ← hs]
    exact hreached
  · rw [executeAll_cons_of_ok name hok, executeAll_cons_of_ok name hok', ← hs,
      Effect.linesOf_append, Effect.linesOf_append]
    exact (List.prefix_append_right_inj _).mpr hlines
  · rw [executeAll_cons_of_ok name hok, executeAll_cons_of_ok name hok', ← hs,
      Effect.echoesOf_append, Effect.echoesOf_append]
    exact (List.prefix_append_right_inj _).mpr hechoes

end Runs

/-- **Two runs in step.** Statements do the same under both limits, or overrun the smaller one. -/
theorem executeAll_fits (hle : LimitLe limit limit') (hpure : engine.PureFunctions) (name : Datum)
    (state : State) (ss : List Statement) :
    (engine.withLimit limit).SameOn (engine.withLimit limit') name state ss ∨
      ∃ n mid, (engine.withLimit limit).OverrunsAt (engine.withLimit limit') limit name state ss n
        mid := by
  induction ss generalizing state with
  | nil => exact .inl (sameOn_nil _ _ name state)
  | cons s ss ih =>
    rcases perform_fits hle hpure s state with hs | hlong
    · cases hresult : ((engine.withLimit limit).perform s state).result with
      | error f => exact .inl (sameOn_of_error ss hs hresult)
      | ok u =>
        rcases ih ((engine.withLimit limit).perform s state).state with hsame | ⟨n, mid, hover⟩
        · exact .inl (hsame.cons hs hresult)
        · exact .inr ⟨n + 1, mid, hover.cons hs hresult⟩
    · exact .inr ⟨0, state, overrunsAt_head _ ss hlong⟩

/-! ## Scripts -/

/-- **A larger limit on strings never changes a run that fits.** On an engine with pure functions, a
script has the same execution under two limits of which the second is larger or missing: the same
effects, and the same final state or the same failure at the same statement. Or it fails under the
first limit with a string that is longer, at a statement that it reaches under the second in the
same state, and what it prints is the beginning of what it prints there. -/
theorem larger_limit_keeps_fitting_runs {engine : Engine} (hpure : engine.PureFunctions)
    {limit limit' : Option Nat} (hle : LimitLe limit limit') (script : Script) (scope : Scope) :
    (((engine.withLimit limit).execute script scope =
          (engine.withLimit limit').execute script scope ∧
        ∀ f, ((engine.withLimit limit).execute script scope).result = .error f →
          ∃ n mid,
            (engine.withLimit limit).FailsAt script.name (.start scope) script.statements n mid f ∧
            (engine.withLimit limit').FailsAt script.name (.start scope) script.statements n mid
              f) ∨
      ∃ most length pos n mid, limit = some most ∧ most < length ∧
        (engine.withLimit limit).FailsAt script.name (.start scope) script.statements n mid
          (.at_ (.tooLong length most) pos) ∧
        ((engine.withLimit limit').execute ⟨script.statements.take n, script.name⟩ scope).result =
          .ok mid ∧
        Effect.linesOf ((engine.withLimit limit).execute script scope).effects <+:
          Effect.linesOf ((engine.withLimit limit').execute script scope).effects ∧
        Effect.echoesOf ((engine.withLimit limit).execute script scope).effects <+:
          Effect.echoesOf ((engine.withLimit limit').execute script scope).effects) ∧
    ∀ length most, EvalFault.text (.tooLong length most) =
      Text.of "String length " ++ Text.ofNat length ++ Text.of " exceeds the limit of " ++
        Text.ofNat most := by
  refine ⟨?_, fun length most => rfl⟩
  rcases executeAll_fits hle hpure script.name (.start scope) script.statements with
    hsame | ⟨n, mid, ⟨most, length, pos, hmost, hlong, hfails⟩, hreached, hlines, hechoes⟩
  · exact .inl ⟨congrArg (Traced.emit _ >>= fun _ => ·) hsame.run, hsame.failure⟩
  · exact .inr ⟨most, length, pos, n, mid, hmost, hlong, hfails, hreached, hlines, hechoes⟩

/-! ### A function that doubles a string -/

/-- A host function that puts a string behind itself. -/
def twice : Registration HostFunction where
  name := Text.of "twice"
  types := some [.string]
  body _ arguments :=
    match arguments with
    | [.string s] => pure (.string (.ofScalars (s.scalars ++ s.scalars)))
    | _ => .fail (.host .wrongType)

/-- An engine with the function. -/
def doubling : Engine := { new {} with functions := (new {}).functions.add twice }

/-- `print("pq"); print(twice("pq"))`. -/
def printsTwice : Script :=
  ⟨[.print (.string (.ofScalars ['p', 'q']) none) none,
    .print (.call (.text (Text.of "twice")) [.string (.ofScalars ['p', 'q']) none] none) none],
    .null⟩

/-- Under a limit of three, the call fails behind the first line. A limit of four is as good as
none. -/
theorem larger_limit_keeps_fitting_runs_of_twice :
    (((doubling.withLimit (some 3)).execute printsTwice .empty).result =
        .error (.at_ (.tooLong 4 3) none) ∧
      ((doubling.withLimit none).execute ⟨printsTwice.statements.take 1, .null⟩ .empty).result =
        .ok ⟨.empty, [], [Text.of "pq"]⟩ ∧
      [Text.of "pq"] <+:
        Effect.linesOf ((doubling.withLimit none).execute printsTwice .empty).effects) ∧
    (doubling.withLimit (some 4)).execute printsTwice .empty =
      (doubling.withLimit none).execute printsTwice .empty := by
  have hpure : doubling.PureFunctions := (pureFunctions_new {}).add fun text text' vs => rfl
  have hle : ∀ most, LimitLe (some most) none := fun most => nofun
  have hfails : ((doubling.withLimit (some 3)).execute printsTwice .empty).result =
      .error (.at_ (.tooLong 4 3) none) := rfl
  have hends : ((doubling.withLimit (some 4)).execute printsTwice .empty).result =
      .ok ⟨.empty, [], [Text.of "pq", Text.of "pqpq"]⟩ := rfl
  have hunlimited : ((doubling.withLimit none).execute printsTwice .empty).result =
      .ok ⟨.empty, [], [Text.of "pq", Text.of "pqpq"]⟩ := rfl
  constructor
  · obtain ⟨hrun, -⟩ | ⟨most, length, pos, n, mid, -, -, -, -, hlines, -⟩ :=
      (larger_limit_keeps_fitting_runs hpure (hle 3) printsTwice .empty).1
    · cases (hrun ▸ hfails).symm.trans hunlimited
    · exact ⟨hfails, rfl, hlines⟩
  · obtain ⟨hrun, -⟩ | ⟨most, length, pos, n, mid, -, -, hat, -⟩ :=
      (larger_limit_keeps_fitting_runs hpure (hle 4) printsTwice .empty).1
    · exact hrun
    · cases hends.symm.trans hat.result

end Engine

end Limits

end ScalarScript
