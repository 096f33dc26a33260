import Mathlib.Data.List.Forall2
import ScalarScript.Engine.Execute
import ScalarScript.Proofs.Evaluation.Places

/-!
# Calls

Which function a call goes to depends on all registrations of an engine, in the order in which they
were made. `Registration.Takes` is what the types of a registration say about arguments, and
`Newest` picks one registration out of a history. A call applies what it finds, and what it finds
depends on the name and the values of its arguments alone; so a target in front of a dot is no more
than a first argument.

Results:
* `accepts_eq_true_iff`: a registration accepts what it takes.
* `registrations_registerAll`: what an engine knows after any registrations.
* `callFunction_newest`, `callFunction_of_resolve_none`: calls on an engine with a history.
* `callFunction_register`: what one more registration changes.
* `evaluate_method`: a method call is the call with its target for a first argument.
* **`calls_resolve_to_newest`**: calls go to the newest registration that takes their arguments, in
  either form.
-/

namespace ScalarScript

/-! ## What a registration takes -/

/-- A value is of the type that a registration asks for. -/
inductive ArgumentType.Matches : ArgumentType → Value → Prop
  | string (s : ScalarString) : Matches .string (.string s)
  | int (n : Int) : Matches .int (.int n)
  | bool (b : Bool) : Matches .bool (.bool b)

theorem ArgumentType.accepts_eq_true_iff {type : ArgumentType} {v : Value} :
    type.accepts v = true ↔ type.Matches v := by
  constructor
  · intro h
    cases type <;> cases v <;> first | exact .string _ | exact .int _ | exact .bool _ | cases h
  · intro h
    cases h <;> rfl

namespace Registration

variable {α : Type}

/-- A registration has no types, or one for each argument, of which the argument is. -/
def Takes (r : Registration α) (arguments : List Value) : Prop :=
  r.types = none ∨ ∃ types, r.types = some types ∧ List.Forall₂ ArgumentType.Matches types arguments

theorem accepts_eq_true_iff {r : Registration α} {arguments : List Value} :
    r.accepts arguments = true ↔ r.Takes arguments := by
  unfold accepts Takes
  cases r.types with
  | none => simp
  | some types =>
    simp only [Bool.and_eq_true, beq_iff_eq, List.all_eq_true, reduceCtorEq, false_or,
      Option.some.injEq, exists_eq_left', List.forall₂_iff_zip, Prod.forall,
      ArgumentType.accepts_eq_true_iff]
    rw [eq_comm]

/-- Of a history of registrations, the oldest first, this is the newest one of a name that takes the
arguments. -/
structure Newest (history : List (Registration α)) (name : Text) (arguments : List Value)
    (r : Registration α) : Prop where
  called : r.name = name
  takes : r.Takes arguments
  last : ∃ older newer, history = older ++ r :: newer ∧
    ∀ other ∈ newer, other.name = name → ¬ other.Takes arguments

end Registration

namespace Registry

variable {α : Type} {functions : Registry α} {name : Text} {arguments : List Value}

/-- What a call goes to, in terms of the registrations in the order in which they were made. -/
theorem resolve_eq_some_iff {r : Registration α} :
    functions.resolve name arguments = some r ↔
      Registration.Newest functions.registrations.reverse name arguments r := by
  unfold resolve
  rw [List.find?_eq_some_iff_append]
  simp only [Bool.and_eq_true, beq_iff_eq, Registration.accepts_eq_true_iff, Bool.not_eq_true',
    ← Bool.not_eq_true, not_and]
  constructor
  · rintro ⟨⟨hname, htakes⟩, newer, older, hlist, hnewer⟩
    refine ⟨hname, htakes, older.reverse, newer.reverse, by simp [hlist], fun other ho => ?_⟩
    exact hnewer other (List.mem_reverse.mp ho)
  · rintro ⟨hname, htakes, older, newer, hlist, hnewer⟩
    refine ⟨⟨hname, htakes⟩, newer.reverse, older.reverse, ?_, fun other ho => ?_⟩
    · rw [← List.reverse_reverse functions.registrations, hlist]
      simp
    · exact hnewer other (List.mem_reverse.mp ho)

theorem resolve_eq_none_iff :
    functions.resolve name arguments = none ↔
      ∀ r ∈ functions.registrations, r.name = name → ¬ r.Takes arguments := by
  simp [resolve, List.find?_eq_none, Registration.accepts_eq_true_iff]

end Registry

namespace Engine

/-! ## Registering -/

/-- An engine after registrations in order; those under a name that is no identifier are refused. -/
def registerAll (engine : Engine) (rs : List (Registration HostFunction)) : Engine :=
  rs.foldl (fun engine r => (engine.register? r).getD engine) engine

/-- What a new engine has registered after that, the oldest first. -/
def history (rs : List (Registration HostFunction)) : List (Registration HostFunction) :=
  lengthFunction :: rs.filter (·.name.isIdentifier)

/-- Registering adds to what an engine knows, the newest first, and keeps its settings. -/
theorem registrations_registerAll (engine : Engine) (rs : List (Registration HostFunction)) :
    (engine.registerAll rs).functions.registrations =
        (rs.filter (·.name.isIdentifier)).reverse ++ engine.functions.registrations ∧
      (engine.registerAll rs).settings = engine.settings := by
  induction rs generalizing engine with
  | nil => exact ⟨rfl, rfl⟩
  | cons r rs ih =>
    obtain ⟨hfunctions, hsettings⟩ := ih ((engine.register? r).getD engine)
    show ((registerAll _ rs).functions.registrations = _) ∧ (registerAll _ rs).settings = _
    rw [hfunctions, hsettings]
    cases h : r.name.isIdentifier with
    | false => simp [register?, Registry.register?, h]
    | true => simp [register?, Registry.register?, Registry.add, h]

theorem registrations_new (settings : Settings) (rs : List (Registration HostFunction)) :
    ((new settings).registerAll rs).functions.registrations = (history rs).reverse := by
  rw [(registrations_registerAll _ rs).1, history, List.reverse_cons]
  rfl

/-! ## Calling -/

/-- Applies a function to the values of arguments under the name of a call, and holds its result to
the limits. -/
def applyFunction (engine : Engine) (text : Text → Traced Log.Record Value) (name : Datum)
    (function : HostFunction) (arguments : List Value) (pos : Option Position) :
    Traced Log.Record Value := do
  let v ← Traced.mapFailure (Failure.ofCall name pos) do
    Traced.ofExcept (hostResult (← function text arguments))
  Traced.ofExcept (checkResult engine.settings.maxStringLength name v pos)

/-- The failure of a call that no registration takes. -/
def notFound (name : Text) (arguments : List Value) (pos : Option Position) : Failure :=
  .at_ (.noFunction (.text name) (arguments.map Value.typeName)) pos

variable {engine : Engine} {text : Text → Traced Log.Record Value} {name : Text}
  {arguments : List Value} {pos : Option Position}

theorem findFunction_text (engine : Engine) (name : Text) (arguments : List Value)
    (pos : Option Position) :
    findFunction engine (.text name) arguments pos =
      match engine.functions.resolve name arguments with
      | none => .error (notFound name arguments pos)
      | some r => .ok r.body := rfl

theorem callFunction_of_resolve {r : Registration HostFunction}
    (h : engine.functions.resolve name arguments = some r) :
    callFunction engine text (.text name) arguments pos =
      engine.applyFunction text (.text name) r.body arguments pos := by
  rw [callFunction, findFunction_text, h]
  rfl

theorem callFunction_of_resolve_none (h : engine.functions.resolve name arguments = none) :
    callFunction engine text (.text name) arguments pos = .fail (notFound name arguments pos) := by
  rw [callFunction, findFunction_text, h]
  rfl

/-- A call on an engine with a history goes to the newest registration that takes its arguments. -/
theorem callFunction_newest {settings : Settings} {rs : List (Registration HostFunction)}
    {r : Registration HostFunction} (h : Registration.Newest (history rs) name arguments r) :
    callFunction ((new settings).registerAll rs) text (.text name) arguments pos =
      ((new settings).registerAll rs).applyFunction text (.text name) r.body arguments pos := by
  refine callFunction_of_resolve (Registry.resolve_eq_some_iff.mpr ?_)
  rwa [registrations_new, List.reverse_reverse]

theorem exists_newest_or_none (settings : Settings) (rs : List (Registration HostFunction))
    (name : Text) (arguments : List Value) :
    (∃ r, Registration.Newest (history rs) name arguments r) ∨
      (∀ r ∈ history rs, r.name = name → ¬ r.Takes arguments) ∧
        ((new settings).registerAll rs).functions.resolve name arguments = none := by
  cases h : ((new settings).registerAll rs).functions.resolve name arguments with
  | some r =>
    rw [Registry.resolve_eq_some_iff, registrations_new, List.reverse_reverse] at h
    exact .inl ⟨r, h⟩
  | none =>
    refine .inr ⟨fun r hr => Registry.resolve_eq_none_iff.mp h r ?_, rfl⟩
    rwa [registrations_new, List.mem_reverse]

/-- One more registration takes the calls of its name that it accepts, and no others. -/
theorem callFunction_register {engine' : Engine} {r : Registration HostFunction} {name : Datum}
    (h : engine.register? r = some engine') :
    (name = .text r.name ∧ r.Takes arguments → callFunction engine' text name arguments pos =
      engine'.applyFunction text name r.body arguments pos) ∧
    (¬ (name = .text r.name ∧ r.Takes arguments) →
      callFunction engine' text name arguments pos =
        callFunction engine text name arguments pos) := by
  obtain ⟨functions, hfunctions, rfl⟩ := Option.map_eq_some_iff.mp h
  obtain rfl : engine.functions.add r = functions := by
    unfold Registry.register? at hfunctions
    split at hfunctions
    · exact Option.some.inj hfunctions
    · cases hfunctions
  constructor
  · rintro ⟨rfl, htakes⟩
    refine callFunction_of_resolve ?_
    rw [Registry.resolve_add, if_pos ⟨rfl, Registration.accepts_eq_true_iff.mpr htakes⟩]
  · intro hother
    have hfind : findFunction { engine with functions := engine.functions.add r } name arguments
        pos = findFunction engine name arguments pos := by
      cases name with
      | text t =>
        rw [findFunction_text, findFunction_text, Registry.resolve_add, if_neg]
        rintro ⟨rfl, haccepts⟩
        exact hother ⟨rfl, Registration.accepts_eq_true_iff.mp haccepts⟩
      | float x =>
        simp only [findFunction, Name.ofDatum?]
        cases x.toInt? <;> rfl
      | null | bool | int | array | object => rfl
    rw [callFunction, callFunction, hfind]

/-! ## The two forms of a call -/

/-- The target of a method call is the first argument. -/
theorem evaluate_method (engine : Engine) (depth : Nat) (scope : Scope) (target : Expr)
    (name : Datum) (arguments : List Expr) (pos : Option Position) :
    evaluate engine depth scope (.method target name arguments pos) =
      evaluate engine depth scope (.call name (target :: arguments) pos) := by
  cases depth with
  | zero => rfl
  | succ depth =>
    rw [evaluate_succ, evaluate_succ]
    rfl

/-- The place of a call bears on the place of its own failures only. -/
theorem unplaced_evaluate_call (engine : Engine) (depth : Nat) (scope : Scope) (name : Datum)
    (arguments : List Expr) (p q : Option Position) :
    (evaluate engine depth scope (.call name arguments p)).unplaced =
      (evaluate engine depth scope (.call name arguments q)).unplaced := by
  cases depth with
  | zero => rfl
  | succ depth =>
    rw [evaluate_succ, evaluate_succ]
    exact Traced.unplaced_bind rfl fun vs => unplaced_callFunction engine _ name vs p q

/-- **Calls go to the newest registration that takes their arguments, in either form.** On an engine
with any registrations behind the first, a call applies the newest one of its name whose types the
arguments are of, and where none takes them it fails without calling anything. One more registration
takes the calls of its own name that it accepts; all others go where they went. And a method call
comes to what the call with the target in front of the arguments comes to: it has the same effects,
and the same value or the same failure, but for a place where the two stand in different ones. -/
theorem calls_resolve_to_newest :
    (∀ (settings : Settings) (rs : List (Registration HostFunction)) (name : Text)
      (arguments : List Value) (text : Text → Traced Log.Record Value) (pos : Option Position),
      (∃ r, Registration.Newest (history rs) name arguments r ∧
        callFunction ((new settings).registerAll rs) text (.text name) arguments pos =
          ((new settings).registerAll rs).applyFunction text (.text name) r.body arguments pos) ∨
      (∀ r ∈ history rs, r.name = name → ¬ r.Takes arguments) ∧
        ∃ fault : EvalFault,
          callFunction ((new settings).registerAll rs) text (.text name) arguments pos =
            .fail (.at_ fault pos) ∧
          fault.text = Text.of "Function not found: " ++ name ++ Text.of " (" ++
            Text.join (Text.of ", ") (arguments.map fun v => Text.of v.typeName) ++
            Text.of ")") ∧
    (∀ (engine engine' : Engine) (r : Registration HostFunction),
      engine.register? r = some engine' → ∀ (name : Datum) (arguments : List Value)
        (text : Text → Traced Log.Record Value) (pos : Option Position),
      (name = .text r.name ∧ r.Takes arguments → callFunction engine' text name arguments pos =
        engine'.applyFunction text name r.body arguments pos) ∧
      (¬ (name = .text r.name ∧ r.Takes arguments) →
        callFunction engine' text name arguments pos =
          callFunction engine text name arguments pos)) ∧
    ∀ (engine : Engine) (depth : Nat) (scope : Scope) (target : Expr) (name : Datum)
      (arguments : List Expr) (p q : Option Position),
      let method := evaluate engine depth scope (.method target name arguments p)
      let call := evaluate engine depth scope (.call name (target :: arguments) q)
      method.effects = call.effects ∧ (p = q → method.result = call.result) ∧
      ((∃ v, method.result = .ok v ∧ call.result = .ok v) ∨
        ∃ f g, method.result = .error f ∧ call.result = .error g ∧ f.SameButPlace g) := by
  refine ⟨fun settings rs name arguments text pos => ?_,
    fun engine engine' r h name arguments text pos => callFunction_register h,
    fun engine depth scope target name arguments p q => ?_⟩
  · rcases exists_newest_or_none settings rs name arguments with ⟨r, hr⟩ | ⟨hnone, hresolve⟩
    · exact .inl ⟨r, hr, callFunction_newest hr⟩
    · refine .inr ⟨hnone, _, callFunction_of_resolve_none hresolve, ?_⟩
      simp only [EvalFault.text, List.map_map, Function.comp_def]
      rfl
  · have hplaces := unplaced_evaluate_call engine depth scope name (target :: arguments) p q
    show (evaluate engine depth scope (.method target name arguments p)).effects = _ ∧
      (p = q → (evaluate engine depth scope (.method target name arguments p)).result = _) ∧ _
    rw [evaluate_method]
    obtain ⟨heffects, hresult⟩ := Traced.mk.inj hplaces
    exact ⟨heffects, fun h => by rw [h], Failure.outcome_of_unplaced hresult⟩

/-! ### A second function of one name -/

/-- `len` of an integer. -/
def lengthOfInteger : Registration HostFunction where
  name := Text.of "len"
  types := some [.int]
  body _ _ := pure (.int 1)

/-- The evaluation of text that nothing asks for. -/
def noText : Text → Traced Log.Record Value := fun _ => .fail .tooDeep

/-- An integer goes to the new function and a string to the old one; a truth value is none of
them. `"a".len()` comes to the length of the string as `len("a")` does. -/
theorem calls_resolve_to_newest_of_length :
    callFunction ((new {}).registerAll [lengthOfInteger]) noText (.text (Text.of "len")) [.int 5]
        none = pure (.int 1) ∧
      callFunction ((new {}).registerAll [lengthOfInteger]) noText (.text (Text.of "len"))
          [.string (.ofScalars ['a'])] none =
        callFunction (new {}) noText (.text (Text.of "len")) [.string (.ofScalars ['a'])] none ∧
      (∃ fault : EvalFault,
        callFunction ((new {}).registerAll [lengthOfInteger]) noText (.text (Text.of "len"))
          [.bool true] none = .fail (.at_ fault none) ∧
        fault.text = Text.of "Function not found: len (bool)") ∧
      (evaluate (new {}) 2 .empty
        (.method (.string (.ofScalars ['a']) none) (.text (Text.of "len")) [] none)).result =
          .ok (.int 1) := by
  obtain ⟨hhistory, hregister, hforms⟩ := calls_resolve_to_newest
  have hnew : (new {}).register? lengthOfInteger =
      some ((new {}).registerAll [lengthOfInteger]) := rfl
  refine ⟨?_, ?_, ?_, ?_⟩
  · refine ((hregister _ _ _ hnew _ _ _ _).1 ⟨rfl, .inr ⟨_, rfl, ?_⟩⟩).trans rfl
    exact .cons (.int 5) .nil
  · refine (hregister _ _ _ hnew _ _ _ _).2 ?_
    rintro ⟨-, htakes⟩
    cases Registration.accepts_eq_true_iff.mpr htakes
  · rcases hhistory {} [lengthOfInteger] (Text.of "len") [.bool true] noText none with
      ⟨r, hr, -⟩ | ⟨-, fault, hfault, htext⟩
    · have hresolve : ((new {}).registerAll [lengthOfInteger]).functions.resolve (Text.of "len")
          [.bool true] = some r := Registry.resolve_eq_some_iff.mpr hr
      cases hresolve
    · exact ⟨fault, hfault, htext⟩
  · exact ((hforms (new {}) 2 .empty _ (.text (Text.of "len")) [] none none).2.1 rfl).trans rfl

end Engine

end ScalarScript
