import ScalarScript.Proofs.Evaluation.Values

/-!
# The limit on the length of strings

Where the settings limit the length of strings, no script gets hold of a longer one. A node makes
its value as if there were no limit, and then holds it to the limit. Variables alone are read as
they are, so the values that a run starts with have to be within the limit already.

* `Value.Within limit`: a value is no string of more than `limit` scalars.
* `holdLength`: a value, if it is within the limit.
* `Engine.unlimited`, `ownResult`: an engine that leaves the limit out, and what a node comes to
  there.

Results:
* `combine_limited`: what a node makes is its own result, held to the limit.
* `replacedAt_within`: replacing a scalar lengthens nothing.
* `yields_within`: no expression has a longer string for a value.
* **`strings_within_limit`**: the limit cannot be bypassed.
-/

namespace ScalarScript

/-- A value is no string that is longer than the limit. -/
def Value.Within (limit : Nat) (v : Value) : Prop := ∀ s, v = .string s → s.length ≤ limit

/-- A value, if it is within the limit. -/
def holdLength (limit : Nat) (pos : Option Position) : Value → Except Failure Value
  | .string s => checkLength (some limit) s pos
  | v => .ok v

/-- The same engine without a limit on strings. -/
def Engine.unlimited (engine : Engine) : Engine :=
  { engine with settings := { engine.settings with maxStringLength := none } }

/-- What a node makes of the values of its operands where its own string may have any length. Text
that a host function evaluates on the way is still held to the limit. -/
def ownResult (engine : Engine) (depth : Nat) (scope : Scope) (e : Expr) (vs : List Value) :
    Except Failure Value :=
  (combine engine.unlimited (evaluateSource (evaluate engine depth) Scope.empty) scope e vs).result

section Limit

variable {limit : Nat} {pos : Option Position}

/-! ## Holding values to the limit -/

theorem holdLength_of_within {v : Value} (h : v.Within limit) : holdLength limit pos v = .ok v := by
  cases v with
  | string s => exact if_neg (Nat.not_lt.mpr (h s rfl))
  | text | bool | int | float | none | list | object => rfl

theorem holdLength_of_lt {s : ScalarString} (h : limit < s.length) :
    holdLength limit pos (.string s) = .error (.at_ (.tooLong s.length limit) pos) := if_pos h

theorem within_of_holdLength {v w : Value} (h : holdLength limit pos v = .ok w) :
    w.Within limit := by
  cases v with
  | string s =>
    by_cases hs : limit < s.length
    · rw [holdLength_of_lt hs] at h
      cases h
    · cases (if_neg hs).symm.trans h
      rintro t ⟨⟩
      exact Nat.le_of_not_lt hs
  | text | bool | int | float | none | list | object =>
    cases h
    exact nofun

theorem bind_holdLength_of_within {r : Except Failure Value}
    (h : ∀ v, r = .ok v → v.Within limit) : r >>= holdLength limit pos = r := by
  cases r with
  | error f => rfl
  | ok v => exact holdLength_of_within (h v rfl)

theorem bind_holdLength_of_computed {r : Except Failure Value} (h : ∀ v, r = .ok v → v.Computed) :
    r >>= holdLength limit pos = r := by
  refine bind_holdLength_of_within fun v hv => ?_
  cases h v hv with
  | bool | int => exact nofun

theorem within_toValue (d : Datum) : d.toValue.Within limit := by
  cases d <;> exact nofun

/-! ## Operators -/

theorem joinResult_limited (r : Except StringFault ScalarString) :
    joinResult (some limit) pos r = joinResult none pos r >>= holdLength limit pos := by
  cases r with
  | ok s => rfl
  | error e => cases e <;> rfl

theorem applyAdd_limited (a b : Value) :
    applyAdd (some limit) a b pos = applyAdd none a b pos >>= holdLength limit pos := by
  unfold applyAdd
  split
  · exact joinResult_limited _
  · exact joinResult_limited _
  · exact (bind_holdLength_of_computed fun _ => computed_of_checkRange).symm
  · rfl

theorem applyBinary_limited (op : BinaryOperator) (a b : Value) :
    applyBinary (some limit) op a b pos = applyBinary none op a b pos >>= holdLength limit pos := by
  cases op with
  | add => exact applyAdd_limited a b
  | subtract => exact (bind_holdLength_of_computed fun _ => computed_of_applySubtract).symm
  | compare c => exact (bind_holdLength_of_computed fun _ => computed_of_applyComparison).symm

theorem characterValue_limited (d : Datum) :
    characterValue (some limit) d pos = characterValue none d pos >>= holdLength limit pos := by
  unfold characterValue
  cases ScalarString.ofValues [d.toValue] <;> rfl

theorem readIndex_limited (target index : Value) :
    readIndex (some limit) target index pos =
      readIndex none target index pos >>= holdLength limit pos := by
  unfold readIndex
  split
  · split
    · split <;> rfl
    · rfl
  · rfl

/-! ## Calls -/

theorem checkResult_limited (name : Datum) (v : Value) :
    checkResult (some limit) name v pos = checkResult none name v pos >>= holdLength limit pos := by
  cases v with
  | string s => rfl
  | int n => exact (bind_holdLength_of_computed fun _ => computed_of_checkRange).symm
  | text | bool | float | none | list | object => rfl

variable {engine : Engine}

theorem callFunction_limited (hlimit : engine.settings.maxStringLength = some limit)
    (text : Text → Traced Log.Record Value) (name : Datum) (vs : List Value) :
    (callFunction engine text name vs pos).result =
      (callFunction engine.unlimited text name vs pos).result >>= holdLength limit pos := by
  have hfind : findFunction engine.unlimited name vs pos = findFunction engine name vs pos := rfl
  simp only [callFunction, Traced.result_bind, Traced.result_ofExcept, hlimit, hfind,
    checkResult_limited]
  cases findFunction engine name vs pos with
  | error f => rfl
  | ok function =>
    show (Except.mapError _ _ >>= _) = (Except.mapError _ _ >>= _) >>= _
    cases (function text vs >>= fun v => Traced.ofExcept (hostResult v)).result <;> rfl

/-! ## Expressions -/

/-- **What a node makes is its own result, held to the limit.** -/
theorem combine_limited (hlimit : engine.settings.maxStringLength = some limit) {scope : Scope}
    (hscope : scope.All (Value.Within limit)) (text : Text → Traced Log.Record Value) (e : Expr)
    (vs : List Value) :
    (combine engine text scope e vs).result =
      (combine engine.unlimited text scope e vs).result >>= holdLength limit e.position := by
  have hnone : engine.unlimited.settings.maxStringLength = none := rfl
  cases e with
  | string s pos =>
    simp only [combine, Traced.result_ofExcept, hlimit]
    rfl
  | char d pos =>
    simp only [combine, Traced.result_ofExcept, hlimit, hnone]
    exact characterValue_limited d
  | int d pos => exact (holdLength_of_within (within_toValue d)).symm
  | bool d pos => exact (holdLength_of_within (within_toValue d)).symm
  | var name pos =>
    refine (bind_holdLength_of_within fun v h => ?_).symm
    obtain ⟨key, -, hv⟩ := readVariable_eq_ok_iff.mp h
    exact hscope key v hv
  | binary op left right pos =>
    rcases vs with _ | ⟨a, _ | ⟨b, _ | ⟨_, _⟩⟩⟩
    · rfl
    · rfl
    · simp only [combine, Traced.result_ofExcept, hlimit, hnone]
      exact applyBinary_limited op a b
    · rfl
  | unary op operand pos =>
    rcases vs with _ | ⟨v, _ | ⟨_, _⟩⟩
    · rfl
    · exact (bind_holdLength_of_computed fun _ => computed_of_applyUnary).symm
    · rfl
  | method target name arguments pos => exact callFunction_limited hlimit text name vs
  | call name arguments pos => exact callFunction_limited hlimit text name vs
  | index target i pos =>
    rcases vs with _ | ⟨v, _ | ⟨w, _ | ⟨_, _⟩⟩⟩
    · rfl
    · rfl
    · simp only [combine, Traced.result_ofExcept, hlimit, hnone]
      exact readIndex_limited v w
    · rfl

theorem yields_within (hlimit : engine.settings.maxStringLength = some limit) (e : Expr) :
    e.Yields engine (Value.Within limit) := by
  refine yields_of_combine fun text scope vs v hscope hv => ?_
  rw [combine_limited hlimit hscope, Except.bind_eq_ok_iff] at hv
  obtain ⟨w, -, hw⟩ := hv
  exact within_of_holdLength hw

/-- Where its operands have values, an expression comes to its own result, held to the limit. -/
theorem evaluate_limited (hlimit : engine.settings.maxStringLength = some limit) {depth : Nat}
    {scope : Scope} (hscope : scope.All (Value.Within limit)) {e : Expr} {vs : List Value}
    (hvs : e.operands.map (fun x => (evaluate engine depth scope x).result) = vs.map .ok) :
    (evaluate engine (depth + 1) scope e).result =
      ownResult engine depth scope e vs >>= holdLength limit e.position := by
  rw [evaluate_succ, Traced.result_bind, result_mapM_eq_ok_iff.mpr hvs]
  exact combine_limited hlimit hscope _ e vs

/-- A string with one scalar replaced is as long as before. -/
theorem replacedAt_within {s t : ScalarString} {i : Int} {c : Char}
    (h : (Value.string s).Within limit) (hr : s.replacedAt i c = .ok t) :
    (Value.string t).Within limit := by
  rw [ScalarString.replacedAt_eq] at hr
  split at hr
  · cases hr
    rintro u ⟨⟩
    rw [ScalarString.length_ofScalars, List.length_set, ← ScalarString.length_eq]
    exact h s rfl
  · cases hr

end Limit

/-- **The limit on strings cannot be bypassed.** A run that starts with strings within the limit
has no others in any state, whether or not statements fail, and whatever its host functions return.
No expression evaluates to a longer string, be it part of a script or given as text. One whose own
result is longer fails, and every other comes to its own result. -/
theorem strings_within_limit {engine : Engine} {limit : Nat}
    (hlimit : engine.settings.maxStringLength = some limit) :
    (∀ scope ss, scope.All (Value.Within limit) →
      (engine.stateAfter (.start scope) ss).scope.All (Value.Within limit)) ∧
    (∀ script scope final, scope.All (Value.Within limit) →
      (engine.execute script scope).result = .ok final →
      final.scope.All (Value.Within limit)) ∧
    (∀ depth scope e s, scope.All (Value.Within limit) →
      (evaluate engine depth scope e).result = .ok (.string s) → s.length ≤ limit) ∧
    (∀ source scope s, scope.All (Value.Within limit) →
      (engine.evaluateText source scope).result = .ok (.string s) → s.length ≤ limit) ∧
    ∀ depth scope e vs, scope.All (Value.Within limit) →
      e.operands.map (fun x => (evaluate engine depth scope x).result) = vs.map .ok →
      (∀ s, ownResult engine depth scope e vs = .ok (.string s) → limit < s.length →
        (evaluate engine (depth + 1) scope e).result =
          .error (.at_ (.tooLong s.length limit) e.position)) ∧
      ((∀ v, ownResult engine depth scope e vs = .ok v → v.Within limit) →
        (evaluate engine (depth + 1) scope e).result = ownResult engine depth scope e vs) := by
  have hyields := yields_within hlimit
  refine ⟨fun scope ss hscope => ?_, fun script scope final hscope h => ?_,
    fun depth scope e s hscope h => ?_, fun source scope s hscope h => ?_,
    fun depth scope e vs hscope hvs => ?_⟩
  · exact Engine.all_stateAfter hscope (fun _ _ e _ => hyields e) fun _ _ _ _ => replacedAt_within
  · exact Engine.all_execute hscope (fun _ _ e _ => hyields e) (fun _ _ _ _ => replacedAt_within) h
  · exact hyields e depth scope _ hscope h s rfl
  · obtain ⟨e, -, he⟩ := Engine.evaluateText_eq_ok_iff.mp h
    exact hyields e _ scope _ hscope he s rfl
  · rw [evaluate_limited hlimit hscope hvs]
    refine ⟨fun s hs hlong => ?_, bind_holdLength_of_within⟩
    rw [hs]
    exact holdLength_of_lt hlong

/-! ### A limit of three scalars -/

/-- A host function that returns text of four characters. -/
def longText : Registration HostFunction where
  name := Text.of "long"
  types := none
  body _ _ := pure (.text (Text.of "abcd"))

/-- An engine with a limit of three. -/
def threeScalars : Engine := ⟨{ maxStringLength := some 3 }, Registry.empty.add longText⟩

/-- `x`, with the value `"ab"`. -/
def boundPair : Scope := Scope.empty.set (.text (Text.of "x")) (.string (.ofScalars ['a', 'b']))

/-- The variable `x`. -/
def readX : Expr := .var (.text (Text.of "x")) none

/-- `x[0] = 'é'`. -/
def replaceFirst : Statement :=
  .indexAssign (.text (Text.of "x")) (.int (.int 0) none) (.char (.int 0xE9) none) none

/-- A scalar of two bytes takes the place of one. Doubling the string fails, and so does the
function. -/
theorem strings_within_limit_of_three :
    (threeScalars.stateAfter (.start boundPair) [replaceFirst]).scope.All (Value.Within 3) ∧
      (evaluate threeScalars 2 boundPair (.binary .add readX readX none)).result =
        .error (.at_ (.tooLong 4 3) none) ∧
      (evaluate threeScalars 1 boundPair (.call (.text (Text.of "long")) [] none)).result =
        .error (.at_ (.tooLong 4 3) none) := by
  have hlimit : threeScalars.settings.maxStringLength = some 3 := rfl
  obtain ⟨hrun, -, -, -, hown⟩ := strings_within_limit hlimit
  have hpair : (Value.string (.ofScalars ['a', 'b'])).Within 3 := by
    rintro s ⟨⟩
    decide
  have hscope : boundPair.All (Value.Within 3) := (Scope.all_empty _).set hpair
  refine ⟨hrun boundPair [replaceFirst] hscope, ?_, ?_⟩
  · have hjoin := hown 1 boundPair (.binary .add readX readX none)
      [.string (.ofScalars ['a', 'b']), .string (.ofScalars ['a', 'b'])] hscope rfl
    exact hjoin.1 (.ofScalars ['a', 'b', 'a', 'b']) rfl (by decide)
  · have hcall := hown 0 boundPair (.call (.text (Text.of "long")) [] none) [] hscope rfl
    exact hcall.1 (.ofScalars ['a', 'b', 'c', 'd']) rfl (by decide)

end ScalarScript
