import ScalarScript.Proofs.Evaluation.Operators
import ScalarScript.Proofs.Evaluation.TextNames
import ScalarScript.Proofs.FailedRun

/-!
# Failures that escape

A run should fail with an `EvalError` and nothing else. It does not, in one case: where it comes to
joining a string with host text that holds a surrogate, the fault of the string operation leaves
the engine as it is. This module proves that there is no other case, for scripts whose names are
texts and host functions that raise nothing but faults.

* `RaisesOnlyFaults`: no registered function fails with what is the host's own.
* `Escapes`: evaluating an expression comes to such a joining before anything fails.
* `Reaches`: performing a statement comes to evaluating an expression.

Results:
* `combine_error`, `evaluate_error`, `perform_error_cases`: the failures of a node, of an expression
  and of a statement.
* `evaluate_of_escapes`, `perform_of_reaches`: what is joined so does escape.
* **`execute_result`**: the outcomes of a script, and exactly when a fault escapes.
-/

namespace ScalarScript

/-- No function fails with what is the host's own, on arguments that its registration takes, if
evaluating text does not. -/
def Engine.RaisesOnlyFaults (engine : Engine) : Prop :=
  ∀ r ∈ engine.functions.registrations, ∀ arguments, r.accepts arguments = true →
    ∀ text : Text → Traced Log.Record Value, (∀ source h, (text source).result ≠ .error (.host h)) →
      ∀ h, (r.body text arguments).result ≠ .error (.host h)

/-! ## Nodes -/

section Nodes

variable {engine : Engine} {text : Text → Traced Log.Record Value} {scope : Scope} {f : Failure}

theorem onlyEval_findFunction (t : Text) (arguments : List Value) (pos : Option Position) :
    OnlyEval (findFunction engine (.text t) arguments pos) := by
  simp only [findFunction, Name.ofDatum?]
  split
  · exact onlyEval_at _
  · exact onlyEval_ok _

/-- The value of a function is refused with a fault alone. -/
theorem fault_of_hostResult {v : Value} {g : Failure} (h : hostResult v = .error g) :
    ∃ fault, g = .fault fault := by
  unfold hostResult at h
  split at h
  · split at h <;> cases h
    exact ⟨_, rfl⟩
  · cases h

/-- A call fails with an `EvalError`, or at the end of the depth in the function. -/
theorem callFunction_error {t : Text} {arguments : List Value} {pos : Option Position}
    (hf : engine.RaisesOnlyFaults) (htext : ∀ source h, (text source).result ≠ .error (.host h))
    (h : (callFunction engine text (.text t) arguments pos).result = .error f) :
    (∃ e, f = .eval e) ∨ f = .tooDeep := by
  unfold callFunction at h
  rw [Traced.result_bind_eq_error_iff] at h
  rcases h with h | ⟨function, hfind, h⟩
  · exact .inl (onlyEval_findFunction t arguments pos f h)
  rw [Traced.result_bind_eq_error_iff] at h
  rcases h with h | ⟨v, -, h⟩
  · rw [Traced.result_mapFailure, Except.mapError_eq_error_iff] at h
    obtain ⟨g, hg, rfl⟩ := h
    rw [Traced.result_bind_eq_error_iff] at hg
    cases g with
    | eval e => exact .inl ⟨e, rfl⟩
    | fault e => exact .inl ⟨_, rfl⟩
    | tooDeep => exact .inr rfl
    | host g =>
      rw [Traced.result_ofExcept] at hfind
      obtain ⟨r, hr, haccepts, rfl⟩ := findFunction_eq_ok hfind
      rcases hg with hg | ⟨v, -, hv⟩
      · exact absurd hg (hf r hr arguments haccepts text htext g)
      · obtain ⟨_, hfault⟩ := fault_of_hostResult hv
        cases hfault
  · exact .inl (onlyEval_checkResult _ _ f h)

/-- A node whose name is a text fails with an `EvalError`, at the end of the depth in a function,
or where it is a `+` whose operands clash. -/
theorem combine_error {e : Expr} {vs : List Value} (he : e.TextNames)
    (hf : engine.RaisesOnlyFaults) (htext : ∀ source h, (text source).result ≠ .error (.host h))
    (h : (combine engine text scope e vs).result = .error f) :
    (∃ err, f = .eval err) ∨ f = .tooDeep ∨
      ∃ left right pos a b p, e = .binary .add left right pos ∧ vs = [a, b] ∧ Clash a b p ∧
        f = .surrogate p := by
  cases e with
  | string s pos => exact .inl (onlyEval_checkLength s f h)
  | char d pos => exact .inl (onlyEval_characterValue d f h)
  | int d pos => cases h
  | bool d pos => cases h
  | var name pos =>
    obtain ⟨t, rfl⟩ := he.own rfl
    exact .inl (onlyEval_readVariable scope t f h)
  | binary op left right pos =>
    match vs with
    | [a, b] =>
      rcases applyBinary_error h with h | ⟨p, rfl, hclash, rfl⟩
      · exact .inl h
      · exact .inr (.inr ⟨left, right, pos, a, b, p, rfl, rfl, hclash, rfl⟩)
    | [] | [_] | _ :: _ :: _ :: _ =>
      cases h
      exact .inr (.inl rfl)
  | unary op operand pos =>
    match vs with
    | [v] => exact .inl (onlyEval_applyUnary op v f h)
    | [] | _ :: _ :: _ =>
      cases h
      exact .inr (.inl rfl)
  | method target name arguments pos =>
    obtain ⟨t, rfl⟩ := he.own rfl
    exact (callFunction_error hf htext h).imp_right .inl
  | call name arguments pos =>
    obtain ⟨t, rfl⟩ := he.own rfl
    exact (callFunction_error hf htext h).imp_right .inl
  | index target i pos =>
    match vs with
    | [v, w] => exact .inl (onlyEval_readIndex v w f h)
    | [] | [_] | _ :: _ :: _ :: _ =>
      cases h
      exact .inr (.inl rfl)

end Nodes

/-! ## Expressions -/

/-- Evaluating an expression comes to joining a string with host text whose first surrogate is `p`:
at the root, or in the first operand that has no value. -/
inductive Escapes (engine : Engine) (scope : Scope) (p : CodePoint) : Nat → Expr → Prop
  | join {depth : Nat} {left right : Expr} {pos : Option Position} {a b : Value}
    (hleft : (evaluate engine depth scope left).result = .ok a)
    (hright : (evaluate engine depth scope right).result = .ok b) (hclash : Clash a b p) :
    Escapes engine scope p (depth + 1) (.binary .add left right pos)
  | operand {depth : Nat} {e operand : Expr} {before after : List Expr}
    (hoperands : e.operands = before ++ operand :: after)
    (hbefore : ∀ x ∈ before, ∃ v, (evaluate engine depth scope x).result = .ok v)
    (h : Escapes engine scope p depth operand) : Escapes engine scope p (depth + 1) e

/-- What escapes is the fault of the surrogate. -/
theorem evaluate_of_escapes {engine : Engine} {scope : Scope} {p : CodePoint} {depth : Nat}
    {e : Expr} (h : Escapes engine scope p depth e) :
    (evaluate engine depth scope e).result = .error (.surrogate p) := by
  induction h with
  | join hleft hright hclash =>
    refine evaluate_error_iff.mpr (.inr ⟨[_, _], ?_, applyAdd_of_clash hclash⟩)
    simp only [Expr.operands, List.map_cons, List.map_nil, hleft, hright]
  | operand hoperands hbefore _ ih =>
    exact evaluate_error_iff.mpr (.inl ⟨_, _, _, hoperands, hbefore, ih⟩)

/-- Text that is evaluated on the engine fails with nothing of the host's own, if expressions do
not. -/
theorem evaluateSource_ne_host {value : Scope → Expr → Traced Log.Record Value} {scope : Scope}
    (hvalue : ∀ e : Expr, e.TextNames → ∀ h, (value scope e).result ≠ .error (.host h))
    (source : Text) (h : HostFailure) :
    (evaluateSource value scope source).result ≠ .error (.host h) := by
  intro hs
  rw [evaluateSource, Traced.result_bind_eq_error_iff] at hs
  rcases hs with hs | ⟨e, he, hs⟩
  · rw [Expr.traced, Traced.result_bind_eq_error_iff] at hs
    rcases hs with hs | ⟨tokens, -, hs⟩
    · obtain ⟨_, -, hf⟩ := Except.mapError_eq_error_iff.mp hs
      cases hf
    · obtain ⟨_, -, hf⟩ := Except.mapError_eq_error_iff.mp hs
      cases hf
  · rw [Expr.traced, Traced.result_bind_eq_ok_iff] at he
    obtain ⟨tokens, -, he⟩ := he
    have hnames := Expr.textNames_ofTokens (Except.mapError_eq_ok_iff.mp he)
    obtain ⟨f, hf, hplaced⟩ := Except.mapError_eq_error_iff.mp hs
    cases f with
    | host g => exact hvalue e hnames g hf
    | eval err => cases hplaced
    | fault g => cases hplaced
    | tooDeep => cases hplaced

/-- **How an evaluation fails.** -/
theorem evaluate_error {engine : Engine} (hf : engine.RaisesOnlyFaults) {depth : Nat}
    {scope : Scope} {e : Expr} {f : Failure} (he : e.TextNames)
    (h : (evaluate engine depth scope e).result = .error f) :
    (∃ err, f = .eval err) ∨ f = .tooDeep ∨
      ∃ p, Escapes engine scope p depth e ∧ f = .surrogate p := by
  induction depth generalizing scope e f with
  | zero =>
    cases h
    exact .inr (.inl rfl)
  | succ depth ih =>
    rcases evaluate_error_iff.mp h with ⟨before, x, after, hx, hbefore, h⟩ | ⟨vs, hvs, h⟩
    · have hmem : x ∈ e.operands := by rw [hx]; exact List.mem_append_right _ List.mem_cons_self
      rcases ih (he.of_operand hmem) h with h | h | ⟨p, hp, rfl⟩
      · exact .inl h
      · exact .inr (.inl h)
      · exact .inr (.inr ⟨p, .operand hx hbefore hp, rfl⟩)
    · have htext : ∀ source g,
          (evaluateSource (evaluate engine depth) Scope.empty source).result ≠ .error (.host g) :=
        evaluateSource_ne_host fun e he g hg => by
          rcases ih he hg with ⟨_, h⟩ | h | ⟨_, _, h⟩ <;> cases h
      rcases combine_error he hf htext h with h | h | ⟨left, right, pos, a, b, p, rfl, rfl, hc, rfl⟩
      · exact .inl h
      · exact .inr (.inl h)
      · obtain ⟨hl, hrest⟩ := List.cons.inj hvs
        exact .inr (.inr ⟨p, .join hl (List.cons.inj hrest).1 hc, rfl⟩)

/-! ## Statements -/

/-- Performing a statement in a state comes to evaluating an expression. -/
inductive Reaches (engine : Engine) (state : State) : Statement → Expr → Prop
  | declare {name : Datum} {e : Expr} {pos : Option Position} :
    Reaches engine state (.declare name e pos) e
  | constant {name : Datum} {e : Expr} {pos : Option Position} :
    Reaches engine state (.constant name e pos) e
  | assign {name : Datum} {e : Expr} {pos : Option Position} {target : Name × Value}
    (htarget : assignable state name pos = .ok target) :
    Reaches engine state (.assign name e pos) e
  | index {name : Datum} {i e : Expr} {pos : Option Position} {key : Name} {s : ScalarString}
    (htarget : assignable state name pos = .ok (key, .string s)) :
    Reaches engine state (.indexAssign name i e pos) i
  | replacement {name : Datum} {i e : Expr} {pos : Option Position} {key : Name}
    {s : ScalarString} {n : Int} (htarget : assignable state name pos = .ok (key, .string s))
    (hindex : (evaluate engine Engine.depth state.scope i).result = .ok (.int n)) :
    Reaches engine state (.indexAssign name i e pos) e
  | print {e : Expr} {pos : Option Position} : Reaches engine state (.print e pos) e
  | expression {e : Expr} {pos : Option Position} : Reaches engine state (.expression e pos) e

section Statements

variable {engine : Engine} {state : State} {s : Statement} {f : Failure}

/-- A statement fails as its plan does, the end of the depth placed. -/
theorem perform_eq_error_iff :
    (engine.perform s state).result = .error f ↔
      ∃ g, (plan (evaluate engine Engine.depth state.scope) state s).result = .error g ∧
        g.placed s.position = f := by
  rw [Engine.perform_eq, result_commit, Except.map_eq_error_iff, Engine.plan,
    Traced.result_mapFailure, Except.mapError_eq_error_iff]

/-- What is joined where a statement comes to it escapes from the statement. -/
theorem perform_of_reaches {e : Expr} {p : CodePoint} (hr : Reaches engine state s e)
    (he : Escapes engine state.scope p Engine.depth e) :
    (engine.perform s state).result = .error (.surrogate p) := by
  have hvalue := evaluate_of_escapes he
  refine perform_eq_error_iff.mpr ⟨.surrogate p, ?_, rfl⟩
  cases hr with
  | declare | constant | print | expression =>
    exact Traced.result_bind_eq_error_iff.mpr (.inl hvalue)
  | assign htarget =>
    exact Traced.result_bind_eq_error_iff.mpr (.inr ⟨_, htarget,
      Traced.result_bind_eq_error_iff.mpr (.inl hvalue)⟩)
  | index htarget =>
    refine Traced.result_bind_eq_error_iff.mpr (.inr ⟨_, htarget, ?_⟩)
    refine Traced.result_bind_eq_error_iff.mpr (.inr ⟨_, rfl, ?_⟩)
    exact Traced.result_bind_eq_error_iff.mpr (.inl hvalue)
  | replacement htarget hindex =>
    refine Traced.result_bind_eq_error_iff.mpr (.inr ⟨_, htarget, ?_⟩)
    refine Traced.result_bind_eq_error_iff.mpr (.inr ⟨_, rfl, ?_⟩)
    refine Traced.result_bind_eq_error_iff.mpr (.inr ⟨_, hindex, ?_⟩)
    refine Traced.result_bind_eq_error_iff.mpr (.inr ⟨_, rfl, ?_⟩)
    exact Traced.result_bind_eq_error_iff.mpr (.inl hvalue)

theorem onlyEval_assignable (t : Text) (pos : Option Position) :
    OnlyEval (assignable state (.text t) pos) := by
  simp only [assignable, Name.ofDatum?]
  split
  · exact onlyEval_at _
  · split
    · exact onlyEval_at _
    · exact onlyEval_ok _

theorem onlyEval_indexable (v : Value) (pos : Option Position) : OnlyEval (indexable v pos) := by
  unfold indexable
  split
  · exact onlyEval_ok _
  · exact onlyEval_at _

theorem onlyEval_indexNumber (v : Value) (pos : Option Position) :
    OnlyEval (indexNumber v pos) := by
  unfold indexNumber
  split
  · exact onlyEval_ok _
  · exact onlyEval_at _

theorem onlyEval_singleScalar (v : Value) (pos : Option Position) :
    OnlyEval (singleScalar v pos) := by
  unfold singleScalar
  split
  · split
    · split
      · exact onlyEval_ok _
      · exact onlyEval_at _
    · exact onlyEval_at _
  · exact onlyEval_at _

theorem onlyEval_replaceScalar (s : ScalarString) (i : Int) (c : Char) (pos : Option Position) :
    OnlyEval (replaceScalar s i c pos) := by
  intro f h
  obtain ⟨e, -, rfl⟩ := Except.mapError_eq_error_iff.mp h
  exact ⟨_, rfl⟩

theorem onlyEval_printedLine (v : Value) (pos : Option Position) :
    OnlyEval (printedLine v pos) := by
  intro f h
  obtain ⟨e, -, rfl⟩ := Except.mapError_eq_error_iff.mp h
  exact ⟨_, rfl⟩

theorem eq_string_of_indexable {v : Value} {s : ScalarString} {pos : Option Position}
    (h : indexable v pos = .ok s) : v = .string s := by
  unfold indexable at h
  split at h
  · cases h
    rfl
  · cases h

theorem eq_int_of_indexNumber {v : Value} {n : Int} {pos : Option Position}
    (h : indexNumber v pos = .ok n) : v = .int n := by
  unfold indexNumber at h
  split at h
  · cases h
    rfl
  · cases h

/-- A plan fails with an `EvalError`, or as an expression that it comes to. -/
theorem plan_error (hs : s.TextNames)
    (h : (plan (evaluate engine Engine.depth state.scope) state s).result = .error f) :
    (∃ err, f = .eval err) ∨ ∃ e ∈ s.expressions, Reaches engine state s e ∧
      (evaluate engine Engine.depth state.scope e).result = .error f := by
  cases s with
  | declare name e pos =>
    obtain ⟨t, rfl⟩ := hs.own name rfl
    rcases Traced.result_bind_eq_error_iff.mp h with h | ⟨v, -, h⟩
    · exact .inr ⟨e, List.mem_singleton_self e, .declare, h⟩
    · cases h
  | constant name e pos =>
    obtain ⟨t, rfl⟩ := hs.own name rfl
    rcases Traced.result_bind_eq_error_iff.mp h with h | ⟨v, -, h⟩
    · exact .inr ⟨e, List.mem_singleton_self e, .constant, h⟩
    · cases h
  | assign name e pos =>
    obtain ⟨t, rfl⟩ := hs.own name rfl
    rcases Traced.result_bind_eq_error_iff.mp h with h | ⟨target, htarget, h⟩
    · exact .inl (onlyEval_assignable t pos f h)
    rcases Traced.result_bind_eq_error_iff.mp h with h | ⟨v, -, h⟩
    · exact .inr ⟨e, List.mem_singleton_self e, .assign htarget, h⟩
    · cases h
  | indexAssign name i e pos =>
    obtain ⟨t, rfl⟩ := hs.own name rfl
    rcases Traced.result_bind_eq_error_iff.mp h with h | ⟨⟨key, current⟩, htarget, hstring⟩
    · exact .inl (onlyEval_assignable t pos f h)
    rcases Traced.result_bind_eq_error_iff.mp hstring with h | ⟨s, hs, hindex⟩
    · exact .inl (onlyEval_indexable current pos f h)
    cases eq_string_of_indexable hs
    rcases Traced.result_bind_eq_error_iff.mp hindex with h | ⟨index, hindex, hnumber⟩
    · exact .inr ⟨i, List.mem_cons_self, .index htarget, h⟩
    rcases Traced.result_bind_eq_error_iff.mp hnumber with h | ⟨n, hn, hscalar⟩
    · exact .inl (onlyEval_indexNumber index pos f h)
    cases eq_int_of_indexNumber hn
    rcases Traced.result_bind_eq_error_iff.mp hscalar with h | ⟨scalar, -, hsingle⟩
    · exact .inr ⟨e, List.mem_cons_of_mem i List.mem_cons_self, .replacement htarget hindex, h⟩
    rcases Traced.result_bind_eq_error_iff.mp hsingle with h | ⟨c, -, hreplace⟩
    · exact .inl (onlyEval_singleScalar scalar pos f h)
    rcases Traced.result_bind_eq_error_iff.mp hreplace with h | ⟨u, -, h⟩
    · exact .inl (onlyEval_replaceScalar s n c pos f h)
    · cases h
  | print e pos =>
    rcases Traced.result_bind_eq_error_iff.mp h with h | ⟨v, -, h⟩
    · exact .inr ⟨e, List.mem_singleton_self e, .print, h⟩
    rcases Traced.result_bind_eq_error_iff.mp h with h | ⟨line, -, h⟩
    · exact .inl (onlyEval_printedLine v pos f h)
    · cases h
  | expression e pos =>
    rcases Traced.result_bind_eq_error_iff.mp h with h | ⟨v, -, h⟩
    · exact .inr ⟨e, List.mem_singleton_self e, .expression, h⟩
    · cases h

/-- **How a statement fails.** -/
theorem perform_error_cases (hf : engine.RaisesOnlyFaults) (hs : s.TextNames)
    (h : (engine.perform s state).result = .error f) :
    (∃ err, f = .eval err) ∨ ∃ e p, Reaches engine state s e ∧
      Escapes engine state.scope p Engine.depth e ∧ f = .surrogate p := by
  obtain ⟨g, hg, rfl⟩ := perform_eq_error_iff.mp h
  rcases plan_error hs hg with ⟨err, rfl⟩ | ⟨e, he, hr, hvalue⟩
  · exact .inl ⟨err, rfl⟩
  rcases evaluate_error hf (hs.expressions e he) hvalue with ⟨err, rfl⟩ | rfl | ⟨p, hp, rfl⟩
  · exact .inl ⟨err, rfl⟩
  · exact .inl ⟨_, rfl⟩
  · exact .inr ⟨e, p, hr, hp, rfl⟩

end Statements

/-! ## Scripts -/

theorem surrogate_injective {p q : CodePoint} (h : Failure.surrogate p = .surrogate q) : p = q := by
  injection h with h
  injection h with h
  injection h with h
  injection h with h
  exact CodePoint.toNat_injective (Int.ofNat.inj h)

/-- Running a script comes to joining a string with host text whose first surrogate is `p`. -/
def Script.JoinsSurrogate (script : Script) (engine : Engine) (scope : Scope) (p : CodePoint) :
    Prop :=
  ∃ before s after state e, script.statements = before ++ s :: after ∧
    (engine.execute ⟨before, script.name⟩ scope).result = .ok state ∧
    Reaches engine state s e ∧ Escapes engine state.scope p Engine.depth e

/-- **The outcomes of a script.** With texts for names and functions that raise only faults, a
script has a final state, fails with an `EvalError`, or fails with the fault of a surrogate; and
the last exactly where it comes to joining a string with host text that holds it. So, where it
never comes to that, every failure is an `EvalError`. -/
theorem execute_result (engine : Engine) (hf : engine.RaisesOnlyFaults) (script : Script)
    (hs : script.TextNames) (scope : Scope) :
    ((∃ final, (engine.execute script scope).result = .ok final) ∨
      (∃ err, (engine.execute script scope).result = .error (.eval err)) ∨
      ∃ p, (engine.execute script scope).result = .error (.surrogate p)) ∧
    (∀ p, (engine.execute script scope).result = .error (.surrogate p) ↔
      script.JoinsSurrogate engine scope p) ∧
    ((∀ p, ¬script.JoinsSurrogate engine scope p) →
      (∃ final, (engine.execute script scope).result = .ok final) ∨
        ∃ err, (engine.execute script scope).result = .error (.eval err)) := by
  have hcases : ∀ f, (engine.execute script scope).result = .error f →
      (∃ err, f = .eval err) ∨ ∃ p, f = .surrogate p ∧ script.JoinsSurrogate engine scope p := by
    intro f h
    rw [Engine.result_execute, Engine.executeAll_error_iff] at h
    obtain ⟨before, s, after, state, hss, hbefore, hfail⟩ := h
    have hmem : s ∈ script.statements := by
      rw [hss]
      exact List.mem_append_right _ List.mem_cons_self
    rcases perform_error_cases hf (hs s hmem) hfail with h | ⟨e, p, hr, he, rfl⟩
    · exact .inl h
    · exact .inr ⟨p, rfl, before, s, after, state, e, hss, hbefore, hr, he⟩
  have hjoins : ∀ p, script.JoinsSurrogate engine scope p →
      (engine.execute script scope).result = .error (.surrogate p) := by
    rintro p ⟨before, s, after, state, e, hss, hbefore, hr, he⟩
    rw [Engine.result_execute, Engine.executeAll_error_iff]
    exact ⟨before, s, after, state, hss, hbefore, perform_of_reaches hr he⟩
  refine ⟨?_, fun p => ⟨fun h => ?_, hjoins p⟩, fun hnone => ?_⟩
  · cases h : (engine.execute script scope).result with
    | ok final => exact .inl ⟨final, rfl⟩
    | error f =>
      rcases hcases f h with ⟨err, rfl⟩ | ⟨p, rfl, -⟩
      · exact .inr (.inl ⟨err, rfl⟩)
      · exact .inr (.inr ⟨p, rfl⟩)
  · rcases hcases _ h with ⟨err, he⟩ | ⟨q, hq, hjoin⟩
    · cases he
    · rwa [surrogate_injective hq]
  · cases h : (engine.execute script scope).result with
    | ok final => exact .inl ⟨final, rfl⟩
    | error f =>
      rcases hcases f h with ⟨err, rfl⟩ | ⟨p, -, hjoin⟩
      · exact .inr ⟨err, rfl⟩
      · exact absurd hjoin (hnone p)

/-! ### Host text with a surrogate -/

/-- The function that every engine starts with succeeds on what its registration takes. -/
theorem Engine.exists_ok_lengthFunction {arguments : List Value}
    (h : lengthFunction.accepts arguments = true) (text : Text → Traced Log.Record Value) :
    ∃ v, (lengthFunction.body text arguments).result = .ok v := by
  match arguments with
  | [.string s] => exact ⟨_, rfl⟩
  | [] | [.text _] | [.bool _] | [.int _] | [.float _] | [.none] | [.list _] | [.object _] =>
    cases h
  | _ :: _ :: _ => simp [lengthFunction, Registration.accepts] at h

/-- The functions that all engines have raise nothing on what their registrations take. -/
theorem Engine.raisesOnlyFaults_new (settings : Settings) : (new settings).RaisesOnlyFaults := by
  intro r hr arguments haccepts text _ h hfails
  obtain rfl : r = lengthFunction := List.mem_singleton.mp hr
  obtain ⟨v, hv⟩ := exists_ok_lengthFunction haccepts text
  cases hv.symm.trans hfails

/-- A script that prints `"a" + x`. -/
def printJoined : Script where
  statements := [.print (.binary .add (.string (ScalarString.ofScalars ['a']) none)
    (.var (.text (Text.of "x")) none) none) none]
  name := .null

/-- A scope in which `x` is host text, one surrogate. -/
def surrogateScope : Scope := ⟨[(.text (Text.of "x"), .text [.surrogate 0])]⟩

/-- The names of `"a" + x` are texts, all functions raise only faults, and what escapes is the fault
of the surrogate. -/
theorem execute_result_of_surrogate :
    (Engine.new {}).RaisesOnlyFaults ∧ printJoined.TextNames ∧
      printJoined.JoinsSurrogate (Engine.new {}) surrogateScope (.surrogate 0) ∧
      ((Engine.new {}).execute printJoined surrogateScope).result =
        .error (.surrogate (.surrogate 0)) := by
  have hf := Engine.raisesOnlyFaults_new {}
  have hnames : printJoined.TextNames := by
    intro s hs
    rw [List.mem_singleton.mp hs]
    refine ⟨nofun, fun e he => ?_⟩
    rw [List.mem_singleton.mp he]
    exact .binary (.leaf rfl rfl) .var
  have hjoins : printJoined.JoinsSurrogate (Engine.new {}) surrogateScope (.surrogate 0) := by
    refine ⟨[], _, [], State.start surrogateScope, _, rfl, rfl, .print, ?_⟩
    refine .join rfl rfl ⟨ScalarString.ofScalars ['a'], [.surrogate 0], .inl ⟨rfl, rfl⟩, rfl⟩
  have hresult := (execute_result (Engine.new {}) hf printJoined hnames surrogateScope).2.1
  exact ⟨hf, hnames, hjoins, (hresult _).mpr hjoins⟩

end ScalarScript
