import ScalarScript.Proofs.Evaluation.Escape
import ScalarScript.Proofs.Places
import ScalarScript.Proofs.Source.Order

/-!
# Where failures stand

A statement fails in one of its own checks, at the end of the depth, or at a node of one of its
expressions. The operations put the place that they are given on their failures, and a node gives
them its own. So an `EvalError` stands at the node where the evaluation fails, whatever is around
it, and otherwise at the statement. A host function alone could bring a place of its own, from text
that it evaluates or out of nowhere, if it raises an `EvalError` itself.

In a document nothing has a place. What is read from a source has one everywhere, and then the error
has one too.

* `RaisesNoEval`: no registered function raises an `EvalError`.
* `FailsWithin`: a run fails at its first statement that does not succeed, and the error stands in
  it.

Results:
* `position_of_combine`: the failure of a node stands at the node.
* `exists_node_of_evaluate`: the failure of an evaluation stands at a node of the tree.
* `position_of_perform`: the failure of a statement stands at the statement or at a node in it.
* `Script.exists_positions_parse`: what is read from a source has a place.
* **`errors_stand_in_failing_statement`**: every error of a source stands in the statement that
  fails.
-/

namespace ScalarScript

/-- No function fails with an `EvalError`, on arguments that its registration takes, if text is
evaluated on the engine to any depth. A function that evaluates text and lets the error of that pass
raises it itself. -/
def Engine.RaisesNoEval (engine : Engine) : Prop :=
  ∀ r ∈ engine.functions.registrations, ∀ arguments, r.accepts arguments = true → ∀ depth err,
    (r.body (evaluateSource (evaluate engine depth) Scope.empty) arguments).result ≠
      .error (.eval err)

/-! ## Expressions -/

section Expressions

variable {engine : Engine} {depth : Nat} {scope : Scope} {err : EvalError}

/-- A call fails at its own place. -/
theorem position_of_callFunction (hraise : engine.RaisesNoEval) {name : Datum} {vs : List Value}
    {pos : Option Position}
    (h : (callFunction engine (evaluateSource (evaluate engine depth) Scope.empty) name vs
      pos).result = .error (.eval err)) : err.position = pos := by
  unfold callFunction at h
  rw [Traced.result_bind_eq_error_iff] at h
  rcases h with h | ⟨function, hfind, h⟩
  · exact (placed_findFunction engine name vs).position_eq h
  rw [Traced.result_bind_eq_error_iff] at h
  rcases h with h | ⟨v, -, h⟩
  · rw [Traced.result_mapFailure, Except.mapError_eq_error_iff] at h
    obtain ⟨g, hg, hcall⟩ := h
    cases g with
    | fault fault =>
      cases hcall
      rfl
    | host | tooDeep => cases hcall
    | eval e =>
      rw [Traced.result_ofExcept] at hfind
      obtain ⟨r, hr, haccepts, rfl⟩ := findFunction_eq_ok hfind
      rcases Traced.result_bind_eq_error_iff.mp hg with hbody | ⟨v, -, hv⟩
      · exact absurd hbody (hraise r hr vs haccepts depth e)
      · obtain ⟨_, hfault⟩ := fault_of_hostResult hv
        cases hfault
  · exact (placed_checkResult name v).position_eq h

/-- The failure of a node stands at the node. -/
theorem position_of_combine (hraise : engine.RaisesNoEval) {e : Expr} {vs : List Value}
    (h : (combine engine (evaluateSource (evaluate engine depth) Scope.empty) scope e vs).result =
      .error (.eval err)) : err.position = e.position := by
  cases e with
  | string s pos => exact (placed_checkLength s).position_eq h
  | char d pos => exact (placed_characterValue d).position_eq h
  | int d pos | bool d pos => cases h
  | var name pos => exact (placed_readVariable scope name).position_eq h
  | binary op left right pos =>
    rcases vs with _ | ⟨a, _ | ⟨b, _ | ⟨c, vs⟩⟩⟩
    · cases h
    · cases h
    · exact (placed_applyBinary op a b).position_eq h
    · cases h
  | unary op operand pos =>
    rcases vs with _ | ⟨v, _ | ⟨w, vs⟩⟩
    · cases h
    · exact (placed_applyUnary op v).position_eq h
    · cases h
  | method target name arguments pos => exact position_of_callFunction hraise h
  | call name arguments pos => exact position_of_callFunction hraise h
  | index target i pos =>
    rcases vs with _ | ⟨a, _ | ⟨b, _ | ⟨c, vs⟩⟩⟩
    · cases h
    · cases h
    · exact (placed_readIndex a b).position_eq h
    · cases h

/-- **The failure of an evaluation stands at a node of the tree.** -/
theorem exists_node_of_evaluate (hraise : engine.RaisesNoEval) {e : Expr}
    (h : (evaluate engine depth scope e).result = .error (.eval err)) :
    ∃ x ∈ e.nodes, err.position = x.position := by
  induction depth generalizing e with
  | zero => cases h
  | succ depth ih =>
    rcases evaluate_error_iff.mp h with ⟨before, operand, after, hx, -, h⟩ | ⟨vs, -, h⟩
    · obtain ⟨x, hmem, hposition⟩ := ih h
      have hoperand : operand ∈ e.operands := by
        rw [hx]
        exact List.mem_append_right _ List.mem_cons_self
      exact ⟨x, Expr.nodes_subset_of_mem_operands hoperand hmem, hposition⟩
    · exact ⟨e, e.mem_nodes_self, position_of_combine hraise h⟩

end Expressions

/-! ## Statements -/

section Statements

variable {engine : Engine} {state : State} {s : Statement} {err : EvalError}

/-- A plan fails in a check of its own or as an expression of the statement. -/
theorem position_of_plan {value : Expr → Traced Log.Record Value}
    (hvalue : ∀ e ∈ s.expressions, (value e).result = .error (.eval err) →
      ∃ x ∈ e.nodes, err.position = x.position)
    (h : (plan value state s).result = .error (.eval err)) :
    err.position = s.position ∨ ∃ x ∈ s.nodes, err.position = x.position := by
  have hnode (e : Expr) (he : e ∈ s.expressions)
      (hfails : (value e).result = .error (.eval err)) :
      ∃ x ∈ s.nodes, err.position = x.position := by
    obtain ⟨x, hx, hposition⟩ := hvalue e he hfails
    exact ⟨x, List.mem_flatMap.mpr ⟨e, he, hx⟩, hposition⟩
  cases s with
  | declare name e pos | constant name e pos =>
    rcases Traced.result_bind_eq_error_iff.mp h with h | ⟨v, -, h⟩
    · exact .inr (hnode e List.mem_cons_self h)
    rcases Traced.result_bind_eq_error_iff.mp h with h | ⟨key, -, h⟩
    · -- A name that cannot be looked up is a failure of the host.
      simp only [Traced.result_ofExcept, declarable] at h
      split at h <;> cases h
    · cases h
  | assign name e pos =>
    rcases Traced.result_bind_eq_error_iff.mp h with h | ⟨target, -, h⟩
    · exact .inl ((placed_assignable state name).position_eq h)
    rcases Traced.result_bind_eq_error_iff.mp h with h | ⟨v, -, h⟩
    · exact .inr (hnode e List.mem_cons_self h)
    · cases h
  | indexAssign name i e pos =>
    rcases Traced.result_bind_eq_error_iff.mp h with h | ⟨target, -, h⟩
    · exact .inl ((placed_assignable state name).position_eq h)
    rcases Traced.result_bind_eq_error_iff.mp h with h | ⟨s, -, h⟩
    · exact .inl ((placed_indexable target.2).position_eq h)
    rcases Traced.result_bind_eq_error_iff.mp h with h | ⟨index, -, h⟩
    · exact .inr (hnode i List.mem_cons_self h)
    rcases Traced.result_bind_eq_error_iff.mp h with h | ⟨n, -, h⟩
    · exact .inl ((placed_indexNumber index).position_eq h)
    rcases Traced.result_bind_eq_error_iff.mp h with h | ⟨scalar, -, h⟩
    · exact .inr (hnode e (List.mem_cons_of_mem _ List.mem_cons_self) h)
    rcases Traced.result_bind_eq_error_iff.mp h with h | ⟨c, -, h⟩
    · exact .inl ((placed_singleScalar scalar).position_eq h)
    rcases Traced.result_bind_eq_error_iff.mp h with h | ⟨t, -, h⟩
    · exact .inl ((placed_replaceScalar s n c).position_eq h)
    · cases h
  | print e pos =>
    rcases Traced.result_bind_eq_error_iff.mp h with h | ⟨v, -, h⟩
    · exact .inr (hnode e List.mem_cons_self h)
    rcases Traced.result_bind_eq_error_iff.mp h with h | ⟨line, -, h⟩
    · exact .inl ((placed_printedLine v).position_eq h)
    · cases h
  | expression e pos =>
    rcases Traced.result_bind_eq_error_iff.mp h with h | ⟨v, -, h⟩
    · exact .inr (hnode e List.mem_cons_self h)
    · cases h

/-- **The failure of a statement stands at the statement or at a node in it.** -/
theorem position_of_perform (hraise : engine.RaisesNoEval)
    (h : (engine.perform s state).result = .error (.eval err)) :
    err.position = s.position ∨ ∃ x ∈ s.nodes, err.position = x.position := by
  obtain ⟨g, hg, hplaced⟩ := perform_eq_error_iff.mp h
  cases g with
  | eval e =>
    cases hplaced
    exact position_of_plan (fun e _ => exists_node_of_evaluate hraise) hg
  | tooDeep =>
    cases hplaced
    exact .inl rfl
  | fault | host => cases hplaced

end Statements

/-! ## Sources -/

/-- The statements of a script that is parsed have places, and so have their nodes. -/
theorem Script.exists_positions_parse {source : Text} {name : Datum} {script : Script}
    (h : Script.parse source name = .ok script) :
    ∀ s ∈ script.statements, (∃ p, s.position = some p) ∧
      ∀ e ∈ s.nodes, ∃ p, e.position = some p := by
  obtain ⟨tokens, ss, -, hss, rfl⟩ := Grammar.parse_eq_ok_iff.mp h
  obtain ⟨d, -, -, rfl⟩ := Grammar.ofTokens_eq_ok_iff.mp hss
  exact Grammar.forall_statements (Q := fun _ => True)
    (fun s _ => Grammar.exists_positions s) d fun _ _ => trivial

namespace Engine

/-- A run fails with an error at its first statement that does not succeed, and the error stands at
that statement or at a node in it. -/
def FailsWithin (engine : Engine) (script : Script) (scope : Scope) (err : EvalError) : Prop :=
  ∃ before s after state p, script.statements = before ++ s :: after ∧
    (engine.execute ⟨before, script.name⟩ scope).result = .ok state ∧
    (engine.perform s state).result = .error (.eval err) ∧
    err.position = some p ∧ (s.position = some p ∨ ∃ e ∈ s.nodes, e.position = some p)

/-- A source is run as the script that it writes is executed. -/
theorem result_run {source : Text} {name : Datum} {script : Script}
    (h : Script.parse source name = .ok script) (engine : Engine) :
    (engine.run source name).result = (engine.execute script Scope.empty).result := by
  rw [run, Traced.result_bind, Traced.result_reported, Script.traced_eq_ok_iff.mpr h]
  rfl

/-- **Every error of a source stands in the statement that fails.** Where no registered function
raises an `EvalError` itself and a script that is parsed fails with one, in whatever scope, the
error has a place: that of the first statement that does not succeed or of a node in it. So it is
when the source is run. -/
theorem errors_stand_in_failing_statement {engine : Engine} (hraise : engine.RaisesNoEval)
    {source : Text} {name : Datum} {script : Script}
    (hparse : Script.parse source name = .ok script) :
    (∀ scope err, (engine.execute script scope).result = .error (.eval err) →
      engine.FailsWithin script scope err) ∧
    ∀ err, (engine.run source name).result = .error (.eval err) →
      engine.FailsWithin script Scope.empty err := by
  have hexecute (scope : Scope) (err : EvalError)
      (h : (engine.execute script scope).result = .error (.eval err)) :
      engine.FailsWithin script scope err := by
    rw [result_execute, executeAll_error_iff] at h
    obtain ⟨before, s, after, state, hss, hbefore, hfails⟩ := h
    have hs : s ∈ script.statements := by
      rw [hss]
      exact List.mem_append_right _ List.mem_cons_self
    obtain ⟨⟨p, hp⟩, hnodes⟩ := Script.exists_positions_parse hparse s hs
    rcases position_of_perform hraise hfails with hposition | ⟨e, he, hposition⟩
    · exact ⟨before, s, after, state, p, hss, hbefore, hfails, hposition.trans hp, .inl hp⟩
    · obtain ⟨q, hq⟩ := hnodes e he
      exact ⟨before, s, after, state, q, hss, hbefore, hfails, hposition.trans hq, .inr ⟨e, he, hq⟩⟩
  exact ⟨hexecute, fun err h => hexecute Scope.empty err (result_run hparse engine ▸ h)⟩

/-! ### A truth value that is negated -/

theorem raisesNoEval_new (settings : Settings) : (new settings).RaisesNoEval := by
  intro r hr arguments haccepts depth err hfails
  obtain rfl : r = lengthFunction := List.mem_singleton.mp hr
  obtain ⟨v, hv⟩ := exists_ok_lengthFunction haccepts _
  cases hv.symm.trans hfails

/-- `8;` and, on the next line, `7 - -true`. -/
def negatesTruth : Grammar.ScriptDerivation :=
  .statement (.expression (Grammar.exprOfPrimary
      (.literal ⟨⟨.number 8, Text.of "8", ⟨1, 1⟩⟩, rfl⟩) .noSuffix) rfl)
    ⟨⟨.mark .semicolon, Text.of ";", ⟨1, 2⟩⟩, rfl⟩
    (.last (.expression (.expr (.additive
      (.bare (.operand (.literal ⟨⟨.number 7, Text.of "7", ⟨2, 1⟩⟩, rfl⟩) .noSuffix))
      (.add ⟨⟨.symbol .minus, Text.of "-", ⟨2, 3⟩⟩, rfl⟩
        (.unary ⟨⟨.symbol .minus, Text.of "-", ⟨2, 5⟩⟩, rfl⟩ (.bare (.operand
          (.literal ⟨⟨.keyword .true_, Text.of "true", ⟨2, 6⟩⟩, rfl⟩) .noSuffix))) .noAddition))
      .noComparison) rfl))

/-- The second statement fails, and the error stands at the inner sign. -/
theorem errors_stand_in_failing_statement_of_negation :
    Script.parse (Text.of "8;\n7 - -true") .null = .ok ⟨negatesTruth.statements, .null⟩ ∧
    (new {}).RaisesNoEval ∧
    ((new {}).run (Text.of "8;\n7 - -true") .null).result =
      .error (.eval ⟨.operand .negate "bool", some ⟨2, 5⟩⟩) ∧
    (new {}).FailsWithin ⟨negatesTruth.statements, .null⟩ Scope.empty
      ⟨.operand .negate "bool", some ⟨2, 5⟩⟩ := by
  have hscan : Tokens.scan (Text.of "8;\n7 - -true") =
      .ok ⟨negatesTruth.tokens, ⟨2, 10⟩⟩ := by decide +kernel
  have hnesting : negatesTruth.nesting ≤ Script.nestingLimit := by
    have htwo : negatesTruth.nesting = 2 := rfl
    rw [htwo, Script.nestingLimit]
    omega
  have hparse : Script.parse (Text.of "8;\n7 - -true") .null =
      .ok ⟨negatesTruth.statements, .null⟩ := Grammar.parse_of_derivation _ _ hscan hnesting
  have hrun : ((new {}).run (Text.of "8;\n7 - -true") .null).result =
      .error (.eval ⟨.operand .negate "bool", some ⟨2, 5⟩⟩) := (result_run hparse _).trans rfl
  have hraise := raisesNoEval_new {}
  exact ⟨hparse, hraise, hrun, (errors_stand_in_failing_statement hraise hparse).2 _ hrun⟩

end Engine

end ScalarScript
