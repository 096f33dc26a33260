import ScalarScript.Proofs.Evaluation.Places
import ScalarScript.Proofs.FailedRun
import ScalarScript.Proofs.Json.RoundTrip

/-!
# Runs and places

Scripts that differ in nothing but places are executed in step: each statement of the one comes to
what the statement of the other comes to, in the same state. If they fail they fail together, and
the reports in the log are where the places show.

Equality of scripts leaves places out too, but it is coarser: it compares the data in a document as
the host does, for which one and true are equal. Scripts that differ in such data print different
lines. What a source can write holds no such data, and there equal scripts run the same.

* `Engine.SameRun`: two runs are the same but for the place of a failure.

Results:
* `unplaced_plan`, `perform_mapPositions`: the places in a statement bear on the place of its
  failure only.
* `perform_sameButPlaces`: one step of two runs; `executeAll_sameButPlaces`: two whole runs.
* **`sameRun_of_sameButPlaces`**: scripts that differ only in places run the same.
-/

namespace ScalarScript

/-! ## Statements -/

section Statements

variable {value : Expr → Traced Log.Record Value} {f : Option Position → Option Position}

theorem placed_assignable (state : State) (name : Datum) :
    Placed (assignable state name) := by
  intro p
  unfold assignable
  split
  · rfl
  · split
    · rfl
    · split <;> rfl

theorem placed_indexable (v : Value) : Placed (indexable v) := by
  intro p
  unfold indexable
  split <;> rfl

theorem placed_indexNumber (v : Value) : Placed (indexNumber v) := by
  intro p
  unfold indexNumber
  split <;> rfl

theorem placed_singleScalar (v : Value) : Placed (singleScalar v) := by
  intro p
  unfold singleScalar
  split
  · split
    · split <;> rfl
    · rfl
  · rfl

theorem placed_replaceScalar (s : ScalarString) (i : Int) (c : Char) :
    Placed (replaceScalar s i c) := by
  intro p
  unfold replaceScalar
  cases s.replacedAt i c <;> rfl

theorem placed_printedLine (v : Value) : Placed (printedLine v) := by
  intro p
  unfold printedLine
  cases v.render (Text.of "print") <;> rfl

/-- The places in a statement bear on the place of its failure only. -/
theorem unplaced_plan (hvalue : ∀ e, (value (e.mapPositions f)).unplaced = (value e).unplaced)
    (state : State) (s : Statement) :
    (plan value state (s.mapPositions f)).unplaced = (plan value state s).unplaced := by
  cases s with
  | declare name e pos | constant name e pos =>
    exact Traced.unplaced_bind (hvalue e) fun v => rfl
  | assign name e pos =>
    exact Traced.unplaced_bind ((placed_assignable state name).ofExcept _ _) fun target =>
      Traced.unplaced_bind (hvalue e) fun v => rfl
  | indexAssign name i e pos =>
    refine Traced.unplaced_bind ((placed_assignable state name).ofExcept _ _) fun target => ?_
    refine Traced.unplaced_bind ((placed_indexable target.2).ofExcept _ _) fun s => ?_
    refine Traced.unplaced_bind (hvalue i) fun index => ?_
    refine Traced.unplaced_bind ((placed_indexNumber index).ofExcept _ _) fun n => ?_
    refine Traced.unplaced_bind (hvalue e) fun scalar => ?_
    refine Traced.unplaced_bind ((placed_singleScalar scalar).ofExcept _ _) fun c => ?_
    exact Traced.unplaced_bind ((placed_replaceScalar s n c).ofExcept _ _) fun t => rfl
  | print e pos =>
    exact Traced.unplaced_bind (hvalue e) fun v =>
      Traced.unplaced_bind ((placed_printedLine v).ofExcept _ _) fun line => rfl
  | expression e pos => exact Traced.unplaced_bind (hvalue e) fun v => rfl

end Statements

namespace Engine

variable {engine : Engine}

/-- **One step and places**: with other places, a statement has the same effects and leaves the same
state, and it succeeds or has the same failure but for its place. -/
theorem perform_mapPositions (f : Option Position → Option Position) (engine : Engine)
    (s : Statement) :
    (engine.perform (s.mapPositions f)).mapFailure Failure.unplaced =
      (engine.perform s).mapFailure Failure.unplaced := by
  funext state
  have hplan : (engine.plan state (s.mapPositions f)).unplaced =
      (engine.plan state s).unplaced := by
    unfold plan
    rw [Traced.unplaced_mapFailure (Failure.unplaced_placed _),
      Traced.unplaced_mapFailure (Failure.unplaced_placed _),
      unplaced_plan (evaluate_mapPositions f engine depth state.scope)]
  unfold Action.mapFailure
  rw [perform_eq, perform_eq, ← commit_mapFailure, ← commit_mapFailure]
  exact congrArg (commit engine.settings state) hplan

variable {s t : Statement} {state : State}

/-- Two statements that differ in places only, in one state. -/
theorem perform_sameButPlaces (engine : Engine) (h : s.withoutPositions = t.withoutPositions)
    (state : State) :
    (engine.perform s state).effects = (engine.perform t state).effects ∧
    (engine.perform s state).state = (engine.perform t state).state ∧
    ((engine.perform s state).result = .ok () ∧ (engine.perform t state).result = .ok () ∨
      ∃ f g, (engine.perform s state).result = .error f ∧
        (engine.perform t state).result = .error g ∧ f.SameButPlace g) := by
  have hs := congrFun (perform_mapPositions (fun _ => none) engine s) state
  have ht := congrFun (perform_mapPositions (fun _ => none) engine t) state
  have heq : (engine.perform s).mapFailure Failure.unplaced state =
      (engine.perform t).mapFailure Failure.unplaced state := by
    rw [← hs, ← ht]
    exact congrArg (fun u => (engine.perform u).mapFailure Failure.unplaced state) h
  obtain ⟨heffects, hstate, hresult⟩ := Performed.mk.inj heq
  exact ⟨heffects, hstate, (Failure.outcome_of_unplaced hresult).imp_left fun ⟨_, hok⟩ => hok⟩

/-! ## Runs -/

variable {name name' : Datum} {as bs : List Statement}

/-- **Two runs in step.** Statements that differ in places only come to the same state with the same
effects; or they fail together, each with its report behind the same effects. -/
theorem executeAll_sameButPlaces (engine : Engine) (name name' : Datum) (state : State)
    (h : as.map Statement.withoutPositions = bs.map Statement.withoutPositions) :
    (∃ final, (engine.executeAll name state as).result = .ok final ∧
      (engine.executeAll name' state bs).result = .ok final ∧
      (engine.executeAll name state as).effects = (engine.executeAll name' state bs).effects) ∨
    ∃ n mid f g common, engine.FailsAt name state as n mid f ∧
      engine.FailsAt name' state bs n mid g ∧ f.SameButPlace g ∧
      (engine.executeAll name state as).effects = common ++ failureReport name f ∧
      (engine.executeAll name' state bs).effects = common ++ failureReport name' g := by
  induction as generalizing bs state with
  | nil =>
    cases bs with
    | nil => exact .inl ⟨state, rfl, rfl, rfl⟩
    | cons t bs => cases h
  | cons s as ih =>
    cases bs with
    | nil => cases h
    | cons t bs =>
      obtain ⟨hst, htail⟩ := List.cons.inj h
      obtain ⟨heffects, hstate, ⟨hs, ht⟩ | ⟨f, g, hs, ht, hfg⟩⟩ :=
        perform_sameButPlaces engine hst state
      · have ih := ih (engine.perform s state).state htail
        rw [executeAll_cons_of_ok name hs, executeAll_cons_of_ok name' ht, ← heffects, ← hstate]
        rcases ih with ⟨final, has, hbs, hrest⟩ | ⟨n, mid, f, g, common, hf, hg, hfg, hleft, hright⟩
        · exact .inl ⟨final, has, hbs, congrArg (_ ++ ·) hrest⟩
        · rw [hstate] at hg
          refine .inr ⟨n + 1, mid, f, g, (engine.perform s state).effects ++ common, hf.cons hs,
            hg.cons ht, hfg, ?_, ?_⟩
          · rw [hleft, List.append_assoc]
          · rw [hright, List.append_assoc]
      · refine .inr ⟨0, state, f, g, (engine.perform s state).effects, .head name hs,
          .head name' ht, hfg, ?_, ?_⟩
        · rw [executeAll_cons_of_error name hs]
        · rw [executeAll_cons_of_error name' ht, heffects]

/-! ## Scripts -/

/-- Two runs are the same but for the place of a failure: they print the same, and they end in one
state, or fail at the same statement in one state, with the same failure but for its place. -/
structure SameRun (engine : Engine) (a b : Script) (scope : Scope) : Prop where
  lines : Effect.linesOf (engine.execute a scope).effects =
    Effect.linesOf (engine.execute b scope).effects
  echoes : Effect.echoesOf (engine.execute a scope).effects =
    Effect.echoesOf (engine.execute b scope).effects
  outcome : (∃ final, (engine.execute a scope).result = .ok final ∧
      (engine.execute b scope).result = .ok final) ∨
    ∃ n mid f g, engine.FailsAt a.name (.start scope) a.statements n mid f ∧
      engine.FailsAt b.name (.start scope) b.statements n mid g ∧ f.SameButPlace g

/-- Scripts whose statements differ in places only run the same. -/
theorem sameRun_of_statements (engine : Engine) {a b : Script}
    (h : a.statements.map Statement.withoutPositions =
      b.statements.map Statement.withoutPositions) (scope : Scope) :
    engine.SameRun a b scope := by
  rcases executeAll_sameButPlaces engine a.name b.name (State.start scope) h with
    ⟨final, ha, hb, heffects⟩ | ⟨n, mid, f, g, common, hf, hg, hfg, hleft, hright⟩
  · refine ⟨?_, ?_, .inl ⟨final, ha, hb⟩⟩
    · rw [linesOf_execute, linesOf_execute, heffects]
    · rw [echoesOf_execute, echoesOf_execute, heffects]
  · refine ⟨?_, ?_, .inr ⟨n, mid, f, g, hf, hg, hfg⟩⟩
    · rw [linesOf_execute, linesOf_execute, hleft, hright, Effect.linesOf_append,
        Effect.linesOf_append, linesOf_failureReport, linesOf_failureReport]
    · rw [echoesOf_execute, echoesOf_execute, hleft, hright, Effect.echoesOf_append,
        Effect.echoesOf_append, echoesOf_failureReport, echoesOf_failureReport]

/-- Equal scripts that sources can write differ in places only. -/
theorem statements_of_same {a b : Script} (ha : a.WellFormed) (hb : b.WellFormed)
    (h : a.same b = true) :
    a.statements.map Statement.withoutPositions = b.statements.map Statement.withoutPositions := by
  rw [Script.same, Bool.and_eq_true, Bool.and_eq_true, beq_iff_eq] at h
  exact (Statement.same_list_iff ha hb).mp h.1

/-- The statements of a script that is read back from its JSON differ in places only. -/
theorem statements_of_read {source name : Text} {script : Script}
    (h : Script.parse source (.text name) = .ok script) :
    ∃ d read, Json.read (Json.write script.toDatum) = some d ∧ Script.ofDatum d = .ok read ∧
      script.statements.map Statement.withoutPositions =
        read.statements.map Statement.withoutPositions := by
  obtain ⟨tokens, ss, hscan, hss, rfl⟩ := Grammar.parse_eq_ok_iff.mp h
  have hs := wellFormed_ofTokens hscan hss
  obtain ⟨d, hread, hof⟩ := Json.ofDatum_read_write_joined hs name
  refine ⟨d, _, hread, hof, ?_⟩
  show ss.map Statement.withoutPositions = (ss.map (Statement.restored id)).map _
  rw [List.map_map]
  refine List.map_congr_left fun s hmem => ?_
  rw [Function.comp, (hs s hmem).withoutPositions_restored, (hs s hmem).restored_id]

/-- **Places never influence a run.** On one engine and in one scope, scripts that differ in nothing
but places run the same: they print the same lines and end in the same state, or fail at the same
statement with the same failure but for its place. Equal scripts that sources can write differ in
nothing else, and neither does a script that is parsed and the one that is read back from its
JSON. -/
theorem sameRun_of_sameButPlaces (engine : Engine) :
    (∀ (a b : Script) (scope : Scope), a.withoutPositions = b.withoutPositions →
      engine.SameRun a b scope) ∧
    (∀ (a b : Script) (scope : Scope), a.WellFormed → b.WellFormed → a.same b = true →
      engine.SameRun a b scope) ∧
    ∀ (source name : Text) (script : Script), Script.parse source (.text name) = .ok script →
      ∃ d read, Json.read (Json.write script.toDatum) = some d ∧ Script.ofDatum d = .ok read ∧
        ∀ scope, engine.SameRun script read scope := by
  refine ⟨fun a b scope h => ?_, fun a b scope ha hb h => ?_, fun source name script h => ?_⟩
  · exact sameRun_of_statements engine (congrArg Script.statements h) scope
  · exact sameRun_of_statements engine (statements_of_same ha hb h) scope
  · obtain ⟨d, read, hd, hread, hstatements⟩ := statements_of_read h
    exact ⟨d, read, hd, hread, sameRun_of_statements engine hstatements⟩

/-! ### Data that are equal and print differently -/

/-- A script of a document that prints what stands for an integer in it. -/
def printed (d : Datum) : Script := ⟨[.print (.int d none) none], .text Script.defaultName⟩

/-- One and true are equal for the host, so the scripts that print them are; both are read from
documents, and they print different lines. -/
theorem equal_scripts_print_differently :
    Script.ofDatum (printed (.int 1)).toDatum = .ok (printed (.int 1)) ∧
    Script.ofDatum (printed (.bool true)).toDatum = .ok (printed (.bool true)) ∧
    (printed (.int 1)).same (printed (.bool true)) = true ∧
    ¬ (new {}).SameRun (printed (.int 1)) (printed (.bool true)) Scope.empty := by
  have hone : Effect.linesOf ((new {}).execute (printed (.int 1)) Scope.empty).effects =
      [Text.of "1"] := rfl
  have htrue : Effect.linesOf ((new {}).execute (printed (.bool true)) Scope.empty).effects =
      [Text.of "true"] := rfl
  refine ⟨rfl, rfl, by decide, fun h => ?_⟩
  have hlines := h.lines
  rw [hone, htrue] at hlines
  exact absurd hlines (by decide)

/-! ### A name that is not bound, one column further on -/

/-- A statement that reads a name, at a column. -/
def readAt (column : Nat) : Grammar.ScriptDerivation :=
  .statement (.expression (Grammar.exprOfPrimary
    (.name ⟨⟨.identifier, Text.of "y", ⟨1, column⟩⟩, rfl⟩) .noSuffix) rfl)
    ⟨⟨.mark .semicolon, Text.of ";", ⟨1, column + 1⟩⟩, rfl⟩ .empty

/-- The script of one such statement. -/
def readScript (column : Nat) : Script := ⟨(readAt column).statements, .text Script.defaultName⟩

/-- A blank in front of a source moves the failure by one column and changes nothing else. -/
theorem sameRun_of_column :
    Script.parse (Text.of "y;") (.text Script.defaultName) = .ok (readScript 1) ∧
    Script.parse (Text.of " y;") (.text Script.defaultName) = .ok (readScript 2) ∧
    (∀ column, ((new {}).execute (readScript column) Scope.empty).result =
      .error (.at_ (.unbound (.text (Text.of "y"))) (some ⟨1, column⟩))) ∧
    (new {}).SameRun (readScript 1) (readScript 2) Scope.empty ∧
    (new {}).SameRun (readScript 2) (readScript 1) Scope.empty ∧
    ∃ d read, Json.read (Json.write (readScript 1).toDatum) = some d ∧
      Script.ofDatum d = .ok read ∧ (new {}).SameRun (readScript 1) read Scope.empty := by
  have hnesting : ∀ column, (readAt column).nesting ≤ Script.nestingLimit := fun column => by
    have hone : (readAt column).nesting = 1 := rfl
    rw [hone, Script.nestingLimit]
    omega
  have hscan : Tokens.scan (Text.of "y;") = .ok ⟨(readAt 1).tokens, ⟨1, 3⟩⟩ := by decide +kernel
  have hscan' : Tokens.scan (Text.of " y;") = .ok ⟨(readAt 2).tokens, ⟨1, 4⟩⟩ := by decide +kernel
  have hparse : Script.parse (Text.of "y;") (.text Script.defaultName) = .ok (readScript 1) :=
    Grammar.parse_of_derivation _ _ hscan (hnesting 1)
  have hparse' : Script.parse (Text.of " y;") (.text Script.defaultName) = .ok (readScript 2) :=
    Grammar.parse_of_derivation _ _ hscan' (hnesting 2)
  obtain ⟨hplaces, hsame, hread⟩ := sameRun_of_sameButPlaces (new {})
  obtain ⟨d, read, hd, hof, hrun⟩ := hread _ _ _ hparse
  exact ⟨hparse, hparse', fun column => rfl, hplaces _ _ Scope.empty rfl,
    hsame _ _ Scope.empty (Script.wellFormed_parse hparse') (Script.wellFormed_parse hparse) rfl,
    d, read, hd, hof, hrun Scope.empty⟩

end Engine

end ScalarScript
