import ScalarScript.Proofs.Evaluation.TextNames
import ScalarScript.Proofs.Source.Order
import ScalarScript.Proofs.Steps

/-!
# Independent statements

An expression reads the variables that are named in it, and no others: a function is given the
values of its arguments and no scope. A statement looks at the variables of its expressions and at
the one that it writes, and it changes what is known of that one alone. So two statements of which
neither writes what the other reads or writes come to the same changes in either order, and the
changes end in the same state. Two that print differ in the order of their lines.

States are compared by what they say of each name. The bindings of a scope have an order too, in
which names that are declared in another order come out differently; no statement can tell.

* `Expr.reads`: the free variables of an expression, and of the expressions of a statement.
* `Statement.writes?`: the name that a statement binds or assigns to.
* `Statement.Independent`: neither statement writes what the other reads or writes, and one of them
  does not print.
* `State.AgreeAt`, `State.Same`: two states say the same of a name, or of all and of the output.

Results:
* `evaluate_of_agreeOn`: evaluation depends on the free variables only.
* `plan_of_agreeFor`: so does a plan, and on the name that the statement writes.
* `Planned.agreeAt`: a change leaves what is known of other names; `same_of_independent`: changes of
  independent statements commute.
* `executeAll_of_same`: runs from states that are the same.
* **`independent_statements_commute`**: independent statements can be exchanged.
-/

namespace ScalarScript

/-! ## What is read and what is written -/

/-- The name that a node reads. -/
def Expr.read? : Expr → Option Name
  | var name _ => Name.ofDatum? name
  | string _ _ | char _ _ | int _ _ | bool _ _ | binary _ _ _ _ | unary _ _ _ | method _ _ _ _
  | call _ _ _ | index _ _ _ => none

/-- The free variables of an expression. -/
def Expr.reads (e : Expr) : List Name := e.nodes.filterMap read?

namespace Statement

/-- The free variables of the expressions of a statement. -/
def reads (s : Statement) : List Name := s.expressions.flatMap Expr.reads

/-- The name that a statement binds or assigns to. -/
def writes? (s : Statement) : Option Name := s.name?.bind Name.ofDatum?

/-- Whether a statement prints. -/
def prints : Statement → Bool
  | print _ _ => true
  | declare _ _ _ | constant _ _ _ | assign _ _ _ | indexAssign _ _ _ _ | expression _ _ => false

/-- Neither statement reads or writes the name that the other one writes, and they do not both
print. -/
structure Independent (s t : Statement) : Prop where
  left : ∀ key, s.writes? = some key → key ∉ t.reads ∧ t.writes? ≠ some key
  right : ∀ key, t.writes? = some key → key ∉ s.reads ∧ s.writes? ≠ some key
  printing : ¬ (s.prints = true ∧ t.prints = true)

theorem Independent.symm {s t : Statement} (h : s.Independent t) : t.Independent s where
  left := h.right
  right := h.left
  printing := fun hprints => h.printing hprints.symm

end Statement

/-! ## Expressions -/

/-- Two scopes agree on names: each has the same value in both, or none in either. -/
def Scope.AgreeOn (a : Scope) (names : List Name) (b : Scope) : Prop :=
  ∀ key ∈ names, a.get? key = b.get? key

section Expressions

variable {engine : Engine} {a b : Scope} {e : Expr}

theorem Scope.AgreeOn.of_operand (h : a.AgreeOn e.reads b) {operand : Expr}
    (ho : operand ∈ e.operands) : a.AgreeOn operand.reads b := by
  intro key hkey
  obtain ⟨x, hx, hread⟩ := List.mem_filterMap.mp hkey
  exact h key (List.mem_filterMap.mpr ⟨x, Expr.nodes_subset_of_mem_operands ho hx, hread⟩)

/-- A variable is all that a node reads. -/
theorem combine_of_agreeOn (h : a.AgreeOn e.reads b) (text : Text → Traced Log.Record Value)
    (vs : List Value) : combine engine text a e vs = combine engine text b e vs := by
  cases e with
  | var name pos =>
    have hread : readVariable a name pos = readVariable b name pos := by
      unfold readVariable
      cases hk : Name.ofDatum? name with
      | none => rfl
      | some key =>
        simp only [h key (List.mem_filterMap.mpr ⟨_, Expr.mem_nodes_self _, hk⟩)]
    simp only [combine, hread]
  | string | char | int | bool | method | call => rfl
  | binary | index => rcases vs with _ | ⟨v, _ | ⟨w, _ | ⟨x, vs⟩⟩⟩ <;> rfl
  | unary => rcases vs with _ | ⟨v, _ | ⟨w, vs⟩⟩ <;> rfl

/-- **Evaluation depends on the free variables only.** -/
theorem evaluate_of_agreeOn (engine : Engine) (depth : Nat) (h : a.AgreeOn e.reads b) :
    evaluate engine depth a e = evaluate engine depth b e := by
  induction depth generalizing e with
  | zero => rfl
  | succ depth ih =>
    rw [evaluate_succ, evaluate_succ, mapM_congr fun operand ho => ih (h.of_operand ho)]
    exact congrArg _ (funext fun vs => combine_of_agreeOn h _ vs)

end Expressions

/-! ## States -/

namespace State

/-- Two states say the same of a name: it has the same value in both, or none in either, and is a
constant in both or in neither. -/
structure AgreeAt (key : Name) (a b : State) : Prop where
  value : a.scope.get? key = b.scope.get? key
  constant : key ∈ a.constants ↔ key ∈ b.constants

/-- Two states say the same of all names, and have the same output. -/
structure Same (a b : State) : Prop where
  names : ∀ key, AgreeAt key a b
  output : a.output = b.output

/-- Two states say the same of all names that a statement looks at. -/
def AgreeFor (s : Statement) (a b : State) : Prop :=
  ∀ key, key ∈ s.reads ∨ s.writes? = some key → AgreeAt key a b

variable {key : Name} {a b c : State} {s : Statement}

theorem AgreeAt.symm (h : AgreeAt key a b) : AgreeAt key b a := ⟨h.value.symm, h.constant.symm⟩

theorem AgreeAt.trans (h : AgreeAt key a b) (h' : AgreeAt key b c) : AgreeAt key a c :=
  ⟨h.value.trans h'.value, h.constant.trans h'.constant⟩

theorem AgreeFor.symm (h : AgreeFor s a b) : AgreeFor s b a := fun key hkey => (h key hkey).symm

theorem Same.agreeFor (h : Same a b) (s : Statement) : AgreeFor s a b := fun key _ => h.names key

/-- A change does the same to states that say the same of a name. -/
theorem AgreeAt.apply (h : AgreeAt key a b) (change : Change) :
    AgreeAt key (change.apply a) (change.apply b) where
  value := by
    cases hb : change.binding? with
    | none =>
      rw [Change.scope_apply_of_none hb, Change.scope_apply_of_none hb]
      exact h.value
    | some binding => rw [Change.get?_apply hb, Change.get?_apply hb, h.value]
  constant := by
    rw [Change.mem_constants_apply_iff, Change.mem_constants_apply_iff, h.constant]

theorem Same.apply (h : Same a b) (change : Change) :
    Same (change.apply a) (change.apply b) where
  names key := (h.names key).apply change
  output := by rw [change.output_apply {}, change.output_apply {}, h.output]

end State

/-! ## Changes -/

section Changes

open State (AgreeAt AgreeFor Same)

variable {engine : Engine} {value value' : Expr → Traced Log.Record Value} {a b : State}
  {s t : Statement} {c d : Change} {key : Name}

/-- What is bound is what the statement writes. -/
theorem Planned.writes?_of_binding (h : Planned value a s c) {v : Value}
    (hb : c.binding? = some (key, v)) : s.writes? = some key := by
  cases h with
  | declare _ hk | constant _ hk =>
    cases hb
    exact hk
  | assign ht | indexAssign ht =>
    cases hb
    exact (assignable_eq_ok_iff.mp ht).1
  | print | expression => cases hb

/-- **A change leaves what is known of other names.** -/
theorem Planned.agreeAt (h : Planned value a s c) (hkey : s.writes? ≠ some key) (b : State) :
    AgreeAt key (c.apply b) b where
  value := Change.get?_apply_of_ne fun v hb => hkey (h.writes?_of_binding hb)
  constant := by
    rw [Change.mem_constants_apply_iff]
    constructor
    · rintro (⟨name, v, rfl⟩ | ⟨hmem, -⟩)
      · exact absurd (h.writes?_of_binding rfl) hkey
      · exact hmem
    · refine fun hmem => .inr ⟨hmem, fun name v hc => hkey ?_⟩
      subst hc
      exact h.writes?_of_binding rfl

/-- A statement that does not print hands out no line. -/
theorem Planned.linesOf_eq_nil (h : Planned value a s c) (hs : s.prints = false)
    (settings : Settings) : Effect.linesOf (c.effects settings) = [] := by
  cases h with
  | declare | constant | assign | indexAssign | expression => rfl
  | print => cases hs

/-- What one of two independent statements changes, the other one does not look at. -/
theorem Statement.Independent.agreeFor (h : s.Independent t) (hc : Planned value a s c)
    (b : State) : AgreeFor t (c.apply b) b := by
  refine fun key hkey => hc.agreeAt (fun hwrites => ?_) b
  obtain ⟨hread, hwrite⟩ := h.left key hwrites
  exact hkey.elim hread hwrite

/-- **The changes of independent statements commute.** -/
theorem same_of_independent (h : s.Independent t) (hc : Planned value a s c)
    (hd : Planned value' b t d) (state : State) :
    Same (d.apply (c.apply state)) (c.apply (d.apply state)) where
  names key := by
    by_cases hs : s.writes? = some key
    · have ht : t.writes? ≠ some key := (h.left key hs).2
      exact (hd.agreeAt ht _).trans ((hd.agreeAt ht state).symm.apply c)
    · exact ((hc.agreeAt hs state).apply d).trans (hc.agreeAt hs _).symm
  output := by
    rw [d.output_apply {}, c.output_apply {}, c.output_apply {}, d.output_apply {}]
    cases hs : s.prints with
    | false => rw [hc.linesOf_eq_nil hs, List.append_nil, List.append_nil]
    | true =>
      have ht : t.prints = false := Bool.eq_false_iff.mpr fun ht => h.printing ⟨hs, ht⟩
      rw [hd.linesOf_eq_nil ht, List.append_nil, List.append_nil]

/-! ## Plans -/

theorem assignable_of_agreeAt {name : Datum}
    (h : ∀ key, Name.ofDatum? name = some key → AgreeAt key a b) (pos : Option Position) :
    assignable a name pos = assignable b name pos := by
  unfold assignable
  cases hk : Name.ofDatum? name with
  | none => rfl
  | some key => simp only [(h key hk).value, (h key hk).constant]

/-- **A plan depends on what the statement looks at.** -/
theorem plan_of_agreeFor (engine : Engine) (h : AgreeFor s a b) :
    plan (evaluate engine Engine.depth a.scope) a s =
      plan (evaluate engine Engine.depth b.scope) b s := by
  have hvalue (e : Expr) (he : e ∈ s.expressions) :
      evaluate engine Engine.depth a.scope e = evaluate engine Engine.depth b.scope e :=
    evaluate_of_agreeOn engine _ fun key hkey =>
      (h key (.inl (List.mem_flatMap.mpr ⟨e, he, hkey⟩))).value
  have htarget (name : Datum) (hname : s.name? = some name) (pos : Option Position) :
      assignable a name pos = assignable b name pos := by
    refine assignable_of_agreeAt (fun key hkey => h key (.inr ?_)) pos
    rw [Statement.writes?, hname]
    exact hkey
  cases s with
  | declare name e pos | constant name e pos | print e pos | expression e pos =>
    simp only [plan, hvalue e List.mem_cons_self]
  | assign name e pos => simp only [plan, htarget name rfl, hvalue e List.mem_cons_self]
  | indexAssign name i e pos =>
    simp only [plan, htarget name rfl, hvalue i List.mem_cons_self,
      hvalue e (List.mem_cons_of_mem _ List.mem_cons_self)]

theorem planned_of_agreeFor (h : AgreeFor s a b)
    (hc : Planned (evaluate engine Engine.depth a.scope) a s c) :
    Planned (evaluate engine Engine.depth b.scope) b s c := by
  rw [← plan_eq_ok_iff] at hc ⊢
  rwa [← plan_of_agreeFor engine h]

end Changes

/-! ## Runs -/

namespace Engine

open State (Same)

variable {engine : Engine} {state state' : State} {s t : Statement}

/-- Independent statements that succeed one after the other succeed in the other order. -/
theorem perform_of_independent (h : s.Independent t)
    (hs : (engine.perform s state).result = .ok ())
    (ht : (engine.perform t (engine.perform s state).state).result = .ok ()) :
    (engine.perform t state).result = .ok () ∧
      (engine.perform s (engine.perform t state).state).result = .ok () ∧
      Same (engine.perform t (engine.perform s state).state).state
        (engine.perform s (engine.perform t state).state).state := by
  obtain ⟨c, hc⟩ := perform_eq_ok_iff.mp hs
  rw [(perform_of_planned hc).2] at ht ⊢
  obtain ⟨d, hd⟩ := perform_eq_ok_iff.mp ht
  have hd' := planned_of_agreeFor (h.agreeFor hc state) hd
  have hc' := planned_of_agreeFor (h.symm.agreeFor hd' state).symm hc
  rw [(perform_of_planned hd').2, (perform_of_planned hd).2, (perform_of_planned hc').2]
  exact ⟨(perform_of_planned hd').1, (perform_of_planned hc').1, same_of_independent h hc hd state⟩

/-- A statement that succeeds does the same in a state that is the same. -/
theorem perform_of_same (h : Same state state') (hs : (engine.perform s state).result = .ok ()) :
    (engine.perform s state').result = .ok () ∧
      (engine.perform s state').effects = (engine.perform s state).effects ∧
      Same (engine.perform s state).state (engine.perform s state').state := by
  obtain ⟨c, hc⟩ := perform_eq_ok_iff.mp hs
  have hplan : engine.plan state' s = engine.plan state s := by
    unfold plan
    rw [plan_of_agreeFor engine (h.agreeFor s)]
  obtain ⟨hs', heffects, hstate⟩ := perform_of_plan_eq hc hplan
  rw [(perform_of_planned hc).2, hstate]
  exact ⟨hs', heffects, h.apply c⟩

/-- **A run that succeeds does the same from a state that is the same.** -/
theorem executeAll_of_same {name : Datum} {ss : List Statement} {final : State}
    (h : Same state state') (hrun : (engine.executeAll name state ss).result = .ok final) :
    ∃ final', (engine.executeAll name state' ss).result = .ok final' ∧ Same final final' := by
  obtain ⟨final', hrun', -, hfinal⟩ :=
    executeAll_of_step name name (fun _ _ _ h hs => perform_of_same h hs) h hrun
  exact ⟨final', hrun', hfinal⟩

/-- **Independent statements can be exchanged.** In scopes that agree on its free variables, an
expression has the same value or the same failure. So if neither of two statements writes what the
other one reads or writes, and they do not both print, and they succeed one after the other, in
whatever state, then they succeed in the other order, and end with the same values, constants and
output. Where two such statements are neighbours in a script that succeeds, it succeeds with them
exchanged, and ends in the same way. -/
theorem independent_statements_commute (engine : Engine) :
    (∀ (depth : Nat) (e : Expr) (a b : Scope), a.AgreeOn e.reads b →
      evaluate engine depth a e = evaluate engine depth b e) ∧
    (∀ (s t : Statement) (state : State), s.Independent t →
      (engine.perform s state).result = .ok () →
      (engine.perform t (engine.perform s state).state).result = .ok () →
      (engine.perform t state).result = .ok () ∧
        (engine.perform s (engine.perform t state).state).result = .ok () ∧
        Same (engine.perform t (engine.perform s state).state).state
          (engine.perform s (engine.perform t state).state).state) ∧
    ∀ (before after : List Statement) (s t : Statement) (name : Datum) (scope : Scope)
      (final : State), s.Independent t →
      (engine.execute ⟨before ++ s :: t :: after, name⟩ scope).result = .ok final →
      ∃ final', (engine.execute ⟨before ++ t :: s :: after, name⟩ scope).result = .ok final' ∧
        Same final final' := by
  refine ⟨fun depth e a b => evaluate_of_agreeOn engine depth,
    fun s t state => perform_of_independent, fun before after s t name scope final h hrun => ?_⟩
  rw [result_execute, executeAll_append, Traced.result_bind_eq_ok_iff] at hrun
  obtain ⟨mid, hbefore, hrun⟩ := hrun
  rw [executeAll_cons, Traced.result_bind_eq_ok_iff] at hrun
  obtain ⟨next, hnext, hrun⟩ := hrun
  obtain ⟨hs, rfl⟩ := executeReported_eq_ok_iff.mp hnext
  rw [executeAll_cons, Traced.result_bind_eq_ok_iff] at hrun
  obtain ⟨last, hlast, hafter⟩ := hrun
  obtain ⟨ht, rfl⟩ := executeReported_eq_ok_iff.mp hlast
  obtain ⟨ht', hs', hsame⟩ := perform_of_independent h hs ht
  obtain ⟨final', hafter', hfinal⟩ := executeAll_of_same hsame hafter
  refine ⟨final', ?_, hfinal⟩
  rw [result_execute, executeAll_append, Traced.result_bind_eq_ok_iff]
  refine ⟨mid, hbefore, ?_⟩
  rw [executeAll_cons_of_ok name ht', executeAll_cons_of_ok name hs']
  exact hafter'

/-! ### A constant and a line -/

/-- The name `base`. -/
def baseName : Datum := .text (Text.of "base")

/-- The name `next`. -/
def nextName : Datum := .text (Text.of "next")

/-- A scope in which `base` is seven. -/
def baseScope : Scope := ⟨[(.text (Text.of "base"), .int 7)]⟩

/-- `const next = base + 1`. -/
def fixesNext : Statement :=
  .constant nextName (.binary .add (.var baseName none) (.int (.int 1) none) none) none

/-- `print(base)`. -/
def printsBase : Statement := .print (.var baseName none) none

theorem independent_fixesNext_printsBase : fixesNext.Independent printsBase where
  left := by
    rintro key ⟨⟩
    decide
  right := nofun
  printing := nofun

/-- The scope in which `next` is bound gives `base` the same value, and what reads `base` can stand
in front of the constant or behind it. -/
theorem independent_statements_commute_around_constant :
    baseScope.AgreeOn (Expr.reads (.var baseName none))
      (baseScope.set (.text (Text.of "next")) (.int 8)) ∧
    fixesNext.Independent printsBase ∧
    evaluate (new {}) 1 baseScope (.var baseName none) =
      evaluate (new {}) 1 (baseScope.set (.text (Text.of "next")) (.int 8))
        (.var baseName none) ∧
    ((new {}).perform fixesNext
      ((new {}).perform printsBase ⟨baseScope, [], []⟩).state).result = .ok () ∧
    ∃ final, ((new {}).execute ⟨[printsBase, fixesNext], .null⟩ baseScope).result = .ok final ∧
      final.scope.get? (.text (Text.of "next")) = some (.int 8) ∧
      .text (Text.of "next") ∈ final.constants ∧ final.output = [Text.of "7"] := by
  obtain ⟨hevaluate, hperform, hexecute⟩ := independent_statements_commute (new {})
  have hagree : baseScope.AgreeOn (Expr.reads (.var baseName none))
      (baseScope.set (.text (Text.of "next")) (.int 8)) := by
    intro key hkey
    obtain rfl : key = .text (Text.of "base") := List.mem_singleton.mp hkey
    rfl
  have hindependent := independent_fixesNext_printsBase
  obtain ⟨-, hnext, -⟩ := hperform fixesNext printsBase ⟨baseScope, [], []⟩ hindependent rfl rfl
  obtain ⟨final, hrun, hsame⟩ := hexecute [] [] fixesNext printsBase .null baseScope
    ⟨baseScope.set (.text (Text.of "next")) (.int 8), [.text (Text.of "next")], [Text.of "7"]⟩
    hindependent rfl
  exact ⟨hagree, hindependent, hevaluate 1 _ _ _ hagree, hnext, final, hrun,
    (hsame.names _).value.symm, (hsame.names _).constant.mp List.mem_cons_self,
    hsame.output.symm⟩

end Engine

end ScalarScript
