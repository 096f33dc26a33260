import Mathlib.Algebra.Group.Int.Defs
import ScalarScript.Proofs.Evaluation.Values
import ScalarScript.Proofs.Source.WellFormed

/-!
# The range of script integers

Script integers have 64 bits and a sign. They come from four places: literals, whose range the
scanner looks at; the operators `+` and `-`; host functions, which may return any number; and the
values that a run starts with. The first three are held to the range where the integer arises, so a
run that starts with integers of 64 bits has no others.

* `Value.InRange`: a value is no integer of more bits.
* `exactInteger`: the exact result of an operation, or its overflow.
* `Statement.FromSource`, `Expr.FromSource`: what is read from source, with all subexpressions. A
  document may hold any number, a source may not.

Results:
* `checkRange_eq`: what the engine checks is what 64 bits hold.
* `yields_inRange`: expressions from source have no other integers for values.
* **`integers_stay_in_range`**: integers never leave the range, and never wrap.
-/

namespace ScalarScript

/-- A value is no integer of more than 64 bits. -/
def Value.InRange (v : Value) : Prop := ∀ n, v = .int n → -2 ^ 63 ≤ n ∧ n < 2 ^ 63

/-- The exact result of an operation, if it has 64 bits, and the overflow of the operation
otherwise. -/
def exactInteger (n : Int) (operation : Overflow) (pos : Option Position) :
    Except Failure Value :=
  if -2 ^ 63 ≤ n ∧ n < 2 ^ 63 then .ok (.int n) else .error (.at_ (.overflow operation) pos)

/-- A statement of a script that some source writes. -/
def Statement.FromSource (s : Statement) : Prop :=
  ∃ source name script, Script.parse source name = .ok script ∧ s ∈ script.statements

/-- An expression that some source writes, alone or in a statement, or a part of one. -/
inductive Expr.FromSource : Expr → Prop
  | statement {s : Statement} {e : Expr} (hs : s.FromSource) (he : e ∈ s.expressions) :
    FromSource e
  | alone {source : Text} {e : Expr} (h : Expr.parse source = .ok e) : FromSource e
  | operand {e x : Expr} (he : FromSource e) (hx : x ∈ e.operands) : FromSource x

/-! ## Well-formed expressions -/

theorem Expr.WellFormed.operands {e : Expr} (h : e.WellFormed) :
    ∀ x ∈ e.operands, x.WellFormed := by
  cases h with
  | string | char | int | bool | var => exact nofun
  | binary op pos hl hr => exact List.forall_mem_cons.mpr ⟨hl, List.forall_mem_singleton.mpr hr⟩
  | unary op pos h => exact List.forall_mem_singleton.mpr h
  | method pos hn ht ha => exact List.forall_mem_cons.mpr ⟨ht, ha⟩
  | call pos hn ha => exact ha
  | index pos ht hi => exact List.forall_mem_cons.mpr ⟨ht, List.forall_mem_singleton.mpr hi⟩

theorem Statement.WellFormed.expressions {s : Statement} (h : s.WellFormed) :
    ∀ e ∈ s.expressions, e.WellFormed := by
  cases h with
  | declare pos hn hv | constant pos hn hv | assign pos hn hv | print pos hv | expression pos hv =>
    exact List.forall_mem_singleton.mpr hv
  | indexAssign pos hn hi hv =>
    exact List.forall_mem_cons.mpr ⟨hi, List.forall_mem_singleton.mpr hv⟩

theorem Statement.FromSource.wellFormed {s : Statement} (h : s.FromSource) : s.WellFormed := by
  obtain ⟨source, name, script, hparse, hs⟩ := h
  exact Script.wellFormed_parse hparse s hs

theorem Expr.FromSource.wellFormed {e : Expr} (h : e.FromSource) : e.WellFormed := by
  induction h with
  | statement hs he => exact hs.wellFormed.expressions _ he
  | alone h => exact Expr.wellFormed_parse h
  | operand _ hx ih => exact ih.operands _ hx

/-! ## Values -/

theorem Integer.inRange_iff_bits {n : Int} : inRange n = true ↔ -2 ^ 63 ≤ n ∧ n < 2 ^ 63 := by
  rw [inRange_iff, least, greatest]
  omega

/-- **What is checked is the range of 64 bits.** -/
theorem checkRange_eq (n : Int) (operation : Overflow) (pos : Option Position) :
    checkRange n operation pos = exactInteger n operation pos := by
  simp only [checkRange, exactInteger, Integer.inRange_iff_bits]

section Values

variable {v : Value} {pos : Option Position}

theorem inRange_of_isString (h : v.isString = true) : v.InRange := by
  obtain ⟨s, rfl⟩ := Value.isString_iff.mp h
  exact nofun

theorem Value.Computed.inRange (h : v.Computed) : v.InRange := by
  cases h with
  | bool b => exact nofun
  | int h =>
    rintro n ⟨⟩
    exact Integer.inRange_iff_bits.mp h

theorem inRange_of_checkResult {limit : Option Nat} {name : Datum} {w : Value}
    (h : checkResult limit name w pos = .ok v) : v.InRange := by
  unfold checkResult at h
  split at h
  · exact inRange_of_isString (isString_of_checkLength h)
  · exact (computed_of_checkRange h).inRange
  · next hint =>
    cases h
    exact fun n hn => absurd hn (hint n)

theorem inRange_of_callFunction {engine : Engine} {text : Text → Traced Log.Record Value}
    {name : Datum} {vs : List Value} (h : (callFunction engine text name vs pos).result = .ok v) :
    v.InRange := by
  obtain ⟨function, -, h⟩ := Traced.result_bind_eq_ok_iff.mp h
  obtain ⟨w, -, h⟩ := Traced.result_bind_eq_ok_iff.mp h
  exact inRange_of_checkResult h

end Values

variable {engine : Engine}

/-- A well-formed expression has no integer out of range for a value. -/
theorem yields_inRange {e : Expr} (h : e.WellFormed) : e.Yields engine Value.InRange := by
  refine yields_of_combine fun text scope vs v hscope hv => ?_
  cases h with
  | string s pos => exact inRange_of_isString (isString_of_checkLength hv)
  | char c pos => exact inRange_of_isString (isString_of_characterValue hv)
  | @int m hm pos =>
    cases hv
    rintro n ⟨⟩
    rw [Integer.greatest] at hm
    omega
  | bool b pos =>
    cases hv
    exact nofun
  | @var name hn pos =>
    have hread : readVariable scope (.text name) pos = .ok v := hv
    obtain ⟨key, -, hkey⟩ := readVariable_eq_ok_iff.mp hread
    exact hscope key v hkey
  | binary op pos =>
    rcases vs with _ | ⟨a, _ | ⟨b, _ | ⟨_, _⟩⟩⟩
    · cases hv
    · cases hv
    · exact (string_or_computed_of_applyBinary hv).elim inRange_of_isString Value.Computed.inRange
    · cases hv
  | unary op pos =>
    rcases vs with _ | ⟨a, _ | ⟨_, _⟩⟩
    · cases hv
    · exact (computed_of_applyUnary hv).inRange
    · cases hv
  | method pos | call pos => exact inRange_of_callFunction hv
  | index pos =>
    rcases vs with _ | ⟨a, _ | ⟨b, _ | ⟨_, _⟩⟩⟩
    · cases hv
    · cases hv
    · exact inRange_of_isString (isString_of_readIndex hv)
    · cases hv

/-! ## Arithmetic -/

/-- **Integers never leave the range of 64 bits, and never wrap.** Where a run of statements from
source starts with integers in range, every state has no others, whether or not statements fail, and
whatever its host functions return; nor has an expression from source any other for a value. A sum,
a difference or a negation of integers is exact, or it fails as an overflow, which it does exactly
where the exact result is out of range. -/
theorem integers_stay_in_range (engine : Engine) :
    (∀ scope ss, scope.All Value.InRange → (∀ s ∈ ss, Statement.FromSource s) →
      (engine.stateAfter (.start scope) ss).scope.All Value.InRange) ∧
    (∀ source name script scope final, Script.parse source name = .ok script →
      scope.All Value.InRange → (engine.execute script scope).result = .ok final →
      final.scope.All Value.InRange) ∧
    (∀ source name final, (engine.run source name).result = .ok final →
      final.scope.All Value.InRange) ∧
    (∀ depth scope e n, Expr.FromSource e → scope.All Value.InRange →
      (evaluate engine depth scope e).result = .ok (.int n) → -2 ^ 63 ≤ n ∧ n < 2 ^ 63) ∧
    (∀ source scope n, scope.All Value.InRange →
      (engine.evaluateText source scope).result = .ok (.int n) → -2 ^ 63 ≤ n ∧ n < 2 ^ 63) ∧
    (∀ depth scope left right pos m n,
      (evaluate engine depth scope left).result = .ok (.int m) →
      (evaluate engine depth scope right).result = .ok (.int n) →
      (evaluate engine (depth + 1) scope (.binary .add left right pos)).result =
          exactInteger (m + n) (.sum m n) pos ∧
        (evaluate engine (depth + 1) scope (.binary .subtract left right pos)).result =
          exactInteger (m - n) (.difference m n) pos) ∧
    (∀ depth scope operand pos n, (evaluate engine depth scope operand).result = .ok (.int n) →
      (evaluate engine (depth + 1) scope (.unary .negate operand pos)).result =
        exactInteger (-n) (.negation n) pos) ∧
    ∀ operation, EvalFault.text (.overflow operation) =
      Text.of "Integer overflow: " ++ operation.description := by
  have hreplace : ∀ s t i c, (Value.string s).InRange → s.replacedAt i c = .ok t →
      (Value.string t).InRange := fun _ _ _ _ _ _ => nofun
  have hexecute : ∀ source name script scope final, Script.parse source name = .ok script →
      scope.All Value.InRange → (engine.execute script scope).result = .ok final →
      final.scope.All Value.InRange := by
    intro source name script scope final hparse hscope h
    refine Engine.all_execute hscope (fun s hs e he => ?_) hreplace h
    exact yields_inRange ((Script.wellFormed_parse hparse s hs).expressions e he)
  refine ⟨fun scope ss hscope hss => ?_, hexecute, fun source name final h => ?_,
    fun depth scope e n he hscope h => ?_, fun source scope n hscope h => ?_,
    fun depth scope left right pos m n hm hn => ⟨?_, ?_⟩,
    fun depth scope operand pos n hn => ?_, fun operation => rfl⟩
  · refine Engine.all_stateAfter hscope (fun s hs e he => ?_) hreplace
    exact yields_inRange ((hss s hs).wellFormed.expressions e he)
  · obtain ⟨script, hscript, h⟩ := Traced.result_bind_eq_ok_iff.mp h
    rw [Traced.result_reported, Script.traced_eq_ok_iff] at hscript
    exact hexecute source name script _ final hscript (Scope.all_empty _) h
  · exact yields_inRange he.wellFormed depth scope _ hscope h n rfl
  · obtain ⟨e, he, h⟩ := Engine.evaluateText_eq_ok_iff.mp h
    exact yields_inRange (Expr.wellFormed_parse he) _ scope _ hscope h n rfl
  · rw [evaluate_binary hm hn]
    exact checkRange_eq _ _ _
  · rw [evaluate_binary hm hn]
    exact checkRange_eq _ _ _
  · rw [evaluate_unary hn]
    exact checkRange_eq _ _ _

/-! ### The greatest integer and one more -/

/-- `x`, with the greatest integer for its value. -/
def boundGreatest : Scope := Scope.empty.set (.text (Text.of "x")) (.int Integer.greatest)

/-- The name `x` in a column. -/
def nameX (column : Nat) : Grammar.NameToken := ⟨⟨.identifier, Text.of "x", ⟨1, column⟩⟩, rfl⟩

/-- The sum of `x=x+1`. -/
def oneMore : Grammar.Derivation .expr :=
  .expr (.additive (.bare (.operand (.name (nameX 3)) .noSuffix))
    (.add ⟨⟨.symbol .plus, Text.of "+", ⟨1, 4⟩⟩, rfl⟩
      (.bare (.operand (.literal ⟨⟨.number 1, Text.of "1", ⟨1, 5⟩⟩, rfl⟩) .noSuffix))
      .noAddition)) .noComparison

/-- The script `x=x+1`. -/
def countUp : Grammar.ScriptDerivation :=
  .last (.assign (nameX 1) ⟨⟨.symbol .assign, Text.of "=", ⟨1, 2⟩⟩, rfl⟩ oneMore)

/-- One more than the greatest integer is an overflow, and the script leaves the variable. -/
theorem integers_stay_in_range_of_greatest :
    ∃ script, Script.parse (Text.of "x=x+1") .null = .ok script ∧
      ((Engine.new {}).stateAfter (.start boundGreatest) script.statements).scope.All
        Value.InRange ∧
      (evaluate (Engine.new {}) 2 boundGreatest oneMore.tree).result =
        .error (.at_ (.overflow (.sum Integer.greatest 1)) (some ⟨1, 4⟩)) := by
  have hscan : Tokens.scan (Text.of "x=x+1") = .ok ⟨countUp.tokens, ⟨1, 6⟩⟩ := by decide +kernel
  have hnesting : countUp.nesting ≤ Script.nestingLimit := by decide
  have hparse := Grammar.parse_of_derivation .null countUp hscan hnesting
  have hgreatest : (Value.int Integer.greatest).InRange := by
    rintro n ⟨⟩
    decide
  have hscope : boundGreatest.All Value.InRange := (Scope.all_empty _).set hgreatest
  obtain ⟨hrun, -, -, -, -, harithmetic, -⟩ := integers_stay_in_range (Engine.new {})
  refine ⟨_, hparse, hrun boundGreatest _ hscope fun s hs => ⟨_, _, _, hparse, hs⟩, ?_⟩
  exact (harithmetic 1 boundGreatest _ _ _ Integer.greatest 1 rfl rfl).1.trans rfl

end ScalarScript
