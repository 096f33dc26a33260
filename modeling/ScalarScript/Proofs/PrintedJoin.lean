import ScalarScript.Proofs.Evaluation.Operators
import ScalarScript.Proofs.Evaluation.Values

/-!
# Joining and printing

A value that is joined to a string and a value that is printed go through the same text. What `+`
makes of two values of which one is a string is the string of the two texts, one behind the other,
and its counter is the sum of their lengths. So `print(a + b)` prints what `print(a)` and `print(b)`
print, and a value without a text can be neither joined nor printed. Host text that holds a
surrogate can be printed and not joined; it is left out here, as is a limit for strings.

* `Engine.Prints`: a print statement succeeds, with a line.

Results:
* `ofOperand_eq_ok_iff`, `exists_ofOperand`: the string of an operand is the one of its text.
* `applyAdd_eq_ok_iff`: what `+` makes of a string and another value.
* `prints_iff`: what is printed is the text of the value.
* **`joined_values_print_alike`**: joining and printing make the same text of a value.
-/

namespace ScalarScript

/-! ## Operands -/

/-- The string of an operand is the one whose text is that of the operand. -/
theorem ofOperand_eq_ok_iff {v : Value} {s : ScalarString} :
    ScalarString.ofOperand v = .ok s ↔ v.plainText? = some s.text := by
  have hrender (w : Value) : (w.render (Text.of "+") >>= ScalarString.ofHostText) = .ok s ↔
      w.plainText? = some s.text := by
    simp only [Except.bind_eq_ok_iff, Value.render_eq_ok_iff, ScalarString.ofHostText,
      Except.mapError_eq_ok_iff, ScalarString.ofText_eq_ok_iff]
    constructor
    · rintro ⟨t, ht, rfl⟩
      exact ht
    · exact fun h => ⟨_, h, rfl⟩
  cases v with
  | string r =>
    have hread : ((Value.string r).render (Text.of "+") >>= ScalarString.ofHostText) = .ok r :=
      congrArg (Except.mapError _) r.ofText_text
    rw [← hrender, hread]
    rfl
  | text | bool | int | float | none | list | object => exact hrender _

/-- An operand whose text holds no surrogate has a string. -/
theorem exists_ofOperand {v : Value} {t : Text} (hv : v.plainText? = some t) (ht : t.IsScalars) :
    ∃ s, ScalarString.ofOperand v = .ok s := by
  cases h : ScalarString.ofOperand v with
  | ok s => exact ⟨s, rfl⟩
  | error e =>
    rcases ofOperand_eq_error_iff.mp h with ⟨hnone, -⟩ | ⟨u, p, rfl, hp, -⟩
    · cases hv.symm.trans hnone
    · cases hv
      cases ht.firstSurrogate?_eq_none.symm.trans hp

theorem ScalarString.text_append (s t : ScalarString) : (s ++ t).text = s.text ++ t.text := by
  rw [text, scalars_append, Text.ofChars, List.map_append]
  rfl

theorem ScalarString.length_text (s : ScalarString) : s.text.length = s.length := by
  rw [text, Text.ofChars, List.length_map, length_eq]

/-! ## Sums -/

section Sums

variable {a b v : Value} {limit : Option Nat} {pos : Option Position}

theorem applyAdd_string_left (s : ScalarString) (b : Value) :
    applyAdd limit (.string s) b pos = joinResult limit pos (s.joined b) := rfl

/-- A string on the right is joined after whatever is on the left, also after a string. -/
theorem applyAdd_string_right (a : Value) (t : ScalarString) :
    applyAdd limit a (.string t) pos = joinResult limit pos (t.joinedAfter a) := by
  cases a <;> rfl

theorem joinResult_eq_ok_iff {r : Except StringFault ScalarString} :
    joinResult none pos r = .ok v ↔ ∃ s, r = .ok s ∧ v = .string s := by
  unfold joinResult
  split
  · simp [checkLength, eq_comm]
  · simp
  · simp

/-- **What `+` makes of a string and another value**, where strings have no limit. -/
theorem applyAdd_eq_ok_iff (hstring : a.isString = true ∨ b.isString = true) :
    applyAdd none a b pos = .ok v ↔
      ∃ s t, ScalarString.ofOperand a = .ok s ∧ ScalarString.ofOperand b = .ok t ∧
        v = .string (s ++ t) := by
  rcases hstring with ha | hb
  · obtain ⟨s, rfl⟩ := Value.isString_iff.mp ha
    rw [applyAdd_string_left, joinResult_eq_ok_iff]
    simp only [ScalarString.joined, Except.map_eq_ok_iff]
    constructor
    · rintro ⟨_, ⟨t, ht, rfl⟩, rfl⟩
      exact ⟨s, t, rfl, ht, rfl⟩
    · rintro ⟨_, t, ⟨⟩, ht, rfl⟩
      exact ⟨_, ⟨t, ht, rfl⟩, rfl⟩
  · obtain ⟨t, rfl⟩ := Value.isString_iff.mp hb
    rw [applyAdd_string_right, joinResult_eq_ok_iff]
    simp only [ScalarString.joinedAfter, Except.map_eq_ok_iff]
    constructor
    · rintro ⟨_, ⟨s, hs, rfl⟩, rfl⟩
      exact ⟨s, t, hs, rfl, rfl⟩
    · rintro ⟨s, _, hs, ⟨⟩, rfl⟩
      exact ⟨_, ⟨s, hs, rfl⟩, rfl⟩

/-- The sum of two variables. -/
def Expr.sum (x y : Text) (p q pos : Option Position) : Expr :=
  .binary .add (.var (.text x) p) (.var (.text y) q) pos

theorem evaluate_sum {engine : Engine} {scope : Scope} {x y : Text} (depth : Nat)
    (hx : scope.get? (.text x) = some a) (hy : scope.get? (.text y) = some b)
    (p q : Option Position) :
    (evaluate engine (depth + 2) scope (.sum x y p q pos)).result =
      applyAdd engine.settings.maxStringLength a b pos :=
  evaluate_binary (evaluate_var depth hx) (evaluate_var depth hy)

end Sums

/-! ## Lines -/

namespace Engine

variable {engine : Engine} {state : State} {e : Expr} {pos : Option Position}

/-- Printing an expression succeeds, and its line goes to the output and to the sink. -/
structure Prints (engine : Engine) (state : State) (e : Expr) (pos : Option Position)
    (line : Text) : Prop where
  result : (engine.perform (.print e pos) state).result = .ok ()
  ends : (engine.perform (.print e pos) state).state = state.print line
  lines : Effect.linesOf (engine.perform (.print e pos) state).effects = [line]

theorem prints_of_value {v : Value} {line : Text}
    (hv : (evaluate engine depth state.scope e).result = .ok v) (hline : v.plainText? = some line) :
    engine.Prints state e pos line := by
  obtain ⟨hresult, hstate⟩ : (engine.perform (.print e pos) state).result = .ok () ∧
      (engine.perform (.print e pos) state).state = state.print line :=
    perform_of_planned (.print hv hline)
  have houtput := engine.perform_output (.print e pos) state
  rw [hstate] at houtput
  exact ⟨hresult, hstate, (List.append_cancel_left houtput).symm⟩

theorem perform_print_eq_ok_iff :
    (engine.perform (.print e pos) state).result = .ok () ↔
      ∃ line, engine.Prints state e pos line := by
  constructor
  · intro h
    obtain ⟨c, hc⟩ := perform_eq_ok_iff.mp h
    cases hc with
    | print hv hline => exact ⟨_, prints_of_value hv hline⟩
  · rintro ⟨line, h⟩
    exact h.result

/-- **What is printed is the text of the value.** -/
theorem prints_iff {v : Value} {line : Text}
    (hv : (evaluate engine depth state.scope e).result = .ok v) :
    engine.Prints state e pos line ↔ v.plainText? = some line := by
  refine ⟨fun h => ?_, prints_of_value hv⟩
  obtain ⟨c, hc⟩ := perform_eq_ok_iff.mp h.result
  cases hc with
  | print hv' hline =>
    cases hv.symm.trans hv'
    cases (prints_of_value hv hline).lines.symm.trans h.lines
    exact hline

/-- **Joining and printing make the same text of a value.** Let two variables have values of which
one is a string, whose texts hold no surrogate, and let strings have no limit. Then their sum has a
value, at any depth, if and only if both can be printed. The sum is a string then, which prints as
the lines of the two, one behind the other, and counts as many scalars as they have. It is also
what the operations of strings make: a string joined with the other value, or joined after it. -/
theorem joined_values_print_alike (engine : Engine)
    (hlimit : engine.settings.maxStringLength = none) (state : State) {x y : Text} {a b : Value}
    (hx : state.scope.get? (.text x) = some a) (hy : state.scope.get? (.text y) = some b)
    (hstring : a.isString = true ∨ b.isString = true)
    (ha : ∀ t, a.plainText? = some t → t.IsScalars)
    (hb : ∀ t, b.plainText? = some t → t.IsScalars) (depth : Nat)
    (p q pos place : Option Position) :
    ((∃ v, (evaluate engine (depth + 2) state.scope (.sum x y p q pos)).result = .ok v) ↔
      (engine.perform (.print (.var (.text x) p) place) state).result = .ok () ∧
        (engine.perform (.print (.var (.text y) q) place) state).result = .ok ()) ∧
    (∀ v, (evaluate engine (depth + 2) state.scope (.sum x y p q pos)).result = .ok v →
      ∃ s t u, v = .string s ∧ engine.Prints state (.var (.text x) p) place t ∧
        engine.Prints state (.var (.text y) q) place u ∧
        engine.Prints state (.sum x y p q pos) place (t ++ u) ∧
        s.length = t.length + u.length) ∧
    (∀ r, a = .string r → ∀ s, r.joined b = .ok s ↔
      (evaluate engine (depth + 2) state.scope (.sum x y p q pos)).result = .ok (.string s)) ∧
    ∀ r, b = .string r → ∀ s, r.joinedAfter a = .ok s ↔
      (evaluate engine (depth + 2) state.scope (.sum x y p q pos)).result = .ok (.string s) := by
  have hvalue (d : Nat) : (evaluate engine (d + 2) state.scope (.sum x y p q pos)).result =
      applyAdd none a b pos := hlimit ▸ evaluate_sum d hx hy p q
  have hleft : (evaluate engine Engine.depth state.scope (.var (.text x) p)).result = .ok a :=
    evaluate_var 999 hx
  have hright : (evaluate engine Engine.depth state.scope (.var (.text y) q)).result = .ok b :=
    evaluate_var 999 hy
  simp only [hvalue depth]
  refine ⟨?_, fun v hv => ?_, ?_, ?_⟩
  · simp only [perform_print_eq_ok_iff, prints_iff hleft, prints_iff hright]
    constructor
    · rintro ⟨v, hv⟩
      obtain ⟨s, t, hs, ht, -⟩ := (applyAdd_eq_ok_iff hstring).mp hv
      exact ⟨⟨_, ofOperand_eq_ok_iff.mp hs⟩, ⟨_, ofOperand_eq_ok_iff.mp ht⟩⟩
    · rintro ⟨⟨t, ht⟩, u, hu⟩
      obtain ⟨s, hs⟩ := exists_ofOperand ht (ha t ht)
      obtain ⟨s', hs'⟩ := exists_ofOperand hu (hb u hu)
      exact ⟨_, (applyAdd_eq_ok_iff hstring).mpr ⟨s, s', hs, hs', rfl⟩⟩
  · have hsum := (hvalue 998).trans hv
    obtain ⟨s, t, hs, ht, rfl⟩ := (applyAdd_eq_ok_iff hstring).mp hv
    refine ⟨s ++ t, s.text, t.text, rfl, prints_of_value hleft (ofOperand_eq_ok_iff.mp hs),
      prints_of_value hright (ofOperand_eq_ok_iff.mp ht), prints_of_value hsum ?_, ?_⟩
    · exact congrArg some (s.text_append t)
    · rw [s.length_text, t.length_text, ScalarString.length_append]
  · rintro r rfl s
    rw [applyAdd_string_left, joinResult_eq_ok_iff]
    simp
  · rintro r rfl s
    rw [applyAdd_string_right, joinResult_eq_ok_iff]
    simp

/-! ### A number and its unit -/

/-- The name `count`. -/
def countName : Text := Text.of "count"

/-- The name `unit`. -/
def unitName : Text := Text.of "unit"

/-- A state in which `count` is -12 and `unit` the string `µm`. -/
def measured : State :=
  ⟨⟨[(.text countName, .int (-12)), (.text unitName, .string (.ofScalars ['µ', 'm']))]⟩, [], []⟩

/-- `count + unit` prints as `count` and `unit` do, and is what `unit` makes of the count. -/
theorem joined_values_print_alike_of_count :
    (∃ t u, (new {}).Prints measured (.var (.text countName) none) none t ∧
      (new {}).Prints measured (.var (.text unitName) none) none u ∧
      (new {}).Prints measured (.sum countName unitName none none none) none (t ++ u) ∧
      t.length + u.length = 5) ∧
    (ScalarString.ofScalars ['µ', 'm']).joinedAfter (.int (-12)) =
      .ok (.ofScalars ['-', '1', '2', 'µ', 'm']) := by
  have hvalue : (evaluate (new {}) 2 measured.scope
      (.sum countName unitName none none none)).result =
        .ok (.string (.ofScalars ['-', '1', '2', 'µ', 'm'])) := rfl
  have hcount : measured.scope.get? (.text countName) = some (.int (-12)) := rfl
  have hunit : measured.scope.get? (.text unitName) =
      some (.string (.ofScalars ['µ', 'm'])) := rfl
  have hscalars : ∀ t, (Value.int (-12)).plainText? = some t → t.IsScalars := by
    rintro t ⟨⟩
    exact .ofInt _
  have hscalars' : ∀ t, (Value.string (.ofScalars ['µ', 'm'])).plainText? = some t →
      t.IsScalars := by
    rintro t ⟨⟩
    exact .string _
  obtain ⟨-, hprints, -, hafter⟩ := joined_values_print_alike (new {}) rfl measured hcount hunit
    (.inr rfl) hscalars hscalars' 0 none none none none
  obtain ⟨s, t, u, hs, ht, hu, hsum, hlength⟩ := hprints _ hvalue
  cases hs
  exact ⟨⟨t, u, ht, hu, hsum, hlength.symm⟩, (hafter _ rfl _).mpr hvalue⟩

end Engine

end ScalarScript
