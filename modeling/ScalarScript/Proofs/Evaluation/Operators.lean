import ScalarScript.Engine.Evaluate

/-!
# What the operators fail with

Every operator fails with an `EvalError`, with one exception: where a string is joined with host
text that holds a surrogate, the fault of the string operation is passed on as it is.

* `OnlyEval x`: if `x` fails, then with an `EvalError`.
* `Clash a b p`: one of two values is a string, and the other is host text whose first surrogate is
  `p`.

Results:
* `ofOperand_eq_error_iff`: which values have no string as operands of `+`.
* `onlyEval_checkLength` to `onlyEval_checkResult`: the operators but `+`.
* **`applyAdd_of_clash`**, **`applyAdd_error`**: `+` passes a fault on where its operands clash, and
  nowhere else.
-/

namespace ScalarScript

/-! ## Texts without surrogates -/

/-- A text without surrogates. -/
def Text.IsScalars (t : Text) : Prop := ∀ p ∈ t, p.isScalar = true

namespace Text.IsScalars

variable {t u : Text}

theorem firstSurrogate?_eq_none (h : t.IsScalars) : t.firstSurrogate? = none :=
  List.find?_eq_none.mpr fun p hp => by simp [h p hp]

theorem nil : IsScalars [] := nofun

theorem cons (c : Char) (h : t.IsScalars) : IsScalars (.scalar c :: t) := by
  rintro p (_ | ⟨_, hp⟩)
  · rfl
  · exact h p hp

theorem append (h : t.IsScalars) (h' : u.IsScalars) : IsScalars (t ++ u) := fun p hp =>
  (List.mem_append.mp hp).elim (h p) (h' p)

theorem take (h : t.IsScalars) (n : Nat) : IsScalars (t.take n) := fun p hp =>
  h p (List.mem_of_mem_take hp)

theorem drop (h : t.IsScalars) (n : Nat) : IsScalars (t.drop n) := fun p hp =>
  h p (List.mem_of_mem_drop hp)

theorem replicate (n : Nat) (c : Char) : IsScalars (List.replicate n (.scalar c)) := by
  intro p hp
  rw [List.eq_of_mem_replicate hp]
  rfl

theorem ofChars (cs : List Char) : IsScalars (Text.ofChars cs) := by
  intro p hp
  obtain ⟨c, -, rfl⟩ := List.mem_map.mp hp
  rfl

theorem of (s : String) : IsScalars (Text.of s) := ofChars s.toList

theorem ofNat (n : Nat) : IsScalars (Text.ofNat n) := ofChars _

theorem ofInt (n : Int) : IsScalars (Text.ofInt n) := by
  cases n with
  | ofNat n => exact ofNat n
  | negSucc n => exact (ofNat (n + 1)).cons '-'

/-- The text of a positive decimal, in either notation. -/
theorem positive (layout : Layout) (c : Nat) (e : Int) : IsScalars (layout.positive c e) := by
  unfold Layout.positive
  simp only
  split
  · split
    · exact ((ofNat c).append (replicate _ '0')).append (of _)
    · split
      · exact (((ofNat c).take _).append (nil.cons '.')).append ((ofNat c).drop _)
      · exact ((of "0.").append (replicate _ '0')).append (ofNat c)
  · refine (((ofNat c).take 1).append ?_).append (ofChars _)
    split
    · exact nil
    · exact ((ofNat c).drop 1).cons '.'

theorem float (layout : Layout) (x : Binary64) : IsScalars (layout.text x) := by
  have signed {t : Text} (negative : Bool) (h : t.IsScalars) :
      IsScalars (if negative then .scalar '-' :: t else t) := by
    cases negative with
    | false => exact h
    | true => exact h.cons '-'
  unfold Layout.text
  simp only
  split
  · exact of _
  · exact signed _ (of _)
  · split
    · exact signed _ (of _)
    · exact signed _ (positive layout _ _)

theorem string (s : ScalarString) : IsScalars s.text := ofChars s.scalars

end Text.IsScalars

/-! ## Joining -/

/-- One of two values is a string, and the other is host text whose first surrogate is `p`. -/
def Clash (a b : Value) (p : CodePoint) : Prop :=
  ∃ s t, (a = .string s ∧ b = .text t ∨ a = .text t ∧ b = .string s) ∧ t.firstSurrogate? = some p

/-- The fault of a surrogate, passed on as it is. -/
def Failure.surrogate (p : CodePoint) : Failure := .fault (.string (.notScalar (.int p.toNat)))

theorem ofHostText_eq_error_iff {t : Text} {e : StringFault} :
    ScalarString.ofHostText t = .error e ↔
      ∃ p, t.firstSurrogate? = some p ∧ e = .notScalar (.int p.toNat) := by
  unfold ScalarString.ofHostText
  rw [Except.mapError_eq_error_iff]
  simp only [ScalarString.ofText_eq_error_iff, @eq_comm _ e]

/-- Host text gives no string if it holds a surrogate; other values, if they have no text. -/
theorem ofOperand_eq_error_iff {v : Value} {e : StringFault} :
    ScalarString.ofOperand v = .error e ↔
      (v.plainText? = none ∧ e = .unsupportedOperand (Text.of "+") v.hostName) ∨
        ∃ t p, v = .text t ∧ t.firstSurrogate? = some p ∧ e = .notScalar (.int p.toNat) := by
  have hscalars {t : Text} (ht : t.IsScalars) : ScalarString.ofHostText t ≠ .error e := by
    rw [Ne, ofHostText_eq_error_iff, ht.firstSurrogate?_eq_none]
    exact fun ⟨_, h, _⟩ => nomatch h
  cases v with
  | string s =>
    refine ⟨nofun, ?_⟩
    rintro (⟨h, -⟩ | ⟨_, _, h, -⟩) <;> cases h
  | text t =>
    show ScalarString.ofHostText t = .error e ↔ _
    rw [ofHostText_eq_error_iff]
    constructor
    · rintro ⟨p, hp, rfl⟩
      exact .inr ⟨t, p, rfl, hp, rfl⟩
    · rintro (⟨h, -⟩ | ⟨_, p, h, hp, rfl⟩)
      · cases h
      · cases h
        exact ⟨p, hp, rfl⟩
  | bool b =>
    refine ⟨fun h => absurd h (hscalars (.of _)), ?_⟩
    rintro (⟨h, -⟩ | ⟨_, _, h, -⟩) <;> cases h
  | int n =>
    refine ⟨fun h => absurd h (hscalars (.ofInt n)), ?_⟩
    rintro (⟨h, -⟩ | ⟨_, _, h, -⟩) <;> cases h
  | float x =>
    refine ⟨fun h => absurd h (hscalars (.float .plain x)), ?_⟩
    rintro (⟨h, -⟩ | ⟨_, _, h, -⟩) <;> cases h
  | none | list items | object fields =>
    constructor
    · intro h
      cases h
      exact .inl ⟨rfl, rfl⟩
    · rintro (⟨-, rfl⟩ | ⟨_, _, h, -⟩)
      · rfl
      · cases h

/-! ## Operators -/

/-- If it fails, then with an `EvalError`. -/
def OnlyEval {α : Type} (x : Except Failure α) : Prop := ∀ f, x = .error f → ∃ e, f = .eval e

section OnlyEval

variable {α : Type} {limit : Option Nat} {pos : Option Position}

theorem onlyEval_ok (a : α) : OnlyEval (.ok a) := nofun

theorem onlyEval_at (fault : EvalFault) : OnlyEval (.error (.at_ fault pos) : Except Failure α) :=
  fun _ h => ⟨⟨fault, pos⟩, (Except.error.inj h).symm⟩

theorem onlyEval_checkLength (s : ScalarString) : OnlyEval (checkLength limit s pos) := by
  unfold checkLength
  split
  · exact onlyEval_ok _
  · split
    · exact onlyEval_at _
    · exact onlyEval_ok _

theorem onlyEval_checkRange (n : Int) (operation : Overflow) :
    OnlyEval (checkRange n operation pos) := by
  unfold checkRange
  split
  · exact onlyEval_ok _
  · exact onlyEval_at _

theorem onlyEval_applySubtract (a b : Value) : OnlyEval (applySubtract a b pos) := by
  unfold applySubtract
  split
  · exact onlyEval_checkRange _ _
  · exact onlyEval_at _

theorem onlyEval_applyComparison (c : Comparison) (a b : Value) :
    OnlyEval (applyComparison c a b pos) := by
  unfold applyComparison
  split
  · exact onlyEval_ok _
  · exact onlyEval_ok _
  · split
    · exact onlyEval_ok _
    · exact onlyEval_ok _
    · exact onlyEval_at _
  · exact onlyEval_at _

theorem onlyEval_applyUnary (op : UnaryOperator) (v : Value) : OnlyEval (applyUnary op v pos) := by
  unfold applyUnary
  split
  · exact onlyEval_checkRange _ _
  · exact onlyEval_ok _
  · exact onlyEval_at _

theorem onlyEval_characterValue (d : Datum) : OnlyEval (characterValue limit d pos) := by
  unfold characterValue
  split
  · exact onlyEval_at _
  · exact onlyEval_checkLength _

theorem onlyEval_readIndex (target i : Value) : OnlyEval (readIndex limit target i pos) := by
  unfold readIndex
  split
  · split
    · split
      · exact onlyEval_at _
      · exact onlyEval_checkLength _
    · exact onlyEval_at _
  · exact onlyEval_at _

theorem onlyEval_readVariable (scope : Scope) (t : Text) :
    OnlyEval (readVariable scope (.text t) pos) := by
  unfold readVariable
  simp only [Name.ofDatum?]
  split
  · exact onlyEval_at _
  · exact onlyEval_ok _

theorem onlyEval_checkResult (name : Datum) (v : Value) :
    OnlyEval (checkResult limit name v pos) := by
  unfold checkResult
  split
  · exact onlyEval_checkLength _
  · exact onlyEval_checkRange _ _
  · exact onlyEval_ok _

end OnlyEval

/-- What joining passes on, beside the failures that it wraps. -/
theorem joinResult_error {limit : Option Nat} {pos : Option Position}
    {r : Except StringFault ScalarString} {f : Failure} (h : joinResult limit pos r = .error f) :
    (∃ e, f = .eval e) ∨ ∃ e, r = .error e ∧ f = .fault (.string e) ∧
      ∀ operator operand, e ≠ .unsupportedOperand operator operand := by
  unfold joinResult at h
  split at h
  · exact .inl (onlyEval_checkLength _ f h)
  · exact .inl (onlyEval_at _ f h)
  · next e hne =>
    cases h
    exact .inr ⟨e, rfl, rfl, fun operator operand he => hne operator operand he⟩

/-- `+` passes a fault on where its operands clash. -/
theorem applyAdd_of_clash {limit : Option Nat} {pos : Option Position} {a b : Value}
    {p : CodePoint} (h : Clash a b p) : applyAdd limit a b pos = .error (.surrogate p) := by
  obtain ⟨s, t, hab, hp⟩ := h
  have hoperand : ScalarString.ofOperand (.text t) = .error (.notScalar (.int p.toNat)) :=
    ofOperand_eq_error_iff.mpr (.inr ⟨t, p, rfl, hp, rfl⟩)
  rcases hab with ⟨rfl, rfl⟩ | ⟨rfl, rfl⟩
  · show joinResult limit pos (s.joined (.text t)) = _
    rw [ScalarString.joined, hoperand]
    rfl
  · show joinResult limit pos (s.joinedAfter (.text t)) = _
    rw [ScalarString.joinedAfter, hoperand]
    rfl

/-- What an operand of `+` has for a fault that is no unsupported operand. -/
theorem exists_text_of_ofOperand {v : Value} {e : StringFault}
    (h : ScalarString.ofOperand v = .error e)
    (hne : ∀ operator operand, e ≠ .unsupportedOperand operator operand) :
    ∃ t p, v = .text t ∧ t.firstSurrogate? = some p ∧ e = .notScalar (.int p.toNat) := by
  rcases ofOperand_eq_error_iff.mp h with ⟨-, rfl⟩ | h
  · exact absurd rfl (hne _ _)
  · exact h

/-- **`+` fails with an `EvalError`, but where its operands clash.** -/
theorem applyAdd_error {limit : Option Nat} {pos : Option Position} {a b : Value} {f : Failure}
    (h : applyAdd limit a b pos = .error f) :
    (∃ e, f = .eval e) ∨ ∃ p, Clash a b p ∧ f = .surrogate p := by
  unfold applyAdd at h
  split at h
  · next s =>
    rcases joinResult_error h with h | ⟨e, he, rfl, hne⟩
    · exact .inl h
    · obtain ⟨t, p, rfl, hp, rfl⟩ := exists_text_of_ofOperand (Except.map_eq_error_iff.mp he) hne
      exact .inr ⟨p, ⟨s, t, .inl ⟨rfl, rfl⟩, hp⟩, rfl⟩
  · next s _ =>
    rcases joinResult_error h with h | ⟨e, he, rfl, hne⟩
    · exact .inl h
    · obtain ⟨t, p, rfl, hp, rfl⟩ := exists_text_of_ofOperand (Except.map_eq_error_iff.mp he) hne
      exact .inr ⟨p, ⟨s, t, .inr ⟨rfl, rfl⟩, hp⟩, rfl⟩
  · exact .inl (onlyEval_checkRange _ _ f h)
  · cases h
    exact .inl ⟨_, rfl⟩

/-- A binary operator fails with an `EvalError`, but for `+` where its operands clash. -/
theorem applyBinary_error {limit : Option Nat} {op : BinaryOperator} {pos : Option Position}
    {a b : Value} {f : Failure} (h : applyBinary limit op a b pos = .error f) :
    (∃ e, f = .eval e) ∨ ∃ p, op = .add ∧ Clash a b p ∧ f = .surrogate p := by
  cases op with
  | add =>
    rcases applyAdd_error h with h | ⟨p, hc, rfl⟩
    · exact .inl h
    · exact .inr ⟨p, rfl, hc, rfl⟩
  | subtract => exact .inl (onlyEval_applySubtract a b f h)
  | compare c => exact .inl (onlyEval_applyComparison c a b f h)

end ScalarScript
