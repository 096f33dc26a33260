import ScalarScript.Proofs.Evaluation.Order
import ScalarScript.Proofs.Source.Same

/-!
# Evaluation and places

The places in a tree are handed down to where a failure is made, and go nowhere else. So two
evaluations of one tree with different places come to the same, but for the place of a failure.

Each operation takes the place that its failure would have. `Placed` says that its failure gets
this place, and `PlaceFree` that this is all it does with it; a node is place-free where the
operations on its operands are, and a tree where its nodes are.

* `Failure.unplaced`, `Failure.movedTo`: a failure without its place, or at another one;
  `Failure.SameButPlace` compares two failures.
* `Traced.unplaced`: an evaluation that ends in a failure without its place.

Results:
* `unplaced_bind`, `unplaced_mapM`, `unplaced_mapFailure`: what comes to the same is put together
  to what comes to the same.
* `placed_applyBinary` and the like: the operations put their place on their failures; so they are
  place-free (`Placed.placeFree`), and a failed execution tells it (`Placed.position_eq`).
* **`evaluate_mapPositions`**: the places in a tree bear on the place of a failure only.
-/

namespace ScalarScript

/-! ## Failures -/

namespace Failure

/-- A failure without its place. -/
def unplaced : Failure → Failure
  | eval e => at_ e.fault none
  | f => f

/-- A failed execution moved to a place; other failures stay. -/
def movedTo (p : Option Position) : Failure → Failure
  | eval e => at_ e.fault p
  | f => f

/-- Two failures are the same but for the place of a failed execution: they are of one class, and
have one wording and one cause. -/
inductive SameButPlace : Failure → Failure → Prop
  | eval (fault : EvalFault) (p q : Option Position) : SameButPlace (at_ fault p) (at_ fault q)
  | other (f : Failure) : SameButPlace f f

variable {f g : Failure}

theorem sameButPlace_iff : f.SameButPlace g ↔ f.unplaced = g.unplaced := by
  constructor
  · intro h
    cases h <;> rfl
  · intro h
    rcases f with ⟨fault, p⟩ | f | f | _ <;> rcases g with ⟨fault', q⟩ | g | g | _ <;> cases h
    · exact .eval fault p q
    all_goals exact .other _

/-- Outcomes that are the same without places are one value, or failures that are the same but for
their place. -/
theorem outcome_of_unplaced {α : Type} {x y : Except Failure α}
    (h : x.mapError unplaced = y.mapError unplaced) :
    (∃ a, x = .ok a ∧ y = .ok a) ∨ ∃ f g, x = .error f ∧ y = .error g ∧ f.SameButPlace g := by
  cases x with
  | ok a => exact .inl ⟨a, rfl, Except.mapError_eq_ok_iff.mp h.symm⟩
  | error f =>
    obtain ⟨g, hg, hfg⟩ := Except.mapError_eq_error_iff.mp h.symm
    exact .inr ⟨f, g, rfl, hg, sameButPlace_iff.mpr hfg.symm⟩

theorem unplaced_movedTo (p : Option Position) (f : Failure) :
    (movedTo p f).unplaced = f.unplaced := by cases f <;> rfl

theorem unplaced_placed (p : Option Position) (f : Failure) :
    (placed p f).unplaced = placed none f.unplaced := by cases f <;> rfl

theorem unplaced_ofCall (name : Datum) (p : Option Position) (f : Failure) :
    (ofCall name p f).unplaced = ofCall name none f.unplaced := by cases f <;> rfl

end Failure

/-! ## Evaluations -/

/-- The same evaluation, a failure of it without its place. -/
def Traced.unplaced {ε α : Type} (x : Traced ε α) : Traced ε α := x.mapFailure Failure.unplaced

namespace Traced

variable {ε α β : Type}

theorem unplaced_bind {x y : Traced ε α} {g h : α → Traced ε β} (hxy : x.unplaced = y.unplaced)
    (hgh : ∀ a, (g a).unplaced = (h a).unplaced) :
    (x >>= g).unplaced = (y >>= h).unplaced := by
  obtain ⟨effects, result⟩ := x
  obtain ⟨effects', result'⟩ := y
  obtain ⟨rfl, hresult⟩ := Traced.mk.inj hxy
  cases result with
  | error f =>
    cases result' with
    | error f' =>
      exact congrArg (Traced.mk effects) (congrArg Except.error (Except.error.inj hresult))
    | ok a => cases hresult
  | ok a =>
    cases result' with
    | error f' => cases hresult
    | ok a' =>
      cases Except.ok.inj hresult
      obtain ⟨heffects, hend⟩ := Traced.mk.inj (hgh a)
      exact congrArg₂ Traced.mk (congrArg (effects ++ ·) heffects) hend

theorem unplaced_mapFailure {k k' : Failure → Failure}
    (h : ∀ f, (k f).unplaced = k' f.unplaced) (x : Traced ε α) :
    (x.mapFailure k).unplaced = x.unplaced.mapFailure k' := by
  obtain ⟨effects, result⟩ := x
  cases result with
  | error f => exact congrArg (Traced.mk effects) (congrArg Except.error (h f))
  | ok a => rfl

theorem unplaced_mapM {f : α → Traced ε β} {m : α → α} {xs : List α}
    (h : ∀ x ∈ xs, (f (m x)).unplaced = (f x).unplaced) :
    ((xs.map m).mapM f).unplaced = (xs.mapM f).unplaced := by
  induction xs with
  | nil => rfl
  | cons x xs ih =>
    obtain ⟨hx, hxs⟩ := List.forall_mem_cons.mp h
    rw [List.map_cons, List.mapM_cons, List.mapM_cons]
    exact unplaced_bind hx fun b => unplaced_bind (ih hxs) fun bs => rfl

end Traced

/-! ## Operations -/

/-- An operation uses the place that it is given for its failure only. -/
def PlaceFree {α : Type} (x : Option Position → Except Failure α) : Prop :=
  ∀ p q, (x p).mapError Failure.unplaced = (x q).mapError Failure.unplaced

/-- An operation puts the place that it is given on its failure, and uses it for nothing else. -/
def Placed {α : Type} (x : Option Position → Except Failure α) : Prop :=
  ∀ p, x p = (x none).mapError (Failure.movedTo p)

section Operations

variable {α : Type} {limit : Option Nat}

namespace Placed

variable {x : Option Position → Except Failure α} {p q : Option Position}

theorem placeFree (h : Placed x) : PlaceFree x := by
  have hnone (p : Option Position) :
      (x p).mapError Failure.unplaced = (x none).mapError Failure.unplaced := by
    rw [h p]
    cases x none with
    | error f => exact congrArg Except.error (f.unplaced_movedTo p)
    | ok a => rfl
  exact fun p q => (hnone p).trans (hnone q).symm

/-- A failed execution is at the place that the operation is given. -/
theorem position_eq (h : Placed x) {err : EvalError} (he : x p = .error (.eval err)) :
    err.position = p := by
  rw [h p, Except.mapError_eq_error_iff] at he
  obtain ⟨f, -, hf⟩ := he
  cases f with
  | eval e =>
    cases hf
    rfl
  | fault | host | tooDeep => cases hf

theorem ofExcept {ε : Type} (h : Placed x) (p q : Option Position) :
    (Traced.ofExcept (x p) : Traced ε α).unplaced = (Traced.ofExcept (x q)).unplaced :=
  congrArg Traced.ofExcept (h.placeFree p q)

end Placed

theorem placed_checkLength (s : ScalarString) : Placed (checkLength limit s) := by
  intro p
  unfold checkLength
  split
  · rfl
  · split <;> rfl

theorem placed_checkRange (n : Int) (operation : Overflow) :
    Placed (checkRange n operation) := by
  intro p
  unfold checkRange
  split <;> rfl

theorem placed_joinResult (r : Except StringFault ScalarString) :
    Placed fun p => joinResult limit p r := by
  intro p
  unfold joinResult
  split
  · exact placed_checkLength _ p
  · rfl
  · rfl

theorem placed_applyAdd (a b : Value) : Placed (applyAdd limit a b) := by
  intro p
  unfold applyAdd
  split
  · exact placed_joinResult _ p
  · exact placed_joinResult _ p
  · exact placed_checkRange _ _ p
  · rfl

theorem placed_applySubtract (a b : Value) : Placed (applySubtract a b) := by
  intro p
  unfold applySubtract
  split
  · exact placed_checkRange _ _ p
  · rfl

theorem placed_applyComparison (c : Comparison) (a b : Value) :
    Placed (applyComparison c a b) := by
  intro p
  unfold applyComparison
  split
  · rfl
  · rfl
  · split <;> rfl
  · rfl

theorem placed_applyBinary (op : BinaryOperator) (a b : Value) :
    Placed (applyBinary limit op a b) := by
  cases op with
  | add => exact placed_applyAdd a b
  | subtract => exact placed_applySubtract a b
  | compare c => exact placed_applyComparison c a b

theorem placed_applyUnary (op : UnaryOperator) (v : Value) : Placed (applyUnary op v) := by
  intro p
  unfold applyUnary
  split
  · exact placed_checkRange _ _ p
  · rfl
  · rfl

theorem placed_characterValue (d : Datum) : Placed (characterValue limit d) := by
  intro p
  unfold characterValue
  split
  · rfl
  · exact placed_checkLength _ p

theorem placed_readIndex (target index : Value) : Placed (readIndex limit target index) := by
  intro p
  unfold readIndex
  split
  · split
    · split
      · rfl
      · exact placed_checkLength _ p
    · rfl
  · rfl

theorem placed_readVariable (scope : Scope) (name : Datum) :
    Placed (readVariable scope name) := by
  intro p
  unfold readVariable
  split
  · rfl
  · split <;> rfl

theorem placed_checkResult (name : Datum) (v : Value) :
    Placed (checkResult limit name v) := by
  intro p
  unfold checkResult
  split
  · exact placed_checkLength _ p
  · exact placed_checkRange _ _ p
  · rfl

theorem placed_findFunction (engine : Engine) (name : Datum) (arguments : List Value) :
    Placed (findFunction engine name arguments) := by
  intro p
  unfold findFunction
  split
  · rfl
  · simp only
    split <;> rfl

/-- A call is place-free whatever its function does, since functions are not told the place. -/
theorem unplaced_callFunction (engine : Engine) (text : Text → Traced Log.Record Value)
    (name : Datum) (arguments : List Value) (p q : Option Position) :
    (callFunction engine text name arguments p).unplaced =
      (callFunction engine text name arguments q).unplaced := by
  refine Traced.unplaced_bind ((placed_findFunction engine name arguments).ofExcept p q)
    fun function => Traced.unplaced_bind ?_ fun v => (placed_checkResult name v).ofExcept p q
  rw [Traced.unplaced_mapFailure (Failure.unplaced_ofCall name p),
    Traced.unplaced_mapFailure (Failure.unplaced_ofCall name q)]

end Operations

/-! ## Trees -/

theorem Expr.operands_mapPositions (f : Option Position → Option Position) (e : Expr) :
    (e.mapPositions f).operands = e.operands.map (mapPositions f) := by
  cases e <;> simp [mapPositions, operands, listMapPositions_eq]

/-- A node makes the same of the values of its operands, wherever it stands. -/
theorem unplaced_combine (f : Option Position → Option Position) (engine : Engine)
    (text : Text → Traced Log.Record Value) (scope : Scope) (e : Expr) (vs : List Value) :
    (combine engine text scope (e.mapPositions f) vs).unplaced =
      (combine engine text scope e vs).unplaced := by
  cases e with
  | string s pos => exact (placed_checkLength s).ofExcept _ _
  | char d pos => exact (placed_characterValue d).ofExcept _ _
  | int d pos | bool d pos => rfl
  | var name pos => exact (placed_readVariable scope name).ofExcept _ _
  | binary op left right pos =>
    rcases vs with _ | ⟨a, _ | ⟨b, _ | ⟨c, vs⟩⟩⟩
    · rfl
    · rfl
    · exact (placed_applyBinary op a b).ofExcept _ _
    · rfl
  | unary op operand pos =>
    rcases vs with _ | ⟨v, _ | ⟨w, vs⟩⟩
    · rfl
    · exact (placed_applyUnary op v).ofExcept _ _
    · rfl
  | method target name arguments pos => exact unplaced_callFunction ..
  | call name arguments pos => exact unplaced_callFunction ..
  | index target i pos =>
    rcases vs with _ | ⟨a, _ | ⟨b, _ | ⟨c, vs⟩⟩⟩
    · rfl
    · rfl
    · exact (placed_readIndex a b).ofExcept _ _
    · rfl

/-- **The places in a tree bear on the place of a failure only.** With other places, evaluating it
has the same effects, and the same value or the same failure but for its place. -/
theorem evaluate_mapPositions (f : Option Position → Option Position) (engine : Engine)
    (depth : Nat) (scope : Scope) (e : Expr) :
    (evaluate engine depth scope (e.mapPositions f)).unplaced =
      (evaluate engine depth scope e).unplaced := by
  induction depth generalizing e with
  | zero => rfl
  | succ depth ih =>
    rw [evaluate_succ, evaluate_succ, Expr.operands_mapPositions]
    exact Traced.unplaced_bind (Traced.unplaced_mapM fun operand _ => ih operand)
      (unplaced_combine f engine _ scope e)

end ScalarScript
