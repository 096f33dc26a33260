import ScalarScript.Except
import ScalarScript.Engine.Failure
import ScalarScript.Log

/-!
# Evaluation with a trace

Model of the order in which `Engine` uses its logger and its sink `on_print`.

An evaluation ends in a value or a failure, and on the way it has effects. `Traced` keeps them in
order beside the outcome. The outcome alone is a plain `Except`, and every law about values is a
law about `result`.

* Reading source and evaluating expressions only reports to the log: their effects are log records.
* Executing statements also hands lines to the sink for printed output and echoes them: its effects
  are of type `Effect`, among them those of the expressions (`Traced.reported`).

Results: `result_pure`, `result_bind`, `effects_pure`, `effects_bind_ok`, `effects_bind_error`,
`result_mapFailure`, the monad laws, `linesOf_reported` (what only reports prints nothing),
`Script.traced_eq_ok_iff` and `Expr.traced_eq_ok_iff` (what is read is what is parsed).
-/

namespace ScalarScript

/-- What an execution does besides computing. -/
inductive Effect where
  | log (r : Log.Record)
  | line (text : Text)
  | echo (text : Text)

/-- An outcome with the effects that led to it. -/
structure Traced (ε α : Type) where
  effects : List ε
  result : Except Failure α

namespace Traced

variable {ε α β : Type}

/-- An outcome without effects. -/
def ofExcept (r : Except Failure α) : Traced ε α := ⟨[], r⟩

/-- A failure without effects. -/
def fail (f : Failure) : Traced ε α := ofExcept (.error f)

/-- Effects alone. -/
def emit (effects : List ε) : Traced ε Unit := ⟨effects, .ok ()⟩

/-- First `x`, then what its value leads to. -/
def bind (x : Traced ε α) (f : α → Traced ε β) : Traced ε β :=
  match x.result with
  | .error e => ⟨x.effects, .error e⟩
  | .ok a => ⟨x.effects ++ (f a).effects, (f a).result⟩

instance : Monad (Traced ε) where
  pure a := ofExcept (.ok a)
  bind := bind

/-- The same evaluation with its failure changed. -/
def mapFailure (f : Failure → Failure) (x : Traced ε α) : Traced ε α :=
  ⟨x.effects, x.result.mapError f⟩

/-- What only reports to the log, as a part of an execution. -/
def reported (x : Traced Log.Record α) : Traced Effect α := ⟨x.effects.map .log, x.result⟩

@[simp] theorem result_pure (a : α) : (pure a : Traced ε α).result = .ok a := rfl

@[simp] theorem effects_pure (a : α) : (pure a : Traced ε α).effects = [] := rfl

@[simp] theorem result_ofExcept (r : Except Failure α) : (ofExcept r : Traced ε α).result = r :=
  rfl

@[simp] theorem effects_ofExcept (r : Except Failure α) :
    (ofExcept r : Traced ε α).effects = [] := rfl

@[simp] theorem result_fail (f : Failure) : (fail f : Traced ε α).result = .error f := rfl

@[simp] theorem effects_fail (f : Failure) : (fail f : Traced ε α).effects = [] := rfl

@[simp] theorem result_emit (effects : List ε) : (emit effects).result = .ok () := rfl

@[simp] theorem effects_emit (effects : List ε) : (emit effects).effects = effects := rfl

@[simp] theorem result_reported (x : Traced Log.Record α) : x.reported.result = x.result := rfl

@[simp] theorem effects_reported (x : Traced Log.Record α) :
    x.reported.effects = x.effects.map .log := rfl

@[simp] theorem result_bind (x : Traced ε α) (f : α → Traced ε β) :
    (x >>= f).result = x.result >>= fun a => (f a).result := by
  show (bind x f).result = _
  unfold bind
  cases x.result <;> rfl

theorem effects_bind_ok {x : Traced ε α} {a : α} (h : x.result = .ok a) (f : α → Traced ε β) :
    (x >>= f).effects = x.effects ++ (f a).effects := by
  show (bind x f).effects = _
  simp [bind, h]

theorem effects_bind_error {x : Traced ε α} {e : Failure} (h : x.result = .error e)
    (f : α → Traced ε β) : (x >>= f).effects = x.effects := by
  show (bind x f).effects = _
  simp [bind, h]

theorem result_bind_eq_ok_iff {x : Traced ε α} {f : α → Traced ε β} {b : β} :
    (x >>= f).result = .ok b ↔ ∃ a, x.result = .ok a ∧ (f a).result = .ok b := by
  rw [result_bind, Except.bind_eq_ok_iff]

theorem result_bind_eq_error_iff {x : Traced ε α} {f : α → Traced ε β} {e : Failure} :
    (x >>= f).result = .error e ↔
      x.result = .error e ∨ ∃ a, x.result = .ok a ∧ (f a).result = .error e := by
  rw [result_bind, Except.bind_eq_error_iff]

theorem bind_pure_id (x : Traced ε α) : id <$> x = x := by
  obtain ⟨effects, result⟩ := x
  cases result with
  | error e => rfl
  | ok a => exact congrArg (Traced.mk · _) (List.append_nil effects)

theorem bind_bind {γ : Type} (x : Traced ε α) (f : α → Traced ε β) (g : β → Traced ε γ) :
    x >>= f >>= g = x >>= fun a => f a >>= g := by
  obtain ⟨effects, result⟩ := x
  cases result with
  | error e => rfl
  | ok a =>
    show bind (bind ⟨effects, .ok a⟩ f) g = bind ⟨effects, .ok a⟩ fun a => bind (f a) g
    simp only [bind]
    cases (f a).result with
    | error e => rfl
    | ok b => simp only [List.append_assoc]

instance : LawfulMonad (Traced ε) :=
  LawfulMonad.mk' _ bind_pure_id (fun _ _ => rfl) bind_bind

@[simp] theorem result_mapFailure (f : Failure → Failure) (x : Traced ε α) :
    (mapFailure f x).result = x.result.mapError f := rfl

@[simp] theorem effects_mapFailure (f : Failure → Failure) (x : Traced ε α) :
    (mapFailure f x).effects = x.effects := rfl

end Traced

namespace Effect

/-- The lines handed to the sink. -/
def linesOf (effects : List Effect) : List Text :=
  effects.filterMap fun e => match e with
    | .line text => some text
    | .log _ | .echo _ => none

/-- The records of the log. -/
def recordsOf (effects : List Effect) : List Log.Record :=
  effects.filterMap fun e => match e with
    | .log r => some r
    | .line _ | .echo _ => none

/-- The lines echoed. -/
def echoesOf (effects : List Effect) : List Text :=
  effects.filterMap fun e => match e with
    | .echo text => some text
    | .log _ | .line _ => none

theorem linesOf_append (a b : List Effect) : linesOf (a ++ b) = linesOf a ++ linesOf b :=
  List.filterMap_append ..

theorem echoesOf_append (a b : List Effect) : echoesOf (a ++ b) = echoesOf a ++ echoesOf b :=
  List.filterMap_append ..

theorem linesOf_reported {α : Type} (x : Traced Log.Record α) :
    linesOf x.reported.effects = [] := by
  simp [linesOf, List.filterMap_map]

theorem echoesOf_reported {α : Type} (x : Traced Log.Record α) :
    echoesOf x.reported.effects = [] := by
  simp [echoesOf, List.filterMap_map]

end Effect

/-- The tokens of a source, with the report of the scan. -/
def Tokens.traced (source : Text) : Traced Log.Record Tokens :=
  ⟨Log.ofScan source (Tokens.scan source),
    (Tokens.scan source).mapError fun e => .fault (.source (.lex e))⟩

/-- The script of a source, with the report of the scan. -/
def Script.traced (source : Text) (name : Datum) : Traced Log.Record Script := do
  let tokens ← Tokens.traced source
  Traced.ofExcept <|
    match Script.ofTokens Script.nestingLimit tokens with
    | .error e => .error (.fault (.source (.parse e)))
    | .ok statements => .ok ⟨statements, name⟩

/-- The expression of a source, with the report of the scan. -/
def Expr.traced (source : Text) : Traced Log.Record Expr := do
  let tokens ← Tokens.traced source
  Traced.ofExcept <|
    (Expr.ofTokens Script.nestingLimit tokens).mapError fun e => .fault (.source (.parse e))

theorem Script.traced_eq_ok_iff {source : Text} {name : Datum} {script : Script} :
    (Script.traced source name).result = .ok script ↔ Script.parse source name = .ok script := by
  simp only [Script.traced, Script.parse, Tokens.traced, Traced.result_bind_eq_ok_iff,
    Traced.result_ofExcept, Except.bind_eq_ok_iff, Except.mapError_eq_ok_iff,
    Except.pure_eq_ok_iff]
  refine exists_congr fun tokens => and_congr_right fun _ => ?_
  cases Script.ofTokens Script.nestingLimit tokens <;> simp

theorem Expr.traced_eq_ok_iff {source : Text} {e : Expr} :
    (Expr.traced source).result = .ok e ↔ Expr.parse source = .ok e := by
  simp only [Expr.traced, Expr.parse, Tokens.traced, Traced.result_bind_eq_ok_iff,
    Traced.result_ofExcept, Except.bind_eq_ok_iff, Except.mapError_eq_ok_iff]

end ScalarScript
