import ScalarScript.Document.Script
import ScalarScript.Engine.Action
import ScalarScript.Engine.Evaluate

/-!
# Executing scripts

Model of `Engine.run`, `Engine.execute` and the statement handlers, from `Engine._exec_let` to
`Engine._exec_expression`, and of `Engine.register_fn` and `ExecutionResult`.

Statements are executed one after another on a state, up to the first that fails. Each is a
sequence of actions, which change the state and have effects in this order.

* Declaring binds a name afresh, whatever it was before. Assigning needs a bound name that is no
  constant, and looks at that before it evaluates anything.
* `x[i] = c` binds `x` to a new string in which one scalar differs.
* Printing adds a line to the output, hands it to the sink, and echoes it if the settings say so.
* A script that fails with an `EvalError` is reported to the log; other failures are passed on
  silently.

Result: `executeAll_cons`.
-/

namespace ScalarScript

/-- Looks whether a name may be assigned to, and gives it with its value
(`Engine._check_assignable`). -/
def assignable (state : State) (name : Datum) (pos : Option Position) :
    Except Failure (Name × Value) :=
  match Name.ofDatum? name with
  | none => .error unusableName
  | some key =>
    match state.scope.get? key with
    | none => .error (.at_ (.unbound name) pos)
    | some v =>
      if key ∈ state.constants then .error (.at_ (.constant name) pos) else .ok (key, v)

/-- The name that a declaration binds. -/
def declarable (name : Datum) : Except Failure Name :=
  match Name.ofDatum? name with
  | none => .error unusableName
  | some key => .ok key

/-- The string in a variable that is to be indexed. -/
def indexable (v : Value) (pos : Option Position) : Except Failure ScalarString :=
  match v with
  | .string s => .ok s
  | v => .error (.at_ (.notIndexable v.typeName) pos)

/-- An index. -/
def indexNumber (v : Value) (pos : Option Position) : Except Failure Int :=
  match v with
  | .int i => .ok i
  | v => .error (.at_ (.indexNotInteger v.typeName) pos)

/-- The scalar of a string of one. -/
def singleScalar (v : Value) (pos : Option Position) : Except Failure Char :=
  match v with
  | .string s =>
    if s.length = 1 then
      match s.scalarAt 0 with
      | .ok c => .ok c
      | .error e => .error (.at_ (.string e) pos)
    else .error (.at_ .notSingleScalar pos)
  | _ => .error (.at_ .notSingleScalar pos)

/-- A string with one scalar replaced. -/
def replaceScalar (s : ScalarString) (i : Int) (c : Char) (pos : Option Position) :
    Except Failure ScalarString :=
  (s.replacedAt i c).mapError fun e => .at_ (.string e) pos

/-- The line that a value prints. -/
def printedLine (v : Value) (pos : Option Position) : Except Failure Text :=
  (v.render (Text.of "print")).mapError fun e => .at_ (.string e) pos

/-- A statement, where `value` evaluates its expressions (`Engine._exec_let` and the other
handlers). The end of the depth is not placed. -/
def performWith (settings : Settings) (value : Scope → Expr → Traced Log.Record Value) :
    Statement → Action Unit
  | .declare name e _ => do
    let v ← Action.compute fun state => value state.scope e
    let key ← Action.check fun _ => declarable name
    Action.modify (·.rebind key v)
    Action.modify (·.unmark key)
    Action.report (Text.of "let " ++ name.plain)
  | .constant name e _ => do
    let v ← Action.compute fun state => value state.scope e
    let key ← Action.check fun _ => declarable name
    Action.modify (·.rebind key v)
    Action.modify (·.mark key)
    Action.report (Text.of "const " ++ name.plain)
  | .assign name e pos => do
    let (key, _) ← Action.check (assignable · name pos)
    let v ← Action.compute fun state => value state.scope e
    Action.modify (·.rebind key v)
  | .indexAssign name i e pos => do
    let (key, current) ← Action.check (assignable · name pos)
    let s ← Action.check fun _ => indexable current pos
    let index ← Action.compute fun state => value state.scope i
    let i ← Action.check fun _ => indexNumber index pos
    let scalar ← Action.compute fun state => value state.scope e
    let c ← Action.check fun _ => singleScalar scalar pos
    let t ← Action.check fun _ => replaceScalar s i c pos
    Action.modify (·.rebind key (.string t))
    Action.report (name.plain ++ Text.of "[" ++ Text.ofInt i ++ Text.of "] replaced")
  | .print e pos => do
    let v ← Action.compute fun state => value state.scope e
    let line ← Action.check fun _ => printedLine v pos
    Action.modify (·.print line)
    Action.emit [.line line]
    Action.emit (if settings.echoPrints then [.echo line] else [])
  | .expression e _ => do
    let _ ← Action.compute fun state => value state.scope e
    return

namespace Engine

/-- Performs a statement (`Engine._execute_statement`); the end of the depth is placed at the
statement. -/
def perform (engine : Engine) (s : Statement) : Action Unit :=
  (performWith engine.settings (evaluate engine depth) s).mapFailure (Failure.placed s.position)

/-- Executes a statement in a state. -/
def executeStatement (engine : Engine) (state : State) (s : Statement) : Traced Effect State :=
  (engine.perform s).outcome state

/-- The report of a script that fails; only failures of execution are reported. -/
def failureReport (name : Datum) : Failure → List Effect
  | .eval e =>
    [.log ⟨.warning, .engine,
      Text.of "Script " ++ name.plain ++ Text.of " failed: " ++ e.message⟩]
  | _ => []

/-- A statement with the report of its failure. -/
def executeReported (engine : Engine) (name : Datum) (state : State) (s : Statement) :
    Traced Effect State :=
  let t := engine.executeStatement state s
  match t.result with
  | .ok _ => t
  | .error f => ⟨t.effects ++ failureReport name f, .error f⟩

/-- Executes statements in order up to the first that fails. -/
def executeAll (engine : Engine) (name : Datum) (state : State) :
    List Statement → Traced Effect State
  | [] => pure state
  | s :: rest => do
    let next ← engine.executeReported name state s
    executeAll engine name next rest

/-- The report of a script that starts. -/
def startReport (script : Script) : Log.Record :=
  Log.engine (Text.of "Executing " ++ script.name.plain ++ Text.of " (" ++
    Text.ofNat script.statements.length ++ Text.of " statements)")

/-- Executes a script in a scope (`Engine.execute`). -/
def execute (engine : Engine) (script : Script) (scope : Scope) : Traced Effect State := do
  Traced.emit [.log (startReport script)]
  engine.executeAll script.name (State.start scope) script.statements

/-- Reads and executes a source in an empty scope (`Engine.run`). -/
def run (engine : Engine) (source : Text) (name : Datum) : Traced Effect State := do
  engine.execute (← (Script.traced source name).reported) Scope.empty

theorem executeAll_cons (engine : Engine) (name : Datum) (state : State) (s : Statement)
    (rest : List Statement) :
    engine.executeAll name state (s :: rest) =
      engine.executeReported name state s >>= fun next => engine.executeAll name next rest := rfl

end Engine

/-! ## Results of a script -/

namespace State

/-- The final value of a variable (`ExecutionResult.get`); the failure is the wording of its
absence. -/
def final (state : State) (name : Text) : Except Text Value :=
  match state.scope.get? (.text name) with
  | some v => .ok v
  | none => .error (Text.of "Variable not found: " ++ name)

/-- The summary of a finished script. -/
def summary (state : State) : Text :=
  Text.of "<ExecutionResult: vars=" ++ Text.ofNat state.scope.bindings.length ++
    Text.of " printed=" ++ Text.ofNat state.output.length ++ Text.of ">"

end State

/-! ## Host functions -/

namespace Engine

/-- The function that every engine starts with: the length of a string. -/
def lengthFunction : Registration HostFunction where
  name := Text.of "len"
  types := some [.string]
  body _ arguments :=
    match arguments with
    | [.string s] => pure (.int s.length)
    | _ => .fail (.host .wrongType)

/-- An engine with the functions that all engines have. -/
def new (settings : Settings) : Engine := ⟨settings, Registry.empty.add lengthFunction⟩

/-- The report of a registered function. -/
def registrationReport (name : Text) : Log.Record :=
  Log.engine (Text.of "Registered function " ++ name)

/-- An engine with one more host function, unless its name is no identifier
(`Engine.register_fn`). -/
def register? (engine : Engine) (r : Registration HostFunction) : Option Engine :=
  (engine.functions.register? r).map fun functions => { engine with functions }

end Engine

end ScalarScript
