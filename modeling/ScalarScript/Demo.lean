import ScalarScript.Example
import ScalarScript.Yaml.Write

/-!
# A tour of the library

Model of the demonstration `main`.

A report on the example script: what it declares, what it prints, how a bad escape is reported, and
the script as a YAML document.
-/

namespace ScalarScript.Demo

/-- A line across the page. -/
def rule : Text := List.replicate 80 (.scalar '=')

/-- What a script declares. -/
def declarations (script : Script) : List Text :=
  [ Text.of "1. PARSING SCRIPT...",
    Text.of "   ✓ Statements: " ++ Text.ofNat script.statements.length,
    Text.of "   ✓ Variables: " ++ Text.join (Text.of ", ") (script.declared.map Datum.plain),
    [] ]

/-- What a run prints. -/
def execution (output : List Text) : List Text :=
  [Text.of "2. EXECUTING..."] ++ output.map (Text.of "   > " ++ ·) ++
    [Text.of "   ✓ Printed " ++ Text.ofNat output.length ++ Text.of " lines", []]

/-- A source with an escape of a surrogate. -/
def badSource : Text := Text.of "let bad = \"surrogate: \\uD800\";"

/-- How a source that cannot be scanned is reported. -/
def scanReport (source : Text) : List Text :=
  match Tokens.scan source with
  | .ok _ => []
  | .error e =>
    [Text.of "   ✗ " ++ e.message] ++
      e.cause.toList.map fun cause => Text.of "     caused by: " ++ cause.message

/-- The whole report on a script, its source and what it printed. -/
def reportOn (script : Script) (source : Text) (output : List Text) : List Text :=
  [rule, Text.of "STRINGS DEMO: source → Script → execution → YAML", rule, []] ++
    declarations script ++ execution output ++
    [Text.of "3. BAD ESCAPE..."] ++ scanReport badSource ++ [[]] ++
    [Text.of "4. YAML..."] ++ (Yaml.write script.toDatum).lines ++
    [rule, Text.of "Source:"] ++ source.lines

/-- The report on the example. -/
def report : Traced Effect (List Text) := do
  let script ← Example.script.reported
  let state ← (Engine.new {}).execute script Scope.empty
  return reportOn script Example.source state.output

end ScalarScript.Demo
