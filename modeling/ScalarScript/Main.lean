import ScalarScript.Demo

/-!
# The command line

Prints the report on the example script, as the demonstration `main` does.
-/

open ScalarScript

def main : IO UInt32 := do
  match Demo.report.result with
  | .error _ =>
    IO.eprintln "The example script failed."
    return 1
  | .ok lines =>
    for line in lines do
      IO.println (String.ofList line.chars)
    return 0
