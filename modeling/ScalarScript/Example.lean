import ScalarScript.Engine.Execute

/-!
# A script to start with

Model of `STRINGS_SCRIPT`, `EXPECTED_OUTPUT` and `build_example_script`.

A short script with every kind of escape, concatenation with a string and with an integer,
comparison, length and replacement, and the lines that it prints.
-/

namespace ScalarScript.Example

/-- The name of the script. -/
def name : Text := Text.of "strings"

/-- The lines of the script. -/
def sourceLines : List Text :=
  [ "// strings: literals, escapes, concatenation, comparison, length, replacement",
    "let heart = \"Test string: ❤\";",
    "print(heart);",
    "let x = \"Test string: \\x58\";",
    "print(x);",
    "print(\"smile: \\U0001F603\");",
    "let foo = \"foo\";",
    "print(foo + \" bar\");",
    "print(foo + 42);",
    "print(\"foo\" < \"bar\");",
    "print(\"foo\" >= \"bar\");",
    "let s = \"hello, world!\";",
    "print(s.len());",
    "s[12] = '?';",
    "print(s);" ].map Text.of

/-- The source of the script (`STRINGS_SCRIPT`). -/
def source : Text := sourceLines.flatMap (· ++ [.scalar '\n'])

/-- The lines that the script prints (`EXPECTED_OUTPUT`). -/
def expectedOutput : List Text :=
  [ "Test string: ❤",
    "Test string: X",
    "smile: 😃",
    "foo bar",
    "foo42",
    "false",
    "true",
    "13",
    "hello, world?" ].map Text.of

/-- The script (`build_example_script`). -/
def script : Traced Log.Record Script := Script.traced source (.text name)

/-- A run of the script. -/
def run (settings : Settings) : Traced Effect State := do
  (Engine.new settings).execute (← script.reported) Scope.empty

end ScalarScript.Example
