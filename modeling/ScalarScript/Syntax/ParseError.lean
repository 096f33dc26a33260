import ScalarScript.Token.Scan

/-!
# Failures of parsing

Model of `ParseError` and the texts that the parser gives it.

A parser that finds no way on says what it expected and where. `Expected.description` words what
was expected; `ParseFault.text` puts it together with what was found instead.
-/

namespace ScalarScript

/-- What a parser was looking for. -/
inductive Expected where
  | variableName (after : Keyword)
  | assignment
  | statementEnd
  | printEnd
  | indexEnd
  | methodName
  | methodArguments (method : Text)
  | callEnd (name : Text)
  | groupEnd
  | expression
deriving DecidableEq, Repr

/-- The wording of what was expected. -/
def Expected.description : Expected → Text
  | variableName after =>
    Text.of "a variable name after '" ++ Text.of after.spelling ++ Text.of "'"
  | assignment => Text.of "'='"
  | statementEnd => Text.of "';' to terminate the statement"
  | printEnd => Text.of "')' to close print"
  | indexEnd => Text.of "']' to close the index"
  | methodName => Text.of "a method name after '.'"
  | methodArguments method => Text.of "'(' after method '" ++ method ++ Text.of "'"
  | callEnd name => Text.of "')' to close call to '" ++ name ++ Text.of "'"
  | groupEnd => Text.of "')' to close the expression"
  | expression => Text.of "an expression"

/-- Why tokens form no script: something else was expected than the text found, or than the end of
the script; nesting is too deep; or an expression ends before its source does. -/
inductive ParseFault where
  | missing (expected : Expected) (found : Option Text)
  | nestedTooDeeply
  | trailing (found : Text)
deriving DecidableEq, Repr

/-- The wording of nesting beyond the limit (`_TOO_DEEP`). -/
def nestedTooDeeply : Text := Text.of "Expression is nested too deeply"

/-- The wording of a failure, without its place. -/
def ParseFault.text : ParseFault → Text
  | missing .expression none => Text.of "Script is incomplete"
  | missing expected found =>
    Text.of "Expecting " ++ expected.description ++ Text.of ", found " ++
      (found.map Text.quoted).getD (Text.of "end of script")
  | nestedTooDeeply => ScalarScript.nestedTooDeeply
  | trailing found => Text.of "Unexpected tokens after expression: " ++ found.quoted

/-- Tokens that form no script. -/
structure ParseError where
  fault : ParseFault
  position : Option Position
deriving DecidableEq, Repr

namespace ParseError

/-- The wording of a failure at a place; with no place it is at the end. -/
def located (text : Text) : Option Position → Text
  | none => text ++ Text.of " at the end of the script"
  | some p => text ++ Text.of " (" ++ p.message ++ Text.of ")"

/-- The wording of a failure with its place. -/
def message (e : ParseError) : Text := located e.fault.text e.position

end ParseError

/-- A source that is no script: its text has no tokens, or its tokens form none. -/
inductive SourceError where
  | lex (e : LexError)
  | parse (e : ParseError)
deriving DecidableEq, Repr

/-- The wording of either failure. -/
def SourceError.message : SourceError → Text
  | lex e => e.message
  | parse e => e.message

end ScalarScript
