import ScalarScript.Token.Scan

/-!
# Log records

Model of the records that `_fail`, `tokenize` and `Engine` hand to their loggers.

What the layers report while they work: failed literals, scanned sources, and what the engine does.
A record has a level, the layer it comes from, and a message.

* `Level` are the levels a log can be set to. Two of them have two names; `effective` is the one
  that a level is reported as.

Results: `effective_idem`.
-/

namespace ScalarScript.Log

/-- The levels of a log. -/
inductive Level where
  | critical
  | fatal
  | error
  | warning
  | warn
  | info
  | debug
  | notset
deriving DecidableEq, Repr

namespace Level

def all : List Level := [.critical, .fatal, .error, .warning, .warn, .info, .debug, .notset]

def spelling : Level → String
  | critical => "CRITICAL"
  | fatal => "FATAL"
  | error => "ERROR"
  | warning => "WARNING"
  | warn => "WARN"
  | info => "INFO"
  | debug => "DEBUG"
  | notset => "NOTSET"

/-- The level with a given name, in upper case. -/
def ofText? (t : Text) : Option Level := all.find? fun l => t == Text.of l.spelling

/-- The level that a level is reported as. -/
def effective : Level → Level
  | fatal => critical
  | warn => warning
  | l => l

theorem effective_idem (l : Level) : l.effective.effective = l.effective := by
  cases l <;> rfl

end Level

/-- The layers that report. -/
inductive Source where
  | literals
  | scanner
  | engine
deriving DecidableEq, Repr

/-- One report. -/
structure Record where
  level : Level
  source : Source
  message : Text
deriving DecidableEq, Repr

/-- The report of a failed literal (`_fail`). -/
def failedLiteral (e : Literal.DecodeError) : Record :=
  ⟨.debug, .literals,
    Text.of "Literal decode failed: " ++ Text.of e.kind.description ++ Text.of " at offset " ++
      Text.ofNat e.offset ++ Text.of " (" ++ e.sequence.quoted ++ Text.of ")"⟩

/-- The report of a scanned source (`tokenize`); the end of the source counts as a token. -/
def scanned (source : Text) (tokens : Tokens) : Record :=
  ⟨.debug, .scanner,
    Text.of "Tokenized " ++ Text.ofNat source.lines.length ++ Text.of " lines into " ++
      Text.ofNat (tokens.tokens.length + 1) ++ Text.of " tokens"⟩

/-- What scanning a source reports. -/
def ofScan (source : Text) : Except LexError Tokens → List Record
  | .ok tokens => [scanned source tokens]
  | .error e => e.cause.toList.map failedLiteral

/-- A report of the engine below the level of warnings. -/
def engine (message : Text) : Record := ⟨.debug, .engine, message⟩

end ScalarScript.Log
