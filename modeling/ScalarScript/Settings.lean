import ScalarScript.Datum
import ScalarScript.Log

/-!
# Settings

Model of `EngineSettings`, `get_settings` and `configure_logging`.

The settings of an engine: the level of the log, the greatest length of a string that a script may
build, and whether printed lines are echoed. Each may be given directly or by the environment, and
what is given directly wins. Texts are read leniently.

* `Settings.read` checks all fields and names every one that cannot be read.
* `RootLog` is the state of a process that settings act on: the settings read first are kept, and
  the first call that sets the level of the log decides it.
-/

namespace ScalarScript

/-- The settings of an engine (`EngineSettings`). -/
structure Settings where
  logLevel : Log.Level := .warning
  maxStringLength : Option Nat := none
  echoPrints : Bool := false
deriving DecidableEq, Repr

namespace CodePoint

/-- The upper case of a letter, for the letters whose upper case is an ASCII letter. -/
def upperAscii (p : CodePoint) : CodePoint :=
  match p with
  | .scalar 'ı' => .scalar 'I'
  | .scalar 'ſ' => .scalar 'S'
  | .scalar c => .scalar c.toUpper
  | p => p

/-- The lower case of an ASCII letter; the sign of kelvin is lowered to a letter too. -/
def lowerAscii (p : CodePoint) : CodePoint :=
  match p with
  | .scalar '\u212a' => .scalar 'k'
  | .scalar c => .scalar c.toLower
  | p => p

/-- Whether a code point is dropped from both ends of a number. -/
def isMargin (p : CodePoint) : Bool :=
  p.is ' ' || (0x09 ≤ p.toNat && p.toNat ≤ 0x0D) || p.toNat == 0x85 || p.toNat == 0xA0 ||
    p.toNat == 0x1680 || (0x2000 ≤ p.toNat && p.toNat ≤ 0x200A) || p.toNat == 0x2028 ||
    p.toNat == 0x2029 || p.toNat == 0x202F || p.toNat == 0x205F || p.toNat == 0x3000

end CodePoint

namespace Setting

/-- A text without margins at either end. -/
def trimmed (t : Text) : Text :=
  ((t.dropWhile CodePoint.isMargin).reverse.dropWhile CodePoint.isMargin).reverse

/-- The digits of a number in which single underscores may stand between digits. -/
def ungrouped? : Text → Option Text
  | [] => none
  | [p] => if p.isDigit then some [p] else none
  | p :: q :: rest =>
    if !p.isDigit then none
    else if q.is '_' then (ungrouped? rest).map (p :: ·)
    else (ungrouped? (q :: rest)).map (p :: ·)

/-- The integer that a text writes: a sign, digits, and a fraction of nothing but zeros. -/
def integerOf? (t : Text) : Option Int :=
  let whole := (trimmed t).takeWhile fun p => !p.is '.'
  let fraction := ((trimmed t).dropWhile fun p => !p.is '.').drop 1
  if !fraction.all (·.is '0') then none
  else match whole with
    | .scalar '-' :: digits => (ungrouped? digits).map fun ds => -(Text.decimalValue ds : Int)
    | .scalar '+' :: digits => (ungrouped? digits).map fun ds => (Text.decimalValue ds : Int)
    | digits => (ungrouped? digits).map fun ds => (Text.decimalValue ds : Int)

/-- A length: nothing, or a number of at least zero. -/
def length? (d : Datum) : Option (Option Nat) :=
  match d with
  | .null => some none
  | .text t => (integerOf? t).bind atLeastZero
  | d => d.integer?.bind atLeastZero
where
  atLeastZero (n : Int) : Option (Option Nat) := if 0 ≤ n then some (some n.toNat) else none

/-- The words for a switch that is on. -/
def onWords : List String := ["1", "on", "t", "true", "y", "yes"]

/-- The words for a switch that is off. -/
def offWords : List String := ["0", "off", "f", "false", "n", "no"]

/-- A switch: a truth value, the number one or zero, or a word for either. -/
def switch? (d : Datum) : Option Bool :=
  match d with
  | .text t =>
    let word := t.map CodePoint.lowerAscii
    if onWords.any fun w => word == Text.of w then some true
    else if offWords.any fun w => word == Text.of w then some false
    else none
  | d =>
    match d.integer? with
    | some 1 => some true
    | some 0 => some false
    | _ => none

/-- A level of the log by its name, in any case (`EngineSettings.validate_log_level`). -/
def level? : Datum → Option Log.Level
  | .text t => Log.Level.ofText? (t.map CodePoint.upperAscii)
  | _ => none

end Setting

namespace Settings

/-- Values for fields, by name. -/
abbrev Given := List (String × Datum)

/-- A field read from what is given, or its default. -/
def field {α : Type} (given : Given) (name : String) (default : α) (read : Datum → Option α) :
    Except String α :=
  match given.lookup name with
  | none => .ok default
  | some d =>
    match read d with
    | some a => .ok a
    | none => .error name

/-- The name of a field that could not be read. -/
def failed? {α : Type} : Except String α → List String
  | .error name => [name]
  | .ok _ => []

/-- The settings that are given; the failure names the fields that cannot be read, in order. -/
def read (given : Given) : Except (List String) Settings :=
  let echo := field given "echo_prints" false Setting.switch?
  let level := field given "log_level" .warning Setting.level?
  let length := field given "max_string_length" none Setting.length?
  match echo, level, length with
  | .ok echo, .ok level, .ok length => .ok ⟨level, length, echo⟩
  | _, _, _ => .error (failed? echo ++ failed? level ++ failed? length)

end Settings

/-- What settings act on in a process: the settings loaded first, and the level of the root log. -/
structure RootLog where
  loaded : Option Settings := none
  level : Log.Level := .warning
  configured : Bool := false

namespace RootLog

/-- Loads settings once (`get_settings`): a later call gets what the first successful one read. -/
def load (root : RootLog) (environment : Settings.Given) :
    Except (List String) Settings × RootLog :=
  match root.loaded with
  | some settings => (.ok settings, root)
  | none =>
    match Settings.read environment with
    | .error fields => (.error fields, root)
    | .ok settings => (.ok settings, { root with loaded := some settings })

/-- Why a level cannot be set. -/
inductive ConfigureError where
  | settings (fields : List String)
  | unknownLevel (name : Text)

/-- The wording of a level that is none. -/
def unknownLevelText (name : Text) : Text := Text.of "Unknown level: " ++ name.quoted

/-- Sets the level of the root log, if this is the first call (`configure_logging`); with no name
the settings decide. A name that is no level is a failure, and counts as a call. -/
def configure (root : RootLog) (name : Text) (environment : Settings.Given) :
    Except ConfigureError Log.Level × RootLog :=
  if name.isEmpty then
    match root.load environment with
    | (.error fields, root) => (.error (.settings fields), root)
    | (.ok settings, root) =>
      if root.configured then (.ok root.level.effective, root)
      else (.ok settings.logLevel.effective,
        { root with level := settings.logLevel, configured := true })
  else if root.configured then (.ok root.level.effective, root)
  else match Log.Level.ofText? name with
    | none => (.error (.unknownLevel name), { root with configured := true })
    | some level => (.ok level.effective, { root with level := level, configured := true })

end RootLog

end ScalarScript
