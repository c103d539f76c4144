import HotPath.Log
import HotPath.Text.Case

/-! Which notes of the log are shown. -/

namespace HotPath

/-- The names that a level may be given by. -/
def levelNames : List (String × Nat) :=
  [("NOTSET", 0), ("DEBUG", 10), ("INFO", 20), ("WARN", 30), ("WARNING", 30), ("ERROR", 40),
    ("FATAL", 50), ("CRITICAL", 50)]

/-- A word that names something else about the log than a level. -/
inductive LevelError
  | lineFormat
  | styles
deriving DecidableEq

namespace LevelError

/-- The words that are refused. -/
def words : List (String × LevelError) := [("BASIC_FORMAT", lineFormat), ("_STYLES", styles)]

/-- How a line of the log is put together. -/
def lineFormatText : String := "%(levelname)s:%(name)s:%(message)s"

/-- The ways in which such a format can be written. -/
def stylesText : String :=
  let fields := ["levelname", "name", "message"]
  let between := fun (opening : String) =>
    ":".intercalate (fields.map fun field => opening ++ field ++ "\x7d")
  let entry := fun (mark name form : String) =>
    s!"'{mark}': (<class 'logging.{name}'>, '{form}')"
  "\x7b" ++ ", ".intercalate
    [entry "%" "PercentStyle" lineFormatText, entry "\x7b" "StrFormatStyle" (between "\x7b"),
      entry "$" "StringTemplateStyle" (between "$\x7b")] ++ "\x7d"

def message : LevelError → String
  | lineFormat => s!"Unknown level: '{lineFormatText}'"
  | styles => s!"Level not an integer or a valid string: {stylesText}"

end LevelError

/-- How the log is shown: the level, the number of outputs, and whether notes are passed on beyond
the library. -/
structure Logging where
  level : Nat := 0
  outputs : Nat := 0
  passesOn : Bool := true

namespace Logging

/-- The root of all channels. -/
def rootChannel : String := "framelint"

/-- A channel is the root itself or lies below it. -/
def channel (name : String) : String :=
  if rootChannel.toList.isPrefixOf name.toList then name else s!"{rootChannel}.{name}"

/-- The level that notes need if none is chosen. -/
def defaultLevel : Nat := Level.warning.number

/-- The first of two names that is given and not empty. -/
def chosenName (level fallback : Option String) : Option String :=
  (level.filter (!·.isEmpty)).orElse fun _ => fallback.filter (!·.isEmpty)

/-- The level that a name stands for in any case. Unknown names stand for warnings. -/
def levelOf (name : String) : Except LevelError Nat :=
  let word := String.ofList (name.toList.flatMap Text.upperAscii)
  match LevelError.words.lookup word with
  | some e => .error e
  | none => .ok ((levelNames.lookup word).getD defaultLevel)

/-- Choose a level by name, else by the environment. The output is attached only once. -/
def configure (level environment : Option String) : Except LevelError Logging := do
  let level ← (chosenName level environment).elim (.ok defaultLevel) levelOf
  return { level, outputs := 1, passesOn := false }

/-- Level zero leaves the decision to the default. -/
def threshold (l : Logging) : Nat := if l.level = 0 then defaultLevel else l.level

/-- The notes that are shown. -/
def shown (l : Logging) (log : Log) : Log := log.filter fun n => l.threshold ≤ n.level.number

end Logging

end HotPath
