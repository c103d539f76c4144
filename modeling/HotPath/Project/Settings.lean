import HotPath.ConfigError
import HotPath.Files.Folder
import HotPath.Project.EnvFile
import HotPath.Text.Integer
import HotPath.Text.Utf8

/-! Settings from the environment. Variables come from the environment itself and from a file in the
working folder; those that are set already win. -/

namespace HotPath

/-- Lines of a text file may end in several ways; all are read as line feeds. -/
def normalizeNewlines : List Char → List Char
  | [] => []
  | '\r' :: '\n' :: rest => '\n' :: normalizeNewlines rest
  | '\r' :: rest => '\n' :: normalizeNewlines rest
  | c :: rest => c :: normalizeNewlines rest

/-- The text of a file, none if it is not UTF-8. -/
def Source.text? (s : Source) : Option String :=
  (Text.Utf8.decode? s.bytes).map fun t => String.ofList (normalizeNewlines t.toList)

/-- Variables by name. -/
abbrev Variables := OrderedMap String String

/-- Why variables cannot be set. -/
inductive VariableError
  /-- The file is not UTF-8. -/
  | undecodable
  | illegalName
  | nullCharacter
deriving DecidableEq

def VariableError.message : VariableError → String
  | undecodable => "not UTF-8"
  | illegalName => "illegal environment variable name"
  | nullCharacter => "embedded null byte"

namespace Variables

/-- The file that is read unless another one is named. -/
def defaultFile : Path := ⟨"", [".env"]⟩

/-- Set a variable unless it is set. -/
def setNew (vars : Variables) (p : String × String) : Except VariableError Variables :=
  if vars.contains p.1 then .ok vars
  else if p.1.toList.contains '\x00' || p.2.toList.contains '\x00' then .error .nullCharacter
  else if p.1.toList.contains '=' then .error .illegalName
  else .ok (vars.insert p.1 p.2)

/-- Set variables that are not set. -/
def setAll (vars more : Variables) : Except VariableError Variables :=
  more.entries.foldlM setNew vars

/-- Add the variables of a file. A file that does not exist adds none. -/
def load (vars : Variables) (folder : Folder) (file : Path) : Except VariableError Variables :=
  match folder.locate file with
  | .file source =>
    match source.text? with
    | none => .error .undecodable
    | some text => vars.setAll (EnvFile.read vars text)
  | _ => .ok vars

end Variables

/-- What the environment says. -/
structure Settings where
  vars : Variables

namespace Settings

def configVariable : String := "FRAMELINT_CONFIG"

def presetVariable : String := "FRAMELINT_PRESET"

def depthVariable : String := "FRAMELINT_MAX_CALL_DEPTH"

def logLevelVariable : String := "FRAMELINT_LOG_LEVEL"

/-- All variables that are looked at. -/
def variableNames : List String := [configVariable, presetVariable, depthVariable, logLevelVariable]

/-- The project's configuration file. -/
def configFile (s : Settings) : Path :=
  Path.ofText ((s.vars.get? configVariable).getD ".framelintrc.json")

/-- The preset to start from unless the project names another one. -/
def preset (s : Settings) : String := (s.vars.get? presetVariable).getD Preset.standard.name

/-- The name of the level that notes need to be shown. -/
def logLevel (s : Settings) : String := (s.vars.get? logLevelVariable).getD "WARNING"

/-- The depth for rules that leave it open. -/
def maxCallDepth (s : Settings) : Except ConfigError Int :=
  match s.vars.get? depthVariable with
  | none => .ok 5
  | some raw =>
    if Text.isAllBlank raw then .ok 5
    else match Text.integer? raw with
      | none => .error ⟨none, .depthNotInteger depthVariable (.text raw)⟩
      | some depth =>
        if depth < 0 then .error ⟨none, .depthNegative depthVariable depth⟩ else .ok depth

end Settings

end HotPath
