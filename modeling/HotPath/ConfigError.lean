import HotPath.Hazard
import HotPath.NameSet
import HotPath.Rule.Basic
import HotPath.Value

/-! What is wrong with a configuration. Such an error stops a run before any file is read. -/

namespace HotPath

/-- The problems that a configuration can have. -/
inductive ConfigProblem
  | unknownPreset (preset : Value)
  | unknownRule
  | malformedEntry (entry : Value)
  | unknownSeverity (severity : Value)
  | optionsNotObject (typeName : String)
  | unknownOption (name : Value) (known : NameSet)
  | depthNotInteger (option : String) (value : Value)
  | depthNegative (option : String) (depth : Int)
  | namesNotList (option : String) (value : Value)
  | badName (option : String) (item : Value)
  | unsupportedLiterals (kinds : List RawText)
  | invalidDocument (path problem : String) (line : Nat)
  | documentNotObject (path : String)
  | unknownKey (path : String) (key : RawText)
  | extendsNotName (path : String)
  | rulesNotObject (path : String)

/-- Kinds of literals that can be disallowed, in order. -/
def supportedLiterals : List String :=
  (literalNames.map Prod.fst).mergeSort Rule.textPrecedes

namespace ConfigProblem

def commas (items : List String) : String := ", ".intercalate items

def message : ConfigProblem → RawText
  | unknownPreset preset =>
    s!"unknown preset {preset.shown} (available: {commas (Preset.every.map Preset.name)})"
  | unknownRule => s!"unknown rule (available: {commas Rule.sortedIds})"
  | malformedEntry entry => s!"expected [severity] or [severity, options], got {entry.shown}"
  | unknownSeverity severity => s!"unknown severity {severity.shown} (use off, warn or error)"
  | optionsNotObject typeName => s!"options must be an object, got {typeName}"
  | unknownOption name known =>
    s!"unknown option {name.shown} (expected one of: " ++ RawText.commas known.names ++ ")"
  | depthNotInteger option value => s!"{option} must be an integer, got {value.shown}"
  | depthNegative option depth => s!"{option} must be >= 0, got {depth}"
  | namesNotList option value => s!"{option} must be a list of names, got {value.shown}"
  | badName option item => s!"{option} entries must be non-empty strings, got {item.shown}"
  | unsupportedLiterals kinds =>
    "disallowedLiterals: unsupported kind(s) " ++ RawText.commas kinds ++
      s!" (supported: {commas supportedLiterals})"
  | invalidDocument path problem line => s!"{path}: invalid JSON ({problem} at line {line})"
  | documentNotObject path => s!"{path}: configuration must be a JSON object"
  | unknownKey path key => s!"{path}: unknown key {key.quoted}"
  | extendsNotName path => s!"{path}: \"extends\" must be a preset name"
  | rulesNotObject path => s!"{path}: \"rules\" must be an object"

end ConfigProblem

/-- A problem, with the rule that it belongs to as it was written. -/
structure ConfigError where
  rule : Option RawText
  problem : ConfigProblem

/-- The message of an error begins with the rule that it belongs to. -/
def ConfigError.message (e : ConfigError) : RawText :=
  match e.rule with
  | none => e.problem.message
  | some rule => if rule.isEmpty then e.problem.message else rule ++ ": " ++ e.problem.message

end HotPath
