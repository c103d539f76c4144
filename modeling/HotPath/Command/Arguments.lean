import HotPath.Files.Path
import HotPath.Rule.Basic
import HotPath.Text.Case
import HotPath.Text.Integer

/-! Command lines. Switches have a long name and some a short one; a value follows its switch, after
an equals sign or at once for short names, or as the next argument. -/

namespace HotPath

/-- Everything that can be switched on a command line. -/
inductive Switch
  | version
  | help
  | preset
  | config
  | rule
  | maxCallDepth
  | frameApi
  | banned
  | format
  | verbose
deriving DecidableEq

namespace Switch

def long : Switch → String
  | version => "--version"
  | help => "--help"
  | preset => "--preset"
  | config => "--config"
  | rule => "--rule"
  | maxCallDepth => "--max-call-depth"
  | frameApi => "--frame-api"
  | banned => "--banned"
  | format => "--format"
  | verbose => "--verbose"

def short? : Switch → Option Char
  | preset => some 'p'
  | config => some 'c'
  | rule => some 'r'
  | format => some 'f'
  | verbose => some 'v'
  | _ => none

def takesValue : Switch → Bool
  | version | help | verbose => false
  | _ => true

end Switch

/-- Why a command line is refused. -/
inductive UsageError
  | unknownSwitch (argument : String)
  | missingValue (s : Switch)
  | unexpectedValue (s : Switch)
  | invalidValue (s : Switch) (value : String)
  | missingCommand
  | unknownCommand (name : String)
  | missingPaths
  | unexpectedArgument (argument : String)

def UsageError.message : UsageError → String
  | unknownSwitch argument => s!"no such option: {argument}"
  | missingValue s => s!"{s.long} needs a value"
  | unexpectedValue s => s!"{s.long} takes no value"
  | invalidValue s value => s!"invalid value for {s.long}: {value}"
  | missingCommand => "missing command"
  | unknownCommand name => s!"no such command: {name}"
  | missingPaths => "missing paths"
  | unexpectedArgument argument => s!"unexpected argument: {argument}"

/-- A command line taken apart: switches with their values in order, and the other arguments. -/
structure Arguments where
  switches : List (Switch × String)
  positional : List String

namespace Arguments

/-- Switches read from one argument, and the one that still needs a value. -/
structure Read where
  given : List (Switch × String)
  pending : Option Switch

/-- A switch by its long name, with the value after the equals sign. -/
def readLong (accepted : List Switch) (arg : List Char) : Except UsageError Read :=
  let name := arg.takeWhile (· ≠ '=')
  let value := arg.dropWhile (· ≠ '=')
  match accepted.find? fun s => s.long.toList = name with
  | none => .error (.unknownSwitch (String.ofList arg))
  | some s =>
    match s.takesValue, value with
    | true, [] => .ok ⟨[], some s⟩
    | true, _ :: value => .ok ⟨[(s, String.ofList value)], none⟩
    | false, [] => .ok ⟨[(s, "")], none⟩
    | false, _ :: _ => .error (.unexpectedValue s)

/-- Switches by their short names. The first one that takes a value takes the rest. -/
def readShort (accepted : List Switch) : List Char → Except UsageError Read
  | [] => .ok ⟨[], none⟩
  | c :: rest =>
    match accepted.find? fun s => s.short? = some c with
    | none => .error (.unknownSwitch (String.ofList ['-', c]))
    | some s =>
      if s.takesValue then
        if rest.isEmpty then .ok ⟨[], some s⟩ else .ok ⟨[(s, String.ofList rest)], none⟩
      else do
        let later ← readShort accepted rest
        return ⟨(s, "") :: later.given, later.pending⟩

/-- Read an argument that starts with a dash and goes on. -/
def readSwitch (accepted : List Switch) (arg : String) : Except UsageError Read :=
  match arg.toList with
  | '-' :: '-' :: _ => readLong accepted arg.toList
  | cs => readShort accepted (cs.drop 1)

/-- A single dash is no switch. -/
def isSwitch (arg : String) : Bool :=
  match arg.toList with
  | '-' :: _ :: _ => true
  | _ => false

/-- Take a command line apart. Two dashes end the switches; if the arguments may not be mixed, so
does the first one that is no switch. -/
def parse (accepted : List Switch) (mixed : Bool) :
    Option Switch → List String → Except UsageError Arguments
  | some s, [] => .error (.missingValue s)
  | some s, value :: rest => do
    let later ← parse accepted mixed none rest
    return { later with switches := (s, value) :: later.switches }
  | none, [] => .ok ⟨[], []⟩
  | none, arg :: rest =>
    if arg = "--" then .ok ⟨[], rest⟩
    else if isSwitch arg then do
      let read ← readSwitch accepted arg
      let later ← parse accepted mixed read.pending rest
      return { later with switches := read.given ++ later.switches }
    else if mixed then do
      let later ← parse accepted mixed none rest
      return { later with positional := arg :: later.positional }
    else .ok ⟨[], arg :: rest⟩

def has (a : Arguments) (s : Switch) : Bool := a.switches.any (·.1 = s)

/-- All values of a switch. -/
def values (a : Arguments) (s : Switch) : List String :=
  (a.switches.filter (·.1 = s)).map Prod.snd

/-- The last value of a switch counts. -/
def last? (a : Arguments) (s : Switch) : Option String := (a.values s).getLast?

/-- A choice by its name in any case. -/
def choice {α : Type} (a : Arguments) (s : Switch) (choices : List (String × α)) :
    Except UsageError (Option α) :=
  let fold := fun (text : String) => text.toList.map Text.foldAscii
  match a.last? s with
  | none => .ok none
  | some value =>
    match choices.find? fun c => fold c.1 = fold value with
    | some c => .ok (some c.2)
    | none => .error (.invalidValue s value)

/-- An integer that is not negative. -/
def natural (a : Arguments) (s : Switch) : Except UsageError (Option Int) :=
  match a.last? s with
  | none => .ok none
  | some value =>
    match Text.integer? value with
    | none => .error (.invalidValue s value)
    | some i => if i < 0 then .error (.invalidValue s value) else .ok (some i)

end Arguments

/-- How results are printed. -/
inductive Format
  | table
  | json
deriving DecidableEq

/-- A request to lint. -/
structure LintRequest where
  paths : List Path
  preset : Option Preset := none
  config : Option Path := none
  rules : List String := []
  maxCallDepth : Option Int := none
  frameApis : List String := []
  banned : List String := []
  format : Format := .table
  verbose : Bool := false

/-- What a command line asks for. -/
inductive Request
  | version
  | help
  | lint (r : LintRequest)
  | rules (format : Format)

namespace Request

def formats : List (String × Format) := [("table", .table), ("json", .json)]

def presets : List (String × Preset) := Preset.every.map fun p => (p.name, p)

def lintSwitches : List Switch :=
  [.preset, .config, .rule, .maxCallDepth, .frameApi, .banned, .format, .verbose, .help]

/-- The request behind the arguments of the command that lints. -/
def ofLint (args : List String) : Except UsageError Request := do
  let a ← Arguments.parse lintSwitches true none args
  if a.has .help then return .help
  if a.positional.isEmpty then throw .missingPaths
  return .lint
    { paths := a.positional.map Path.ofText
      preset := ← a.choice .preset presets
      config := (a.last? .config).map Path.ofText
      rules := a.values .rule
      maxCallDepth := ← a.natural .maxCallDepth
      frameApis := a.values .frameApi
      banned := a.values .banned
      format := (← a.choice .format formats).getD .table
      verbose := a.has .verbose }

/-- The request behind the arguments of the command that lists the rules. -/
def ofRules (args : List String) : Except UsageError Request := do
  let a ← Arguments.parse [.format, .help] true none args
  if a.has .help then return .help
  match a.positional with
  | [] => return .rules ((← a.choice .format formats).getD .table)
  | extra :: _ => throw (.unexpectedArgument extra)

/-- The request behind a command line. Switches in front of the command are answered before it is
looked at, the first one of them. -/
def ofArguments (args : List String) : Except UsageError Request := do
  let a ← Arguments.parse [.version, .help] false none args
  match a.switches with
  | (.version, _) :: _ => return .version
  | _ :: _ => return .help
  | [] =>
    match a.positional with
    | [] => throw .missingCommand
    | "lint" :: rest => ofLint rest
    | "rules" :: rest => ofRules rest
    | name :: _ => throw (.unknownCommand name)

end Request

end HotPath
