import HotPath.Command.Arguments
import HotPath.Linter.Files
import HotPath.Logging
import HotPath.Project.ConfigFile

/-! Setting up a linter for a request. Names from the command line take the place of those in the
project's configuration. A depth from the command line takes the place of the environment's, which
counts where the configuration leaves the depth open. -/

namespace HotPath

/-- Why a command ends without a report. -/
inductive CommandError
  | setup (e : SetupError)
  | environment (e : VariableError)
  | logLevel (e : LevelError)
  /-- A file that has to be UTF-8 is not. -/
  | undecodable
  | unreadable (e : ReadError)
  /-- A document goes beyond a limit of its reader. -/
  | limit (p : Json.Problem)
  | fault (f : Fault)

def CommandError.ofFile : ConfigFileError → CommandError
  | .config e => .setup (.config e)
  | .undecodable => .undecodable
  | .unreadable e => .unreadable e
  | .limit p => .limit p

/-- Members with keys of any type. Keys that are the same key replace each other. -/
abbrev PairTable := List (Value × Value)

namespace PairTable

/-- Set a member; its first place and key are kept. -/
def put (key v : Value) : PairTable → PairTable
  | [] => [(key, v)]
  | (k, old) :: rest => if k.sameKey key then (k, v) :: rest else (k, old) :: put key v rest

/-- The items that a value consists of. -/
def itemsOf? : Value → Option (List Value)
  | .list items => some items
  | .str t => some (t.units.map .str)
  | .object members => some (members.map fun m => .str m.1)
  | _ => none

/-- Add the pair that an item consists of. -/
def addItem (t : PairTable) (item : Value × Nat) : Except ShapeError PairTable :=
  match itemsOf? item.1 with
  | none => .error (.notPair item.2)
  | some [key, v] => if key.isKey then .ok (put key v t) else .error (.notKey key.typeName)
  | some items => .error (.pairLength item.2 items.length)

/-- The members of a value: an object's own, or those that the items of a value give in pairs.
Values that do not count as given have none. -/
def ofValue (v : Value) : Except ShapeError PairTable :=
  if !v.isTruthy then .ok []
  else match v with
    | .object members => .ok (members.map fun m => (.str m.1, m.2))
    | _ =>
      match itemsOf? v with
      | none => .error (.notIterable v.typeName)
      | some items => items.zipIdx.foldlM addItem []

def ofRaw : RawOptions → Except ShapeError PairTable
  | .value v => ofValue v
  | .members ms => .ok ms

end PairTable

namespace LintRequest

/-- The entries of the project by the plain names of the rules. -/
def projectEntries (project : List (RawText × Value)) : OrderedMap RawText Entry :=
  match project.lookup (.plain "rules") with
  | some (.object members) =>
    .ofList (members.map fun m => (Rule.plainId m.1, .written m.2))
  | _ => {}

/-- The entries before the command line changes them: the preset's, and the project's over them. -/
def baseEntries (preset : Preset) (project : List (RawText × Value)) : OrderedMap RawText Entry :=
  preset.entries.update (projectEntries project)

/-- The preset to start from. -/
def choosePreset (r : LintRequest) (project : List (RawText × Value)) (settings : Settings) :
    Except SetupError Preset :=
  match r.preset with
  | some p => .ok p
  | none =>
    let name : RawText := match project.lookup (.plain "extends") with
      | some (.str t) => if t.isEmpty then .plain settings.preset else t
      | _ => .plain settings.preset
    Preset.ofValue (.str name.lower)

/-- Options that count as given, or none. -/
def givenOptions : RawOptions → RawOptions
  | .value v => if v.isTruthy then .value v else .members []
  | .members ms => .members ms

/-- Only the named rules, each as an error with the options that are configured for it. -/
def selectRules (r : LintRequest) (entries : OrderedMap RawText Entry) :
    Except SetupError (OrderedMap RawText Entry) :=
  if r.rules.isEmpty then .ok entries
  else
    r.rules.foldlM (fun selected (name : String) =>
      let id := Rule.plainId name
      match Rule.ofPlainId? id with
      | none => .error (.config ⟨some name, .unknownRule⟩)
      | some _ =>
        match ((entries.get? id).getD (.written (.text "error"))).read id with
        | .error e => .error (.config e)
        | .ok setting =>
          .ok (selected.insert id (.settled .error (givenOptions setting.options)))) {}

/-- Set an option to names from the command line, if there are any and the rule recognizes it. -/
def override (rule : Rule) (option : OptionName) (names : List String) (t : PairTable) :
    PairTable :=
  if names.isEmpty || !rule.options.contains option then t
  else t.put (.text option.name) (.list (names.map .text))

/-- One entry with the names from the command line. Rules that are off or unknown stay as they are.
-/
def overrideEntry (r : LintRequest) (id : RawText) (entry : Entry) : Except SetupError Entry :=
  match entry.read id with
  | .error e => .error (.config e)
  | .ok ⟨none, _⟩ => .ok entry
  | .ok ⟨some severity, options⟩ =>
    match Rule.ofPlainId? id with
    | none => .ok entry
    | some rule =>
      match PairTable.ofRaw options with
      | .error e => .error (.shape e)
      | .ok t =>
        .ok (.settled severity (.members
          (override rule .bannedOperations r.banned (override rule .frameLoopApis r.frameApis t))))

/-- All entries with the names from the command line. -/
def overrideNames (r : LintRequest) (entries : OrderedMap RawText Entry) :
    Except SetupError (OrderedMap RawText Entry) :=
  if r.frameApis.isEmpty && r.banned.isEmpty then .ok entries
  else do
    let changed ← entries.entries.mapM fun (id, entry) => do
      return (id, ← r.overrideEntry id entry)
    return ⟨changed⟩

/-- The linter for a configuration that has been read. -/
def setUp (r : LintRequest) (project : List (RawText × Value)) (settings : Settings) :
    Except SetupError Linter := do
  let depth ← match r.maxCallDepth with
    | some depth => pure depth
    | none => settings.maxCallDepth.mapError .config
  let preset ← r.choosePreset project settings
  let selected ← r.selectRules (baseEntries preset project)
  Linter.ofEntries (← r.overrideNames selected) (some depth)

/-- The linter for a request. -/
def linter (r : LintRequest) (folder : Folder) (settings : Settings) : Except CommandError Linter :=
  match ConfigFile.load folder (r.config.getD settings.configFile) with
  | .error e => .error (.ofFile e)
  | .ok project => (r.setUp project settings).mapError .setup

/-- The linter for a request where the settings have to be loaded first, which may have failed. -/
def build (r : LintRequest) (folder : Folder) (loaded : Except VariableError Settings) :
    Except CommandError Linter := do
  r.linter folder (← loaded.mapError .environment)

end LintRequest

end HotPath
