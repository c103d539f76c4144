import HotPath.Linter.Entry
import HotPath.Rule.Listener

/-! A linter: rules with checked options, run together over a tree. What it runs is configured by a
preset and by the entries of a project over it. -/

namespace HotPath

namespace Preset

/-- The rules of a preset with their written severities: every rule as an error, or the recommended
rules as warnings. -/
def rules : Preset → List (Rule × String)
  | all => Rule.all.map (·, "error")
  | recommended => (Rule.all.filter (·.isRecommended)).map (·, "warn")

/-- The entries of a preset by the plain names of the rules. -/
def entries (p : Preset) : OrderedMap RawText Entry :=
  .ofList (p.rules.map fun (r, severity) => (r.id, .written (.text severity)))

/-- The preset that a value names. -/
def ofValue (v : Value) : Except SetupError Preset :=
  match v with
  | .text s =>
    match ofName? s with
    | some p => .ok p
    | none => .error (.config ⟨none, .unknownPreset v⟩)
  | _ =>
    if v.isKey then .error (.config ⟨none, .unknownPreset v⟩)
    else .error (.shape (.notKey v.typeName))

end Preset

/-- A rule that is switched on. -/
structure RuleEntry where
  rule : Rule
  options : RuleOptions
  severity : Severity

/-- The rules that are run, in order. -/
structure Linter where
  entries : List RuleEntry

namespace Linter

/-- Set up one rule. A rule that is off needs no valid options. The depth is a default for rules
whose options leave it open. -/
def setUp (depth : Option Int) (name : RawText) (entry : Entry) :
    Except SetupError (Option RuleEntry) :=
  match Rule.ofName? name with
  | none => .error (.config ⟨some name, .unknownRule⟩)
  | some rule =>
    match entry.read name with
    | .error e => .error (.config e)
    | .ok ⟨none, _⟩ => .ok none
    | .ok ⟨some severity, raw⟩ =>
      let defaults := match depth with
        | none => rule.defaults
        | some d => { rule.defaults with maxCallDepth := d }
      match RuleOptions.ofRaw (some rule.id) rule.optionNames defaults raw with
      | .error e => .error (.ofOption e)
      | .ok options => .ok (some ⟨rule, options, severity⟩)

/-- A linter for entries by rule name. -/
def ofEntries (entries : OrderedMap RawText Entry) (depth : Option Int) :
    Except SetupError Linter := do
  let built ← entries.entries.mapM fun (name, entry) => setUp depth name entry
  return ⟨built.filterMap id⟩

/-- Lay the entries of a configuration over others. -/
def overlay (entries : OrderedMap RawText Entry) (members : List (RawText × Value)) :
    OrderedMap RawText Entry :=
  members.foldl (fun m (name, v) => m.insert (Rule.plainId name) (.written v)) entries

/-- The members of a value that should be an object. Values that do not count as given have none. -/
def membersOf (v : Value) (access : String) : Except SetupError (List (RawText × Value)) :=
  if !v.isTruthy then .ok []
  else match v with
    | .object members => .ok members
    | _ => .error (.shape (.noMember v.typeName access))

/-- A linter for a project's configuration on top of a preset. The configuration may name another
preset, and its entries take the place of the preset's. -/
def ofConfig (config preset : Value) (depth : Option Int) : Except SetupError Linter := do
  let members ← membersOf config "get"
  let base ← Preset.ofValue ((members.lookup (.plain "extends")).getD preset)
  let rules ← membersOf ((members.lookup (.plain "rules")).getD .null) "items"
  ofEntries (overlay base.entries rules) depth

def ruleIds (l : Linter) : List String := l.entries.map (·.rule.id)

/-- What each rule has reported, in the order of the rules. -/
abbrev Reported := List (List Diagnostic)

/-- Show a node to every rule in turn. A fault that leaves a rule keeps the later ones from being
shown the node. -/
def listen (l : Linter) (filePath : Option String) (c : Cursor) : Task Reported Unit :=
  Task.each (fun (entry, i) =>
    (entry.rule.listen entry.options ⟨entry.severity, filePath⟩ c).focus
      (fun reported => reported.getD i []) (fun ds reported => reported.set i ds))
    l.entries.zipIdx

/-- Programs are what rules listen to. -/
def handlers (l : Linter) (filePath : Option String) : Handlers Reported where
  enter := fun kind => if kind = "program" then some (l.listen filePath) else none

/-- Run the rules over a tree. -/
def lintTree (l : Linter) (root : Cursor) (filePath : Option String) :
    Task Unit (List Diagnostic) := do
  let ((), reported) ← Task.withState (l.entries.map fun _ => [])
    ((l.handlers filePath).walk root)
  return Diagnostic.sorted reported.flatten

end Linter

/-- The outcome of a run over files. -/
structure LintReport where
  diagnostics : List Diagnostic
  files : List String
  /-- Files that could not be linted, with the reason. -/
  failures : List (String × String)

namespace LintReport

def errors (r : LintReport) : List Diagnostic := r.diagnostics.filter (·.severity = .error)

def warnings (r : LintReport) : List Diagnostic := r.diagnostics.filter (·.severity = .warning)

def hasErrors (r : LintReport) : Bool := r.diagnostics.any (·.severity = .error)

/-- The file that a diagnostic is listed under. -/
def fileOf (d : Diagnostic) : String :=
  match d.filePath with
  | none => "<input>"
  | some path => if path.isEmpty then "<input>" else path

/-- Diagnostics by file, files in the order of their first diagnostic. -/
def byFile (r : LintReport) : OrderedMap String (List Diagnostic) :=
  r.diagnostics.foldl (fun m d =>
    m.insert (fileOf d) ((m.get? (fileOf d)).getD [] ++ [d])) {}

end LintReport

end HotPath
