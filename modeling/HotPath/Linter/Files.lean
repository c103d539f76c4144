import HotPath.Files.Folder
import HotPath.Linter.Basic

/-! Linting sources, files and whole folders. -/

namespace HotPath

/-- Why one source cannot be linted. -/
inductive LintError
  | unsupportedLanguage (name : String)
  | unsupportedSuffix (suffix : String)
  | unreadable (e : ReadError)
  /-- The source comes without a tree for its language. -/
  | unparsed (language : Language)
  | fault (f : Fault)

namespace LintError

def message : LintError → String
  | unsupportedLanguage name => s!"Unsupported language: {name}"
  | unsupportedSuffix suffix => s!"Unsupported file type: {suffix}"
  | unreadable e => e.message
  | unparsed language => s!"No syntax tree for {language.name}"
  | fault f => f.message

/-- Whether an error ends the whole run. Most are a matter of one file; a fault that leaves the
analysis is not, unless it is only about a bad value or a refused path. -/
def endsRun? : LintError → Option Fault
  | fault f => if f.cause = .badValue || f.cause = .refused then none else some f
  | _ => none

end LintError

/-- What linting one source gave: diagnostics or an error, the language that it was parsed as, if it
came to that, and the notes. -/
structure SourceOutcome where
  result : Except LintError (List Diagnostic)
  parsed : Option Language
  log : Log

namespace Linter

/-- The language to parse a source as: the one that is named, else the one of the file, else
JavaScript. -/
def languageFor (filePath language : Option String) : Except LintError Language :=
  match language with
  | some name =>
    if name.isEmpty then .ok .javascript
    else match Language.ofName? name with
      | some l => .ok l
      | none => .error (.unsupportedLanguage name)
  | none =>
    match filePath with
    | none => .ok .javascript
    | some path =>
      if path.isEmpty then .ok .javascript
      else .ok ((Language.ofPath? (Path.ofText path)).getD .javascript)

/-- Lint a source that is parsed as a given language. -/
def lintParsed (l : Linter) (source : Source) (filePath : Option String) (language : Language) :
    SourceOutcome :=
  match source.tree? language with
  | none => ⟨.error (.unparsed language), some language, []⟩
  | some tree =>
    let out := (l.lintTree (Cursor.root tree) filePath).run ()
    ⟨out.result.mapError .fault, some language, out.log⟩

/-- Lint a source. -/
def lintSource (l : Linter) (source : Source) (filePath language : Option String) : SourceOutcome :=
  match languageFor filePath language with
  | .error e => ⟨.error e, none, []⟩
  | .ok language => l.lintParsed source filePath language

/-- Lint a file. Its suffix has to be known before it is read. -/
def lintFile (l : Linter) (folder : Folder) (p : Path) : SourceOutcome :=
  match Language.ofPath? p with
  | none => ⟨.error (.unsupportedSuffix p.suffix), none, []⟩
  | some language =>
    match folder.read p with
    | .error e => ⟨.error (.unreadable e), none, []⟩
    | .ok source => l.lintParsed source (some p.text) language

/-- Folders that hold code of others or generated code. -/
def excludedFolders : List String :=
  ["node_modules", "dist", "build", "out", "coverage", ".git", ".next", ".turbo", ".cache",
    "vendor", "__pycache__"]

/-- Whether a file found below a folder is worth linting: its language is known, it does not only
declare types, and it lies in no excluded folder. -/
def isWanted (relative : List String) : Bool :=
  let p : Path := ⟨"", relative⟩
  (Language.ofPath? p).isSome && !(".d.ts".toList.isSuffixOf p.name.toList) &&
    !relative.dropLast.any excludedFolders.contains

/-- No file can be looked for at a path that is too long. -/
def stopAt (p : Path) : Task Unit (List Path) :=
  Task.stop ⟨.refused, (ReadError.tooLong p.text).message⟩

/-- The files that a path stands for. A file stands for itself, a folder for the wanted files below.
Everything below a folder is looked at, so all paths that lead there have to be short enough. -/
def filesAt (folder : Folder) (p : Path) : Task Unit (List Path) :=
  match folder.locate p with
  | .file _ => return [p]
  | .folder parts =>
    match ((folder.entriesBelow parts).map p.below).find? Folder.isTooLong with
    | some q => stopAt q
    | none => return ((folder.filesBelow parts).filter isWanted).map p.below
  | .tooLong => stopAt p
  | .missing | .belowFile => do
    Task.note (.pathMissing p.text)
    return []

/-- Drop repetitions. -/
def distinct (ps : List Path) : List Path :=
  ps.foldl (fun kept p => if kept.contains p then kept else kept ++ [p]) []

/-- The files that paths stand for, each once and in order. -/
def discover (folder : Folder) (ps : List Path) : Task Unit (List Path) := do
  let found ← Task.collect (filesAt folder) ps
  return (distinct found.flatten).mergeSort Path.precedes

/-- A run over several paths: the report or the fault that ended it, the languages parsed in order,
and the notes. -/
structure RunOutcome where
  result : Except Fault LintReport
  parsed : List Language
  log : Log

/-- Add what linting a file gave to a run. A file that cannot be linted is noted and passed over; a
fault that leaves the analysis ends the run. -/
def RunOutcome.add (run : RunOutcome) (report : LintReport) (p : Path) (out : SourceOutcome) :
    RunOutcome :=
  let parsed := run.parsed ++ out.parsed.toList
  let log := run.log ++ out.log
  let report := { report with files := report.files ++ [p.text] }
  match out.result with
  | .ok ds => ⟨.ok { report with diagnostics := report.diagnostics ++ ds }, parsed, log⟩
  | .error e =>
    match e.endsRun? with
    | some f => ⟨.error f, parsed, log⟩
    | none =>
      ⟨.ok { report with failures := report.failures ++ [(p.text, e.message)] }, parsed,
        log ++ [.fileSkipped p.text e.message]⟩

/-- Lint files one after the other until the run ends. -/
def lintEach (l : Linter) (folder : Folder) : List Path → RunOutcome → RunOutcome
  | [], run => run
  | p :: rest, run =>
    match run.result with
    | .error _ => run
    | .ok report => l.lintEach folder rest (run.add report p (l.lintFile folder p))

/-- Lint everything that the paths stand for. -/
def lintPaths (l : Linter) (folder : Folder) (ps : List Path) : RunOutcome :=
  let found := (discover folder ps).run ()
  match found.result with
  | .error f => ⟨.error f, [], found.log⟩
  | .ok files =>
    let run := l.lintEach folder files ⟨.ok ⟨[], [], []⟩, [], found.log⟩
    { run with result := run.result.map fun report =>
        { report with diagnostics := Diagnostic.sorted report.diagnostics } }

end Linter

end HotPath
