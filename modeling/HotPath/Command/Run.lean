import HotPath.Command.Report
import HotPath.Command.Setup

/-! Running a command on the working folder. -/

namespace HotPath

/-- What a command reads: the folder that it runs in and the variables that are set. -/
structure Surroundings where
  folder : Folder
  vars : Variables

/-- The settings, from the variables that are set and from those of the file. -/
def Surroundings.settings (s : Surroundings) : Except VariableError Settings :=
  (s.vars.load s.folder Variables.defaultFile).map .mk

/-- What a command leaves: its exit code, what it wrote to the output and printed for people, the
error that ended it, if it is none that commands explain, and the notes that are shown. -/
structure CommandOutcome where
  exitCode : Nat := 0
  output : String := ""
  printed : List Printed := []
  error : Option CommandError := none
  log : Log := []

namespace CommandOutcome

def usage : CommandOutcome := { exitCode := 2 }

/-- An error in the configuration is explained; others are passed on as they are. -/
def failed : CommandError → CommandOutcome
  | .setup (.config e) =>
    { exitCode := 2
      printed := [.line ("[bold red]Configuration error:[/bold red] " ++
        Text.escapeMarkup e.message.repaired)] }
  | e => { exitCode := 1, error := some e }

/-- The outcome for a report. Errors among the diagnostics make the command fail. -/
def reported (format : Format) (report : LintReport) : CommandOutcome :=
  let exitCode := if report.hasErrors then 1 else 0
  match format with
  | .json => { exitCode, output := report.document ++ "\n" }
  | .table => { exitCode, printed := report.printed }

end CommandOutcome

def versionNumber : String := "0.3.0"

namespace LintRequest

/-- How the log is shown. The settings are asked for a level unless everything is to be shown. -/
def logging (r : LintRequest) (loaded : Except VariableError Settings) :
    Except CommandError Logging := do
  if r.verbose then
    (Logging.configure (some Level.debug.name) none).mapError .logLevel
  else
    let settings ← loaded.mapError .environment
    (Logging.configure (some settings.logLevel)
      (settings.vars.get? Settings.logLevelVariable)).mapError .logLevel

/-- Lint as requested. -/
def run (r : LintRequest) (s : Surroundings) : CommandOutcome :=
  match r.logging s.settings with
  | .error e => .failed e
  | .ok logging =>
    match r.build s.folder s.settings with
    | .error e => .failed e
    | .ok linter =>
      let out := linter.lintPaths s.folder r.paths
      let log := logging.shown out.log
      match out.result with
      | .error f => { CommandOutcome.failed (.fault f) with log }
      | .ok report => { CommandOutcome.reported r.format report with log }

end LintRequest

namespace Request

def run (s : Surroundings) : Request → CommandOutcome
  | version => { printed := [.line s!"{Rule.pluginName} {versionNumber}"] }
  | help => {}
  | lint r => r.run s
  | rules .json => { output := Rule.document ++ "\n" }
  | rules .table => { printed := [.table Rule.table] }

end Request

/-- Run a command line. -/
def runCommand (args : List String) (s : Surroundings) : CommandOutcome :=
  match Request.ofArguments args with
  | .error _ => .usage
  | .ok request => request.run s

end HotPath
