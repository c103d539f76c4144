import HotPath.Json.Printer
import HotPath.Linter.Basic
import HotPath.Text.Markup

/-! What commands print: lines with markup, tables and JSON. How a table is laid out is left to the
terminal. -/

namespace HotPath

inductive Justify
  | left
  | center
  | right

def Justify.name : Justify → String
  | left => "left"
  | center => "center"
  | right => "right"

structure Column where
  header : String
  justify : Justify := .left
  style : String := ""
  noWrap : Bool := false

structure Table where
  title : String
  columns : List Column
  rows : List (List String)

/-- Something printed. -/
inductive Printed
  | line (s : String)
  | table (t : Table)

namespace Diagnostic

/-- A diagnostic as a JSON value. -/
def toValue (d : Diagnostic) : Value :=
  let text? := fun (s : Option String) => s.elim Value.null Value.text
  .record
    [("ruleId", .text d.ruleId), ("messageId", text? d.messageId), ("message", .text d.message),
      ("severity", .text d.severity.name), ("line", .int d.range.line),
      ("column", .int d.range.column),
      ("endLine", .int d.range.endLine), ("endColumn", .int d.range.endColumn),
      ("filePath", text? d.filePath)]

/-- A diagnostic as a row. Columns are counted from one there. -/
def row (d : Diagnostic) : List String :=
  let severity :=
    if d.severity = .error then "[bold red]error[/bold red]" else "[yellow]warning[/yellow]"
  [s!"{d.range.line}:{d.range.column + 1}", severity, d.ruleId, Text.escapeMarkup d.message]

end Diagnostic

namespace LintReport

def columns : List Column :=
  [{ header := "Line", justify := .right, style := "dim" }, { header := "Severity" },
    { header := "Rule", style := "magenta", noWrap := true }, { header := "Message" }]

/-- The diagnostics of one file. -/
def fileTable (file : String) (ds : List Diagnostic) : Table :=
  ⟨Text.escapeMarkup file, columns, ds.map Diagnostic.row⟩

/-- The last line of a report. -/
def summary (r : LintReport) : String :=
  let errors := r.errors.length
  let warnings := r.warnings.length
  if errors + warnings = 0 then
    s!"[bold green]✓ No problems found[/bold green] in {r.files.length} file(s)"
  else
    s!"\n[bold]{errors + warnings} problem(s)[/bold] ([red]{errors} error(s)[/red], " ++
      s!"[yellow]{warnings} warning(s)[/yellow]) in {r.files.length} file(s)"

/-- A report for people: a table for each file, the files that were skipped, and a summary. -/
def printed (r : LintReport) : List Printed :=
  r.byFile.entries.map (fun (file, ds) => .table (fileTable file ds)) ++
    r.failures.map (fun (file, reason) => .line
      (s!"[bold yellow]Skipped:[/bold yellow] {Text.escapeMarkup file} " ++
        s!"({Text.escapeMarkup reason})")) ++
    [.line r.summary]

/-- A report for programs. -/
def document (r : LintReport) : String :=
  Json.write ⟨false, some 2⟩ 0 (.list (r.diagnostics.map Diagnostic.toValue))

end LintReport

namespace Rule

/-- The options of a rule with their defaults, in the order of their names. -/
def optionDefaults (r : Rule) : List (String × Value) :=
  r.optionNames.filterMap fun name =>
    (OptionName.ofName? name).map fun n => (name, r.defaults.get n)

/-- A rule as a JSON value. -/
def toValue (r : Rule) : Value :=
  .record
    [("ruleId", .text r.qualifiedId), ("description", .text r.description),
      ("recommended", .bool r.isRecommended), ("docs", .text r.url),
      ("options", .record r.optionDefaults)]

/-- All rules for programs. -/
def document : String := Json.write ⟨true, some 2⟩ 0 (.list (sorted.map toValue))

def columns : List Column :=
  [{ header := "Rule", style := "magenta", noWrap := true },
    { header := "Recommended", justify := .center },
    { header := "Options (defaults)", style := "dim" },
    { header := "Description" }]

/-- A rule as a row, with a line for each option. -/
def row (r : Rule) : List String :=
  let lines := r.optionDefaults.map fun (name, v) => s!"{name}={Json.write ⟨true, none⟩ 0 v}"
  [r.id, if r.isRecommended then "yes" else "", Text.escapeMarkup ("\n".intercalate lines),
    r.description]

/-- All rules for people. -/
def table : Table := ⟨s!"{pluginName} rules", columns, sorted.map row⟩

end Rule

end HotPath
