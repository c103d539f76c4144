import HotPath.Command.Run
import HotPath.Terminal

/-! Printed items as plain lines. -/

namespace HotPath

/-- A cell on one line, without markup. -/
def Table.cell (s : String) : String :=
  Text.showMarkup (String.ofList (s.toList.map fun c => if c = '\n' then ' ' else c))

/-- Cells side by side. -/
def Table.rowText (cells : List String) : String := "  ".intercalate (cells.map Table.cell)

/-- The lines of a printed item. -/
def Printed.lines : Printed → List String
  | line s => [Text.showMarkup s]
  | table t =>
    Table.cell t.title :: Table.rowText (t.columns.map (·.header)) :: t.rows.map Table.rowText

/-- What reaches a terminal. Lines are sanitized; a table is handed on as it is. -/
def Terminal.receive (t : Terminal) : Printed → Printed
  | .line s => .line (t.sanitize s)
  | .table content => .table content

/-- A line of the log. -/
def Note.line (n : Note) : String := s!"{n.level.name} {n.channel}: {n.text}"

namespace CommandError

/-- What went wrong, for people. -/
def message : CommandError → String
  | setup (.config e) => e.message.repaired
  | setup (.shape e) => e.message
  | setup (.undocumented name) => Text.quoted name
  | environment e => e.message
  | logLevel e => e.message
  | undecodable => "a file is not UTF-8"
  | unreadable e => e.message
  | limit p => p.message
  | fault f => f.message

end CommandError

end HotPath
