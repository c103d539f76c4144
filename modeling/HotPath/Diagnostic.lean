import HotPath.Hazard
import HotPath.Template

/-! Diagnostics: hazards as they are reported. -/

namespace HotPath

/-- How severe a diagnostic is. Rules are errors or warnings; whoever runs a rule by itself may call
its severity anything. -/
inductive Severity
  | error
  | warning
  | other (name : String)
deriving DecidableEq

namespace Severity

def name : Severity → String
  | error => "error"
  | warning => "warning"
  | other name => name

def ofName (name : String) : Severity :=
  ([error, warning].find? (·.name = name)).getD (other name)

end Severity

/-- The hazard behind a diagnostic. -/
structure Finding where
  operation : String
  depth : Int
  chain : List String
deriving DecidableEq

/-- One line of a report. -/
structure Diagnostic where
  ruleId : String
  message : String
  range : SourceRange
  severity : Severity
  messageId : Option String
  filePath : Option String
  finding : Option Finding
deriving DecidableEq

namespace Diagnostic

/-- Diagnostics are ordered by file, line, column, rule and message. -/
def order (a b : Diagnostic) : Ordering :=
  (compare (a.filePath.getD "") (b.filePath.getD "")).then <|
  (compare a.range.line b.range.line).then <|
  (compare a.range.column b.range.column).then <|
  (compare a.ruleId b.ruleId).then (compare a.message b.message)

def precedes (a b : Diagnostic) : Bool := (order a b).isLE

/-- Diagnostics in order. Those that compare equal stay as they are. -/
def sorted (ds : List Diagnostic) : List Diagnostic := ds.mergeSort precedes

end Diagnostic

/-- Where a hazard runs: the loop itself, or so many local calls below it. -/
def Hazard.context (h : Hazard) (loop : String) : String :=
  if h.depth = 0 then loop
  else
    let hops := if h.depth = 1 then "call" else "calls"
    if h.chain.isEmpty then s!"{loop} ({h.depth} local {hops} deep)"
    else s!"{loop} (via {Note.arrows h.chain}, {h.depth} local {hops} deep)"

/-- How the hazards of one rule are worded. -/
structure Reporter where
  ruleId : String
  messageId : String
  template : Template
  /-- What the loop is called. -/
  loop : String := "the frame loop"

/-- Where a report goes: the severity of the rule and the file. -/
structure ReportContext where
  severity : Severity
  filePath : Option String

/-- A diagnostic with a given message. -/
def Hazard.diagnostic (h : Hazard) (ruleId messageId message : String) (ctx : ReportContext) :
    Diagnostic :=
  { ruleId, message, range := h.node.range, severity := ctx.severity, messageId := some messageId
    filePath := ctx.filePath, finding := some ⟨h.operation, h.depth, h.chain⟩ }

/-- The diagnostic for a hazard. -/
def Reporter.diagnostic (r : Reporter) (ctx : ReportContext) (h : Hazard) : Diagnostic :=
  h.diagnostic r.ruleId r.messageId (r.template.fill h.operation (h.context r.loop)) ctx

end HotPath
