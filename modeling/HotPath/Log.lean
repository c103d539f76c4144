import HotPath.Syntax.Node

/-! The log. A note says what happened; its level, the part of the library that wrote it and its
wording are functions of the note. -/

namespace HotPath

/-- How much attention a note asks for. -/
inductive Level
  | debug
  | info
  | warning
  | error
  | critical
deriving DecidableEq

namespace Level

def name : Level → String
  | debug => "DEBUG"
  | info => "INFO"
  | warning => "WARNING"
  | error => "ERROR"
  | critical => "CRITICAL"

def number : Level → Nat
  | debug => 10
  | info => 20
  | warning => 30
  | error => 40
  | critical => 50

end Level

/-- The two moments at which a walk shows a node. -/
inductive Phase
  | enter
  | leave
deriving DecidableEq

def Phase.name : Phase → String
  | .enter => "enter"
  | .leave => "leave"

/-- A node that was skipped because of a fault. -/
structure Skipped where
  kind : String
  position : Position
  fault : Fault

def Skipped.text (s : Skipped) : String :=
  s!"{s.kind} at {s.position.text}: {s.fault.message}"

/-- Everything that is worth a line in the log. -/
inductive Note
  | handlerSkipped (phase : Phase) (skipped : Skipped)
  | scopesBuilt (scopes bindings : Nat)
  | detectionSkipped (skipped : Skipped)
  | callNotFollowed (name : String) (line : Int) (depth limit : Int)
  | functionHot (name : String) (depth : Int)
  | resolutionSkipped (skipped : Skipped)
  | propagated (roots functions nodes : Nat)
  | recursion (labels : List String)
  | hazardCheckSkipped (skipped : Skipped)
  | pathMissing (path : String)
  | fileSkipped (path reason : String)

namespace Note

/-- Paths that do not exist and files that cannot be linted are warnings; the rest helps with
debugging only. -/
def level : Note → Level
  | pathMissing .. | fileSkipped .. => .warning
  | _ => .debug

/-- Labels of a call chain, in the order of the calls. -/
def arrows (labels : List String) : String := " → ".intercalate labels

def text : Note → String
  | handlerSkipped phase skipped => s!"skipped {phase.name} handler for {skipped.text}"
  | scopesBuilt scopes bindings => s!"built {scopes} scopes, {bindings} bindings"
  | detectionSkipped skipped => s!"root detection skipped {skipped.text}"
  | callNotFollowed name line depth limit =>
    s!"not following {name}() at line {line}: depth {depth} exceeds {limit}"
  | functionHot name depth => s!"{name} is hot at depth {depth}"
  | resolutionSkipped skipped => s!"call resolution skipped {skipped.text}"
  | propagated roots functions nodes =>
    s!"{roots} roots, {functions} hot functions, {nodes} hot nodes"
  | recursion labels => s!"recursive call cycle: {arrows labels}"
  | hazardCheckSkipped skipped => s!"hazard check skipped {skipped.text}"
  | pathMissing path => s!"path does not exist: {path}"
  | fileSkipped path reason => s!"skipping {path}: {reason}"

/-- The channel on which a note appears. -/
def channel : Note → String
  | handlerSkipped .. => "framelint.analyzer.walker"
  | scopesBuilt .. => "framelint.analyzer.scope"
  | detectionSkipped .. => "framelint.analyzer.frame_loop"
  | callNotFollowed .. | functionHot .. | resolutionSkipped .. => "framelint.analyzer.call_graph"
  | propagated .. | recursion .. => "framelint.analyzer.engine"
  | hazardCheckSkipped .. => "framelint.analyzer.hazards"
  | pathMissing .. | fileSkipped .. => "framelint.linter"

end Note

/-- Notes in the order in which they were written. -/
abbrev Log := List Note

end HotPath
