import HotPath.Heat.Propagate

/-! Hazards: operations on hot nodes that are better done elsewhere. -/

namespace HotPath

/-- Why a node is a hazard. -/
inductive HazardKind
  | call
  | literal
  | state
deriving DecidableEq

def HazardKind.name : HazardKind → String
  | call => "call"
  | literal => "literal"
  | state => "state"

/-- A hazard on a hot path. -/
structure Hazard where
  node : Cursor
  operation : String
  kind : HazardKind
  depth : Int
  region : Key
  /-- Labels of a shortest chain of calls from a root to the region. -/
  chain : List String

def Hazard.line (h : Hazard) : Int := h.node.line

/-- Literals that can be disallowed, with their names in messages. -/
def literalNames : List (String × String) :=
  [("new_expression", "new"), ("object", "object literal"), ("array", "array literal")]

/-- What a literal is called: an instantiation by its class, others by a general name. -/
def Cursor.literalLabel (c : Cursor) : Except Fault String := do
  if c.kind = "new_expression" then
    let name ← c.fieldText "constructor"
    return if name.isEmpty then "new" else s!"new {name}"
  return (literalNames.lookup c.kind).getD c.kind

/-- The operations that a rule looks for. -/
structure Matcher where
  banned : List String
  literals : List String

namespace Matcher

/-- The banned call or disallowed literal that a node is, with its name. -/
def classify (m : Matcher) (c : Cursor) : Except Fault (Option (HazardKind × String)) := do
  let bannedCall ←
    if c.isCall && !m.banned.isEmpty then do
      pure ((← c.calleeName).filter m.banned.contains)
    else pure none
  match bannedCall with
  | some name => return some (.call, name)
  | none =>
    if m.literals.contains c.kind then return some (.literal, ← c.literalLabel)
    return none

end Matcher

namespace Hazard

/-- The hazard at a hot node, if the predicate finds one. A node on which the predicate trips is
skipped with a note. -/
def check (h : Heat) (predicate : Cursor → Except Fault (Option (HazardKind × String)))
    (mark : Mark) : Task Unit (Option Hazard) := do
  let found ← (Task.ofExcept (predicate mark.node)).absorb none fun fault =>
    .hazardCheckSkipped ⟨mark.node.kind, mark.node.position, fault⟩
  return found.map fun (kind, operation) =>
    ⟨mark.node, operation, kind, mark.depth, mark.region,
      h.graph.chain (.function mark.region)⟩

/-- The hazards among the hot nodes, in the order of the text. -/
def collect (h : Heat) (predicate : Cursor → Except Fault (Option (HazardKind × String))) :
    Task Unit (List Hazard) := do
  let found ← Task.collect (check h predicate) h.nodes.inOrder
  return found.filterMap id

end Hazard

/-- The hazards of a matcher. A literal counts only in the body of a root itself. -/
def Matcher.hazards (m : Matcher) (h : Heat) : Task Unit (List Hazard) := do
  return (← Hazard.collect h m.classify).filter fun hazard =>
    hazard.kind ≠ .literal || hazard.depth = 0

end HotPath
