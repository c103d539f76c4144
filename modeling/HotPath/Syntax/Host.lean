import HotPath.Syntax.Cursor
import HotPath.Value

/-! What a host may hand over. The analysis starts at a syntax node; a whole tree is taken for its
root, and anything else is refused with a list of what it lacks. -/

namespace HotPath

/-- A node as the host hands it over, with the attributes that it lacks. Its kind should be a text,
but may be anything. -/
structure HostNode where
  cursor : Cursor
  kind : Value
  lacks : List String

/-- Something handed over in place of a syntax node. -/
inductive Handed
  | nothing
  | value (v : Value)
  | node (n : HostNode)
  /-- A tree that is not a node itself. -/
  | tree (root : Option HostNode)
  /-- A tree that has a kind of its own, and is therefore taken for a node. -/
  | typedTree

/-- Why something is no syntax node. -/
inductive HostError
  | nothing
  | missing (typeName : String) (attributes : List String)
  | kindNotText (typeName : String)

namespace HostError

def message : HostError → String
  | nothing => "expected a syntax tree node, got None"
  | missing typeName attributes =>
    s!"expected a syntax tree node, {typeName} is missing " ++ ", ".intercalate attributes
  | kindNotText typeName => s!"node kind must be a string, got {typeName}"

end HostError

namespace Handed

/-- Attributes that every syntax node has. -/
def required : List String :=
  ["type", "children", "start_byte", "end_byte", "start_point", "end_point"]

def checkNode (n : HostNode) : Except HostError Cursor :=
  match required.filter n.lacks.contains with
  | [] =>
    match n.kind with
    | .str _ => .ok n.cursor
    | other => .error (.kindNotText other.typeName)
  | lacking => .error (.missing "Node" lacking)

/-- The node to start at. -/
def node? : Handed → Except HostError Cursor
  | nothing => .error .nothing
  | value .null => .error .nothing
  | value v => .error (.missing v.typeName required)
  | node n => checkNode n
  | tree (some root) => checkNode root
  | tree none => .error (.missing "Tree" required)
  | typedTree => .error (.missing "Tree" (required.filter (· ≠ "type")))

end Handed

end HotPath
