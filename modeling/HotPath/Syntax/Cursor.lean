import HotPath.Syntax.Node
import HotPath.Text.Utf8

/-! Nodes in context. A cursor is a node together with the nodes above it, so parents, ancestors and
children are plain functions and no node has to know where it hangs. -/

namespace HotPath

/-- A node and its ancestors, the parent first. -/
structure Cursor where
  node : Node
  ancestors : List Node

namespace Cursor

/-- The cursor at the root of a tree. -/
def root (n : Node) : Cursor := ⟨n, []⟩

def info (c : Cursor) : NodeInfo := c.node.info

def kind (c : Cursor) : String := c.node.kind

def key (c : Cursor) : Key := c.node.key

def start (c : Cursor) : Nat := c.info.start

def stop (c : Cursor) : Nat := c.info.stop

/-- Where the node begins. -/
def position (c : Cursor) : Position := c.info.first

/-- The line on which the node begins. -/
def line (c : Cursor) : Int := c.position.line

/-- The parent, if there is one and the node tells it. -/
def parent? (c : Cursor) : Option Cursor :=
  match c.ancestors with
  | [] => none
  | n :: above => if c.info.tellsParent then some ⟨n, above⟩ else none

def children (c : Cursor) : List Cursor :=
  c.node.children.map fun n => ⟨n, c.node :: c.ancestors⟩

/-- Number of nodes at and below the cursor. -/
def size (c : Cursor) : Nat := c.node.size

theorem size_lt_of_mem_children {d c : Cursor} (h : d ∈ c.children) : d.size < c.size := by
  obtain ⟨n, hn, rfl⟩ := List.mem_map.1 h
  exact Node.size_lt_of_mem hn

/-- Ancestors as cursors, the parent first, up to a node that does not tell its parent. -/
def above (c : Cursor) : List Cursor :=
  go c.info.tellsParent c.ancestors
where
  go : Bool → List Node → List Cursor
    | true, n :: rest => ⟨n, rest⟩ :: go n.info.tellsParent rest
    | _, _ => []

/-- The named children. A host that does not list them is asked child by child. -/
def namedChildren (c : Cursor) : List Cursor :=
  if c.info.listsNamed then c.children.filter (·.info.named)
  else c.children.filter (·.info.countsAsNamed)

/-- The first child in a given role. -/
def childInRole? (c : Cursor) (role : String) : Option Cursor :=
  c.children.find? (·.info.role = role)

/-- The child that fills a field. Reading a field may fail. -/
def field (c : Cursor) (role : String) : Except Fault (Option Cursor) :=
  match c.info.fields with
  | .readable => .ok (c.childInRole? role)
  | .absent => .ok none
  | .fails fault => .error fault

theorem mem_children_of_field {c d : Cursor} {role : String} (h : c.field role = .ok (some d)) :
    d ∈ c.children := by
  unfold field at h
  split at h
  · exact List.mem_of_find?_eq_some (Except.ok.inj h)
  · cases h
  · cases h

theorem mem_children_of_mem_namedChildren {c d : Cursor} (h : d ∈ c.namedChildren) :
    d ∈ c.children := by
  unfold namedChildren at h
  split at h
  · exact (List.mem_filter.1 h).1
  · exact (List.mem_filter.1 h).1

/-- The source text of a node. A node that does not offer its text has none; a read may also fail.
-/
def text (c : Cursor) : Except Fault String :=
  match c.info.reading with
  | .bytes raw => .ok (Text.Utf8.decode raw)
  | .text s => .ok s
  | .nothing => .ok ""
  | .fails fault => if fault.cause = .missing then .ok "" else .error fault

/-- The text of a node that may be absent. -/
def textOf : Option Cursor → Except Fault String
  | none => .ok ""
  | some c => c.text

/-- The text in a field. -/
def fieldText (c : Cursor) (role : String) : Except Fault String := do
  textOf (← c.field role)

end Cursor

end HotPath
