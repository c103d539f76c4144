import HotPath.OrderedMap
import HotPath.Syntax.Cursor

/-! Marks on nodes that run on a hot path. A table keeps, for each node, the smallest depth at which
it was reached; a mark never gets larger. -/

namespace HotPath

/-- A node that runs on a hot path. -/
structure Mark where
  node : Cursor
  /-- Number of local calls between the node and the nearest root. -/
  depth : Int
  /-- The function whose body made the node hot. -/
  region : Key

/-- Marks by the key of their node. -/
abbrev MarkTable := OrderedMap Key Mark

namespace MarkTable

/-- Whether a mark at this depth would be the first one for the node or a smaller one. -/
def improves (t : MarkTable) (node : Cursor) (depth : Int) : Bool :=
  match t.get? node.key with
  | none => true
  | some existing => depth < existing.depth

/-- Mark a node, unless it is already marked at this depth or a smaller one. -/
def mark (t : MarkTable) (node : Cursor) (depth : Int) (region : Key) : MarkTable :=
  if t.improves node depth then t.insert node.key ⟨node, depth, region⟩ else t

/-- The mark of a node. -/
def markOf? (t : MarkTable) (node : Cursor) : Option Mark := t.get? node.key

def depthOf? (t : MarkTable) (node : Cursor) : Option Int := (t.markOf? node).map (·.depth)

/-- Order of the text: by start, outer nodes before inner ones, then by kind. -/
def precedes (a b : Mark) : Bool :=
  a.node.start < b.node.start ||
    (a.node.start == b.node.start &&
      (b.node.stop < a.node.stop ||
        (a.node.stop == b.node.stop && !(b.node.kind < a.node.kind : Bool))))

/-- All marks in the order of the text. -/
def inOrder (t : MarkTable) : List Mark := t.values.mergeSort precedes

end MarkTable

end HotPath
