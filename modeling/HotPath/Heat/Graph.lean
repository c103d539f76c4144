import HotPath.OrderedMap
import HotPath.Syntax.Node

/-! The graph of explored calls. Its vertices are functions and one source, which stands for
whatever runs the roots. Vertices and edges keep the order in which they were added, and that order
decides between chains of equal length. -/

namespace HotPath

/-- The source of all hot paths, or a function. -/
inductive Vertex
  | source
  | function (key : Key)
deriving DecidableEq

namespace Vertex

/-- The key of the source, which is no node's. -/
def sourceKey : Key := ⟨"<hot-path>", -1, -1⟩

def key : Vertex → Key
  | source => sourceKey
  | function key => key

def ofKey (k : Key) : Vertex := if k = sourceKey then source else function k

def text (v : Vertex) : String := v.key.text

end Vertex

/-- What a vertex is called in a chain, and the line where a function begins. -/
structure VertexLabel where
  name : String
  line : Option Int

/-- Vertices with their labels, and edges with the lines of the calls that they stand for. An edge
from the source stands for no call. -/
structure CallGraph where
  vertices : OrderedMap Vertex VertexLabel
  edges : OrderedMap (Vertex × Vertex) (Option (List Int))

namespace CallGraph

def empty : CallGraph := ⟨{}, {}⟩

/-- Add a vertex, or give a vertex that is already there another label. -/
def addVertex (g : CallGraph) (v : Vertex) (label : VertexLabel) : CallGraph :=
  { g with vertices := g.vertices.insert v label }

/-- Link the source to a function. -/
def addRoot (g : CallGraph) (f : Key) : CallGraph :=
  { g with edges := g.edges.insert (.source, .function f) none }

/-- Record a call on a line between two functions. -/
def addCall (g : CallGraph) (caller callee : Key) (line : Int) : CallGraph :=
  let edge := (Vertex.function caller, Vertex.function callee)
  let lines := ((g.edges.get? edge).bind id).getD []
  { g with edges := g.edges.insert edge (some (lines ++ [line])) }

/-- Where edges lead from a vertex, in the order in which the edges were added. -/
def successors (g : CallGraph) (v : Vertex) : List Vertex :=
  (g.edges.keys.filter (·.1 = v)).map (·.2)

/-- Where edges to a vertex come from, in the order in which the edges were added. -/
def predecessors (g : CallGraph) (v : Vertex) : List Vertex :=
  (g.edges.keys.filter (·.2 = v)).map (·.1)

def labelOf (g : CallGraph) (v : Vertex) : String :=
  ((g.vertices.get? v).map (·.name)).getD ""

end CallGraph

end HotPath
