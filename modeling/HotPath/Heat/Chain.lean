import HotPath.Heat.Graph

/-! Shortest chains of calls. The search goes from both ends, a level at a time, always on the side
with the smaller frontier, and stops at the first vertex that both sides have seen. -/

namespace HotPath.CallGraph

/-- One side of the search: for every vertex that it has seen a shortest path between it and the end
where the side began, and the vertices seen in the last level. -/
structure Side where
  paths : OrderedMap Vertex (List Vertex)
  frontier : List Vertex

/-- A side that has seen its end only. A path starts at the vertex that it belongs to. -/
def Side.start (v : Vertex) : Side := ⟨OrderedMap.empty.insert v [v], [v]⟩

/-- Follow edges, each from a vertex of the frontier to a neighbour. New neighbours join the side.
The first neighbour that the other side has seen ends the search. -/
def Side.explore (seen : Vertex → Bool) : List (Vertex × Vertex) → Side → Side × Option Vertex
  | [], side => (side, none)
  | (v, w) :: rest, side =>
    let side :=
      if side.paths.contains w then side
      else ⟨side.paths.insert w (w :: (side.paths.get? v).getD []), side.frontier ++ [w]⟩
    if seen w then (side, some w) else explore seen rest side

/-- The next level of one side. -/
def Side.advance (neighbours : Vertex → List Vertex) (seen : Vertex → Bool) (side : Side) :
    Side × Option Vertex :=
  Side.explore seen (side.frontier.flatMap fun v => (neighbours v).map (v, ·))
    { side with frontier := [] }

/-- Search until the sides meet or one of them has nothing left to explore. Every level uses up a
frontier, and no vertex joins a side twice, so twice the number of vertices bounds the levels. -/
def meet (g : CallGraph) : Nat → Side → Side → Option (Side × Side × Vertex)
  | 0, _, _ => none
  | levels + 1, forward, backward =>
    if forward.frontier.isEmpty || backward.frontier.isEmpty then none
    else if forward.frontier.length ≤ backward.frontier.length then
      match forward.advance g.successors backward.paths.contains with
      | (forward, some v) => some (forward, backward, v)
      | (forward, none) => meet g levels forward backward
    else
      match backward.advance g.predecessors forward.paths.contains with
      | (backward, some v) => some (forward, backward, v)
      | (backward, none) => meet g levels forward backward

/-- A shortest path between two vertices of the graph. -/
def shortestPath (g : CallGraph) (a b : Vertex) : Option (List Vertex) :=
  if !(g.vertices.contains a && g.vertices.contains b) then none
  else if a = b then some [a]
  else do
    let (forward, backward, v) ←
      g.meet (2 * g.vertices.size + 2) (Side.start a) (Side.start b)
    let before ← forward.paths.get? v
    let after ← backward.paths.get? v
    return before.reverse ++ after.drop 1

/-- The labels along a shortest chain of calls from a root to a vertex; none if there is no chain.
-/
def chain (g : CallGraph) (v : Vertex) : List String :=
  match g.shortestPath .source v with
  | none => []
  | some path => (path.drop 1).map g.labelOf

end HotPath.CallGraph
