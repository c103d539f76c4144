import HotPath.Heat.Graph

/-! Recursion among the explored functions. Cycles are given by the labels of their vertices, turned
so that the smallest rotation comes first, and in increasing order. -/

namespace HotPath.CallGraph

/-- Whether a list of labels comes before another one or equals it, compared label by label. -/
def labelsPrecede : List String → List String → Bool
  | [], _ => true
  | _ :: _, [] => false
  | a :: as, b :: bs => a < b || (a == b && labelsPrecede as bs)

/-- The smallest rotation of a list of labels. -/
def smallestRotation (labels : List String) : List String :=
  (List.range labels.length).foldl (fun best i =>
    let turned := labels.drop i ++ labels.take i
    if labelsPrecede best turned then best else turned) labels

/-- Paths that leave the last vertex of a path, use vertices still allowed once each, and come back
to the given vertex. The path is kept in reverse. -/
def cyclesThrough (g : CallGraph) (home : Vertex) :
    Nat → List Vertex → Vertex → List Vertex → List (List Vertex)
  | 0, _, _, _ => []
  | fuel + 1, allowed, last, path =>
    (g.successors last).flatMap fun v =>
      if v = home then [path.reverse]
      else if allowed.contains v then
        cyclesThrough g home fuel (allowed.filter (· ≠ v)) v (v :: path)
      else []

/-- All elementary cycles whose first vertex in the given order begins them. -/
def cyclesFrom (g : CallGraph) : List Vertex → List (List Vertex)
  | [] => []
  | v :: later => cyclesThrough g v (later.length + 1) later v [v] ++ cyclesFrom g later

/-- The cycles of the graph by label. -/
def cycles (g : CallGraph) : List (List String) :=
  ((g.cyclesFrom g.vertices.keys).map fun cycle => smallestRotation (cycle.map g.labelOf)).mergeSort
    labelsPrecede

end HotPath.CallGraph
