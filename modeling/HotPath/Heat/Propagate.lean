import HotPath.Heat.Chain
import HotPath.Heat.Cycle
import HotPath.Heat.Mark
import HotPath.Root

/-! Spreading heat from the roots. Every call in a hot body that resolves to a local function makes
that function's body hot, one call deeper, as long as the depth stays within a limit. Functions are
taken from a queue, so the first depth of a function is its smallest one, and a function that is
already marked at this depth or a smaller one is not queued again. -/

namespace HotPath

/-- What has been found out about one file. -/
structure Heat where
  graph : CallGraph
  /-- Functions whose bodies are hot. -/
  functions : MarkTable
  /-- All nodes inside hot bodies. -/
  nodes : MarkTable

namespace Heat

/-- Functions whose body is still to be scanned, with their depths. -/
abbrev Queue := List (Cursor × Int)

/-- Before any root: only the source. -/
def start : Heat :=
  ⟨CallGraph.empty.addVertex .source ⟨"hot path", none⟩, {}, {}⟩

/-- Enter a root. It is queued unless another root has the same function. -/
def enterRoot (state : Heat × Queue) (r : Root) : Heat × Queue :=
  let (h, queue) := state
  let key := r.function.key
  let graph :=
    (h.graph.addVertex (.function key) ⟨r.label, some r.function.line⟩).addRoot key
  let functions := h.functions.mark r.function 0 key
  if h.functions.improves r.function 0 then
    (⟨graph, functions, h.nodes⟩, queue ++ [(r.function, 0)])
  else (⟨graph, functions, h.nodes⟩, queue)

/-- A call in a hot body and the function that it invokes. -/
structure LocalCall where
  call : Cursor
  name : String
  target : Cursor

/-- The local function that a call invokes. -/
def localCall (t : ScopeTable) (c : Cursor) : Except Fault (Option LocalCall) := do
  match ← t.resolveCallee c with
  | none => return none
  | some b => return b.target?.map fun target => ⟨c, b.name, target⟩

/-- Look at one node of a hot body: a function inside it is hot with it, and a call is resolved. -/
def inspect (t : ScopeTable) (depth : Int) (region : Key) (c : Cursor) :
    Task Heat (Option LocalCall) := do
  Task.update fun h => { h with nodes := h.nodes.mark c depth region }
  if c.isFunction then
    Task.update fun h => { h with functions := h.functions.mark c depth region }
    return none
  if c.isCall then
    (Task.ofExcept (localCall t c)).absorb none fun fault =>
      .resolutionSkipped ⟨c.kind, c.position, fault⟩
  else return none

/-- Mark the body of a function and list its calls of local functions. -/
def scan (t : ScopeTable) (function : Cursor) (depth : Int) : Task Heat (List LocalCall) := do
  match ← function.body with
  | none => return []
  | some body =>
    let found ← Task.collect (inspect t depth function.key) body.preorder
    return found.filterMap id

/-- Enter a call into the graph. A function that is met for the first time gets the name by which it
was called as its label. -/
def recordCall (caller : Key) (call : LocalCall) (h : Heat) : Heat :=
  let callee := call.target.key
  let graph :=
    if h.graph.vertices.contains (.function callee) then h.graph
    else h.graph.addVertex (.function callee) ⟨call.name, some call.target.line⟩
  { h with graph := graph.addCall caller callee call.call.line }

/-- Record a call and queue its function if the call makes it hot at a smaller depth than before. -/
def follow (limit : Int) (caller : Key) (depth : Int) (call : LocalCall) : Task Heat Queue := do
  Task.update (recordCall caller call)
  let next := depth + 1
  if next > limit then
    Task.note (.callNotFollowed call.name call.call.line next limit)
    return []
  let h ← Task.state
  Task.update fun h => { h with functions := h.functions.mark call.target next call.target.key }
  if h.functions.improves call.target next then
    Task.note (.functionHot call.name next)
    return [(call.target, next)]
  return []

/-- Take one function from the queue: scan its body, unless a shorter path has reached it meanwhile,
and return what has to be queued behind the others. -/
def visit (t : ScopeTable) (limit : Int) (function : Cursor) (depth : Int) : Task Heat Queue := do
  let h ← Task.state
  match h.functions.markOf? function with
  | none => return []
  | some mark =>
    if mark.depth < depth then return []
    let calls ← scan t function depth
    let queued ← Task.collect (follow limit function.key depth) calls
    return queued.flatten

/-- Work through the queue, visiting no more functions than given. -/
def drain (t : ScopeTable) (limit : Int) : Nat → Queue → Task Heat Unit
  | 0, _ => return ()
  | _ + 1, [] => return ()
  | visits + 1, (function, depth) :: rest => do
    let queued ← visit t limit function depth
    drain t limit visits (rest ++ queued)

/-- Spread heat from the roots. A function is queued once at most, and only as a root or as the
target of a binding, so their number bounds the visits. -/
def propagate (t : ScopeTable) (limit : Int) (roots : List Root) : Task Unit Heat := do
  let (h, queue) := roots.foldl enterRoot (start, [])
  let ((), h) ← Task.withState h (drain t limit (roots.length + t.bindings.length) queue)
  return h

end Heat

end HotPath
