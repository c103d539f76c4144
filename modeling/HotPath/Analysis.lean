import HotPath.Hazard

/-! One analysis of a tree: scopes, roots, heat, hazards. -/

namespace HotPath

/-- What to look for in a tree. Without a matcher no hazards are sought. -/
structure Engine where
  detectors : List Detector
  matcher : Option Matcher := none
  maxCallDepth : Int := 5

/-- The result of an analysis. -/
structure Analysis where
  scopes : ScopeTable
  roots : List Root
  heat : Heat
  hazards : List Hazard

namespace Engine

/-- Notes about recursion, in the order of their wording. -/
def recursionNotes (g : CallGraph) : List Note :=
  (g.cycles.map Note.recursion).mergeSort fun a b => !(b.text < a.text : Bool)

/-- Scopes, roots and heat, without hazards. -/
def propagate (e : Engine) (root : Cursor) : Task Unit Analysis := do
  let ((), scopes) ← Task.withState ScopeTable.empty (ScopeTable.build root)
  let roots ← Root.detectAll scopes e.detectors root
  let heat ← Heat.propagate scopes e.maxCallDepth roots
  Task.note (.propagated roots.length heat.functions.size heat.nodes.size)
  Task.each Task.note (recursionNotes heat.graph)
  return ⟨scopes, roots, heat, []⟩

/-- The full analysis of the tree at a node. -/
def analyze (e : Engine) (root : Cursor) : Task Unit Analysis := do
  let found ← e.propagate root
  match e.matcher with
  | none => return found
  | some m => return { found with hazards := ← m.hazards found.heat }

end Engine

/-- What is banned on a frame loop, without any rule around it. -/
structure FrameLoop where
  apis : List String := ["useFrame"]
  banned : List String := ["clone"]
  literals : List String := []
  maxCallDepth : Int := 5

namespace FrameLoop

def engine (f : FrameLoop) : Engine :=
  { detectors := [.frameLoop f.apis], matcher := some ⟨f.banned, f.literals⟩
    maxCallDepth := f.maxCallDepth }

/-- The hazards of a frame loop in the tree at a node. -/
def hazards (f : FrameLoop) (root : Cursor) : Task Unit (List Hazard) := do
  return (← f.engine.analyze root).hazards

end FrameLoop

end HotPath
