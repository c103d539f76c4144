import HotPath.Scope.Resolve

/-! Roots: callbacks that run once a frame, or as often. A root is a function written right where it
is registered; a function that is registered by name is no root. -/

namespace HotPath

/-- How a callback comes to run often. -/
inductive RootCategory
  | frame
  | timer
  | event
deriving DecidableEq

def RootCategory.name : RootCategory → String
  | frame => "frame"
  | timer => "timer"
  | event => "event"

/-- A callback and the place where it is registered. -/
structure Root where
  function : Cursor
  /-- The interface or event that the callback is registered with. -/
  origin : String
  site : Cursor
  category : RootCategory

def Root.label (r : Root) : String := s!"{r.origin} callback"

/-- What to look for: functions handed to calls of some interfaces, or handlers of some events. -/
inductive Detector
  | frameLoop (apis : List String)
  | timerLoop (apis : List String)
  | fastEvent (events : List String)

namespace Detector

def category : Detector → RootCategory
  | frameLoop _ => .frame
  | timerLoop _ => .timer
  | fastEvent _ => .event

/-- The interface that a call subscribes to. An interface may have been imported under another name.
-/
def apiName (t : ScopeTable) (apis : List String) (call : Cursor) :
    Except Fault (Option String) := do
  match ← call.calleeName with
  | none => return none
  | some name =>
    if apis.contains name then return some name
    match ← call.callee with
    | none => return none
    | some callee =>
      let binding ← t.resolveIdentifier callee
      return (binding.bind (·.kind.exported?)).filter apis.contains

/-- Functions handed to a call of one of the interfaces. -/
def subscriptions (t : ScopeTable) (category : RootCategory) (apis : List String) (c : Cursor) :
    Except Fault (List Root) := do
  if !c.isCall then return []
  match ← apiName t apis c with
  | none => return []
  | some api => return (← c.functionArguments).map (⟨·, api, c, category⟩)

/-- Functions written as the handler of one of the events. -/
def eventHandlers (events : List String) (c : Cursor) : Except Fault (List Root) := do
  if c.kind ≠ "jsx_attribute" then return []
  match c.namedChildren with
  | name :: value :: _ =>
    let event ← name.text
    if events.contains event && value.kind = "jsx_expression" then
      return (value.namedChildren.filter (·.isFunctionLiteral)).map (⟨·, event, c, .event⟩)
    return []
  | _ => return []

/-- The roots registered at a node. -/
def rootsAt (t : ScopeTable) (d : Detector) (c : Cursor) : Except Fault (List Root) :=
  match d with
  | frameLoop apis => subscriptions t .frame apis c
  | timerLoop apis => subscriptions t .timer apis c
  | fastEvent events => eventHandlers events c

/-- The roots at and below a node, in pre-order of the places where they are registered. -/
def detect (t : ScopeTable) (d : Detector) (root : Cursor) : Task Unit (List Root) := do
  let found ← Task.collect (fun c =>
    (Task.ofExcept (rootsAt t d c)).absorb [] fun fault =>
      .detectionSkipped ⟨c.kind, c.position, fault⟩) root.preorder
  return found.flatten

end Detector

namespace Root

/-- Roots in the order of their functions in the source; an outer function comes after an inner one
that begins where it begins. -/
def precedes (a b : Root) : Bool :=
  a.function.start < b.function.start ||
    (a.function.start == b.function.start && a.function.stop ≤ b.function.stop)

/-- Run every detector and put the roots in source order. -/
def detectAll (t : ScopeTable) (ds : List Detector) (root : Cursor) : Task Unit (List Root) := do
  let found ← Task.collect (fun d => Detector.detect t d root) ds
  return found.flatten.mergeSort precedes

end Root

end HotPath
