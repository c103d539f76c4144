import HotPath.Syntax.Cursor
import HotPath.Task

/-! Walks over a tree. Both walks keep the nodes that are still to be visited on a list of their
own, so the depth of a tree is no limit to them. -/

namespace HotPath

namespace Cursor

/-- Number of nodes at and below a list of cursors. -/
def sizeAll : List Cursor → Nat
  | [] => 0
  | c :: cs => c.size + sizeAll cs

theorem sizeAll_cons (c : Cursor) (cs : List Cursor) :
    sizeAll (c :: cs) = c.size + sizeAll cs := rfl

theorem sizeAll_append (xs ys : List Cursor) : sizeAll (xs ++ ys) = sizeAll xs + sizeAll ys := by
  induction xs with
  | nil => exact (Nat.zero_add _).symm
  | cons c rest ih =>
      rw [List.cons_append, sizeAll_cons, sizeAll_cons, ih, Nat.add_assoc]

/-- Nodes in whatever context count as nodes. -/
theorem sizeAll_map (nodes up : List Node) :
    sizeAll (nodes.map fun n => (⟨n, up⟩ : Cursor)) = Node.sizeAll nodes := by
  induction nodes with
  | nil => rfl
  | cons n rest ih =>
      rw [List.map_cons, sizeAll_cons, ih]
      rfl

theorem sizeAll_children (c : Cursor) : sizeAll c.children + 1 = c.size := by
  have h : sizeAll c.children = Node.sizeAll c.node.children := sizeAll_map _ _
  rw [h, Nat.add_comm]
  exact (Node.size_eq c.node).symm

/-- Nodes in pre-order from a list of nodes still to visit. The children of a node that is to be
skipped are left out. -/
def preorderFrom (skip : Cursor → Bool) : List Cursor → List Cursor
  | [] => []
  | c :: todo =>
    c :: if skip c then preorderFrom skip todo else preorderFrom skip (c.children ++ todo)
termination_by todo => sizeAll todo
decreasing_by
  · have := c.sizeAll_children; simp only [sizeAll_cons]; omega
  · have := c.sizeAll_children; simp only [sizeAll_append, sizeAll_cons]; omega

/-- A node and all nodes below it in pre-order. The node itself is never skipped. -/
def preorderUnless (skip : Cursor → Bool) (c : Cursor) : List Cursor :=
  c :: preorderFrom skip c.children

/-- A node and all nodes below it in pre-order. -/
def preorder (c : Cursor) : List Cursor := c.preorderUnless fun _ => false

/-- The node with a given place in the host's listing. -/
def findOrdinal? (c : Cursor) (ordinal : Nat) : Option Cursor :=
  c.preorder.find? (·.info.ordinal = ordinal)

end Cursor

/-- A moment of a walk. -/
structure Event where
  phase : Phase
  cursor : Cursor

namespace Event

/-- What an event still has to bring about: a node to enter stands for its whole subtree. -/
def weight (e : Event) : Nat :=
  match e.phase with
  | .enter => 2 * e.cursor.size
  | .leave => 1

theorem weight_enter (c : Cursor) : (⟨.enter, c⟩ : Event).weight = 2 * c.size := rfl

theorem weight_leave (c : Cursor) : (⟨.leave, c⟩ : Event).weight = 1 := rfl

/-- Number of events from a list of events still to come. -/
def weightAll : List Event → Nat
  | [] => 0
  | e :: es => e.weight + weightAll es

theorem weightAll_cons (e : Event) (es : List Event) :
    weightAll (e :: es) = e.weight + weightAll es := rfl

theorem weightAll_append (xs ys : List Event) :
    weightAll (xs ++ ys) = weightAll xs + weightAll ys := by
  induction xs with
  | nil => exact (Nat.zero_add _).symm
  | cons e rest ih =>
      rw [List.cons_append, weightAll_cons, weightAll_cons, ih, Nat.add_assoc]

/-- Every node that is entered is left. -/
theorem weightAll_enter (cs : List Cursor) :
    weightAll (cs.map fun c => (⟨.enter, c⟩ : Event)) = 2 * Cursor.sizeAll cs := by
  induction cs with
  | nil => rfl
  | cons c rest ih =>
      rw [List.map_cons, weightAll_cons, ih, Cursor.sizeAll_cons, Nat.mul_add]
      rfl

/-- Events from a list of events still to come. Entering a node is followed by its children and then
by leaving it. -/
def unfold : List Event → List Event
  | [] => []
  | ⟨.leave, c⟩ :: todo => ⟨.leave, c⟩ :: unfold todo
  | ⟨.enter, c⟩ :: todo =>
    ⟨.enter, c⟩ :: unfold (c.children.map (⟨.enter, ·⟩) ++ ⟨.leave, c⟩ :: todo)
termination_by todo => weightAll todo
decreasing_by
  · rw [weightAll_cons]
    exact Nat.lt_add_of_pos_left Nat.one_pos
  · have h := c.sizeAll_children
    rw [weightAll_append, weightAll_enter, weightAll_cons, weightAll_cons, weight_enter,
      weight_leave]
    omega

end Event

/-- The events of a walk over the tree at a node. -/
def Cursor.events (c : Cursor) : List Event := Event.unfold [⟨.enter, c⟩]

/-- What to do at the events of a walk: handlers by kind of node for either phase, and a handler for
every node, which runs after the one for its kind. -/
structure Handlers (σ : Type) where
  enter : String → Option (Cursor → Task σ Unit) := fun _ => none
  leave : String → Option (Cursor → Task σ Unit) := fun _ => none
  every : Option (Cursor → Task σ Unit) := none

namespace Handlers

variable {σ : Type}

/-- Run a handler at an event. One that trips over an odd node is skipped with a note. -/
def dispatch (handler : Cursor → Task σ Unit) (e : Event) : Task σ Unit :=
  (handler e.cursor).absorb () fun fault =>
    .handlerSkipped e.phase ⟨e.cursor.kind, e.cursor.position, fault⟩

/-- The handlers for an event, in the order in which they run. -/
def handlersAt (hs : Handlers σ) (e : Event) : List (Cursor → Task σ Unit) :=
  match e.phase with
  | .enter => (hs.enter e.cursor.kind).toList ++ hs.every.toList
  | .leave => (hs.leave e.cursor.kind).toList

/-- Handle one event. -/
def handle (hs : Handlers σ) (e : Event) : Task σ Unit :=
  Task.each (dispatch · e) (hs.handlersAt e)

/-- Walk over the tree at a node. -/
def walk (hs : Handlers σ) (c : Cursor) : Task σ Unit :=
  Task.each hs.handle c.events

end Handlers

end HotPath
