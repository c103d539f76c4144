import HotPath.Syntax.Reading
import HotPath.Syntax.Walk
import Mathlib.Data.List.Nodup

/-! Subtrees. The walks keep a list of what is still to be visited; here they are turned into
recursions over the children, and a node is said to lie in a tree if the walk in pre-order meets
it. -/

namespace HotPath

namespace Cursor

/-- What is true of a node once it is true of its children is true of every node. -/
theorem children_induction {P : Cursor → Prop} (h : ∀ c : Cursor, (∀ d ∈ c.children, P d) → P c)
    (c : Cursor) : P c := by
  induction hSize : c.size using Nat.strongRecOn generalizing c with
  | ind n ih =>
      refine h c fun d hd => ih d.size ?_ d rfl
      rw [← hSize]
      exact size_lt_of_mem_children hd

theorem preorderFrom_nil (skip : Cursor → Bool) : preorderFrom skip [] = [] := by
  rw [preorderFrom]

theorem preorderFrom_cons (skip : Cursor → Bool) (c : Cursor) (todo : List Cursor) :
    preorderFrom skip (c :: todo) =
      c :: if skip c then preorderFrom skip todo else preorderFrom skip (c.children ++ todo) := by
  rw [preorderFrom]

/-- What is visited later does not depend on what is visited first. -/
theorem preorderFrom_append (skip : Cursor → Bool) (xs ys : List Cursor) :
    preorderFrom skip (xs ++ ys) = preorderFrom skip xs ++ preorderFrom skip ys := by
  fun_induction preorderFrom skip xs with
  | case1 => rfl
  | case2 c todo ihSkip ih =>
      rw [List.cons_append, preorderFrom_cons, ← List.append_assoc, ihSkip, ih, List.cons_append]
      split <;> rfl

theorem preorderFrom_eq_flatMap (cs : List Cursor) :
    preorderFrom (fun _ => false) cs = cs.flatMap preorder := by
  induction cs with
  | nil => exact preorderFrom_nil _
  | cons c rest ih =>
      rw [preorderFrom_cons, if_neg Bool.false_ne_true, preorderFrom_append, ih]
      rfl

/-- The walk in pre-order as a recursion over the children. -/
theorem preorder_eq (c : Cursor) : c.preorder = c :: c.children.flatMap preorder := by
  rw [← preorderFrom_eq_flatMap]
  rfl

@[simp] theorem mem_preorder_self (c : Cursor) : c ∈ c.preorder := by
  rw [preorder_eq]
  exact List.mem_cons_self

theorem mem_preorder_iff {c d : Cursor} :
    d ∈ c.preorder ↔ d = c ∨ ∃ e ∈ c.children, d ∈ e.preorder := by
  rw [preorder_eq, List.mem_cons, List.mem_flatMap]

theorem mem_preorder_of_mem_children {c d : Cursor} (h : d ∈ c.children) : d ∈ c.preorder :=
  mem_preorder_iff.2 (.inr ⟨d, h, d.mem_preorder_self⟩)

/-- A node is a child of one node only. -/
theorem eq_of_mem_children {a b d : Cursor} (ha : d ∈ a.children) (hb : d ∈ b.children) :
    a = b := by
  obtain ⟨n, -, rfl⟩ := List.mem_map.1 ha
  obtain ⟨m, -, hSame⟩ := List.mem_map.1 hb
  obtain ⟨-, hAncestors⟩ := Cursor.mk.inj hSame
  obtain ⟨hNode, hAbove⟩ := List.cons.inj hAncestors
  exact congrArg₂ Cursor.mk hNode.symm hAbove.symm

/-- A node of a subtree is a node of the tree. -/
theorem mem_preorder_trans {a b c : Cursor} (hab : a ∈ b.preorder) (hbc : b ∈ c.preorder) :
    a ∈ c.preorder := by
  induction c using children_induction with
  | h c ih =>
      rcases mem_preorder_iff.1 hbc with rfl | ⟨e, he, hbe⟩
      · exact hab
      · exact mem_preorder_iff.2 (.inr ⟨e, he, ih e he hbe⟩)

/-- What is true of the root and passes from nodes to their children is true of every node. -/
theorem preorder_induction {root : Cursor} {P : Cursor → Prop} (hRoot : P root)
    (hChild : ∀ c ∈ root.preorder, P c → ∀ d ∈ c.children, P d) {n : Cursor}
    (hn : n ∈ root.preorder) : P n := by
  have hBelow : ∀ c, c ∈ root.preorder → P c → n ∈ c.preorder → P n := by
    intro c
    induction c using children_induction with
    | h c ih =>
        intro hc hP hnc
        rcases mem_preorder_iff.1 hnc with rfl | ⟨d, hd, hnd⟩
        · exact hP
        · have hMem := mem_preorder_trans (mem_preorder_of_mem_children hd) hc
          exact ih d hd hMem (hChild c hc hP d hd) hnd
  exact hBelow root root.mem_preorder_self hRoot hn

theorem mem_preorder_of_field {root c d : Cursor} {role : String} (hc : c ∈ root.preorder)
    (h : c.field role = .ok (some d)) : d ∈ root.preorder :=
  mem_preorder_trans (mem_preorder_of_mem_children (mem_children_of_field h)) hc

theorem mem_preorder_of_mem_namedChildren {root c d : Cursor} (hc : c ∈ root.preorder)
    (h : d ∈ c.namedChildren) : d ∈ root.preorder :=
  mem_preorder_trans (mem_preorder_of_mem_children (mem_children_of_mem_namedChildren h)) hc

theorem size_le_of_mem_preorder {c d : Cursor} (h : d ∈ c.preorder) : d.size ≤ c.size := by
  induction c using children_induction with
  | h c ih =>
      rcases mem_preorder_iff.1 h with rfl | ⟨e, he, hde⟩
      · exact Nat.le_refl _
      · exact Nat.le_trans (ih e he hde) (Nat.le_of_lt (size_lt_of_mem_children he))

/-- A node below one of the children is a proper part of the tree. -/
theorem size_lt_of_mem_preorder_child {c d e : Cursor} (he : e ∈ c.children)
    (h : d ∈ e.preorder) : d.size < c.size :=
  Nat.lt_of_le_of_lt (size_le_of_mem_preorder h) (size_lt_of_mem_children he)

/-- The walk over a subtree is a part of the walk over the tree. -/
theorem preorder_sublist {c d : Cursor} (h : d ∈ c.preorder) :
    d.preorder.Sublist c.preorder := by
  induction c using children_induction with
  | h c ih =>
      rcases mem_preorder_iff.1 h with rfl | ⟨e, he, hde⟩
      · exact List.Sublist.refl _
      · rw [preorder_eq c]
        exact ((ih e he hde).trans (List.sublist_flatten_of_mem (List.mem_map_of_mem he))).cons c

theorem sublist_flatMap_preorder (cs : List Cursor) : cs.Sublist (cs.flatMap preorder) := by
  induction cs with
  | nil => exact List.Sublist.refl _
  | cons c rest ih =>
      rw [List.flatMap_cons, preorder_eq, List.cons_append]
      exact (ih.trans (List.sublist_append_right _ _)).cons_cons c

/-- The nodes of the body of a function. A function without a readable body has none. -/
def bodyNodes (f : Cursor) : List Cursor :=
  match f.body with
  | .ok (some body) => body.preorder
  | _ => []

theorem mem_bodyNodes_iff {f c : Cursor} :
    c ∈ f.bodyNodes ↔ ∃ body, f.body = .ok (some body) ∧ c ∈ body.preorder := by
  unfold bodyNodes
  constructor
  · intro h
    split at h
    · next body hBody => exact ⟨body, hBody, h⟩
    · cases h
  · rintro ⟨body, hBody, h⟩
    rw [hBody]
    exact h

theorem mem_preorder_of_mem_bodyNodes {f c : Cursor} (h : c ∈ f.bodyNodes) : c ∈ f.preorder := by
  obtain ⟨body, hBody, hc⟩ := mem_bodyNodes_iff.1 h
  exact mem_preorder_trans hc (mem_preorder_of_field f.mem_preorder_self hBody)

/-- The body of a function inside a body is a part of that body. -/
theorem bodyNodes_subset_of_mem {f g : Cursor} (h : f ∈ g.bodyNodes) :
    f.bodyNodes ⊆ g.bodyNodes := by
  intro c hc
  obtain ⟨body, hBody, hf⟩ := mem_bodyNodes_iff.1 h
  exact mem_bodyNodes_iff.2
    ⟨body, hBody, mem_preorder_trans (mem_preorder_of_mem_bodyNodes hc) hf⟩

/-- The functions that are written inside the body of a function. -/
def innerFunctions (f : Cursor) : List Cursor := f.bodyNodes.filter (·.isFunction)

theorem mem_bodyNodes_of_mem_innerFunctions {f g : Cursor} (h : g ∈ f.innerFunctions) :
    g ∈ f.bodyNodes :=
  (List.mem_filter.1 h).1

/-- The functions that are written in a tree. -/
def functions (root : Cursor) : List Cursor := root.preorder.filter (·.isFunction)

theorem mem_preorder_of_mem_functions {root f : Cursor} (h : f ∈ root.functions) :
    f ∈ root.preorder :=
  (List.mem_filter.1 h).1

/-- A function that may stand as a value is a function. -/
theorem isFunction_of_isFunctionLiteral {c : Cursor} (h : c.isFunctionLiteral = true) :
    c.isFunction = true := by
  have hSubset : functionLiteralKinds ⊆ functionKinds := by decide
  simp only [isFunctionLiteral, isFunction, List.contains_iff_mem] at h ⊢
  exact hSubset h

theorem mem_functions_of_isFunctionLiteral {root f : Cursor} (hf : f ∈ root.preorder)
    (hLiteral : f.isFunctionLiteral = true) : f ∈ root.functions :=
  List.mem_filter.2 ⟨hf, isFunction_of_isFunctionLiteral hLiteral⟩

/-- No two nodes of the tree have one key. -/
def DistinctKeys (root : Cursor) : Prop := (root.preorder.map key).Nodup

instance (root : Cursor) : Decidable root.DistinctKeys :=
  inferInstanceAs (Decidable (root.preorder.map key).Nodup)

namespace DistinctKeys

variable {root : Cursor}

/-- A key then stands for one node. -/
theorem eq_of_key_eq (h : root.DistinctKeys) {a b : Cursor} (ha : a ∈ root.preorder)
    (hb : b ∈ root.preorder) (hKey : a.key = b.key) : a = b :=
  List.inj_on_of_nodup_map h ha hb hKey

theorem of_mem (h : root.DistinctKeys) {c : Cursor} (hc : c ∈ root.preorder) : c.DistinctKeys :=
  h.sublist ((preorder_sublist hc).map key)

theorem nodup_children (h : root.DistinctKeys) : (root.children.map key).Nodup := by
  rw [DistinctKeys, preorder_eq] at h
  exact h.sublist (((sublist_flatMap_preorder root.children).cons root).map key)

end DistinctKeys

end Cursor

namespace Event

theorem unfold_append (xs ys : List Event) : unfold (xs ++ ys) = unfold xs ++ unfold ys := by
  fun_induction unfold xs with
  | case1 => rfl
  | case2 c todo ih => rw [List.cons_append, unfold, ih, List.cons_append]
  | case3 c todo ih =>
      rw [List.cons_append, unfold, List.cons_append]
      rw [List.append_assoc, List.cons_append] at ih
      rw [ih]

theorem unfold_enter (cs : List Cursor) :
    unfold (cs.map (⟨.enter, ·⟩)) = cs.flatMap Cursor.events := by
  induction cs with
  | nil => rw [List.map_nil, unfold, List.flatMap_nil]
  | cons c rest ih =>
      rw [List.map_cons, ← List.singleton_append, unfold_append, ih, List.flatMap_cons]
      rfl

end Event

/-- The events of a walk as a recursion over the children. -/
theorem Cursor.events_eq (c : Cursor) :
    c.events = ⟨.enter, c⟩ :: (c.children.flatMap Cursor.events ++ [⟨.leave, c⟩]) := by
  unfold Cursor.events
  rw [Event.unfold, Event.unfold_append, Event.unfold_enter]
  rw [Event.unfold, Event.unfold]
  rfl

/-- The node that an event enters, if it enters one. -/
def Event.entered? (e : Event) : Option Cursor :=
  match e.phase with
  | .enter => some e.cursor
  | .leave => none

@[simp] theorem Event.entered?_enter (c : Cursor) : entered? ⟨.enter, c⟩ = some c := rfl

@[simp] theorem Event.entered?_leave (c : Cursor) : entered? ⟨.leave, c⟩ = none := rfl

/-- The nodes that a walk enters are those of the walk in pre-order. -/
theorem Cursor.filterMap_entered?_events (c : Cursor) :
    c.events.filterMap Event.entered? = c.preorder := by
  induction c using children_induction with
  | h c ih =>
      have hChildren : (c.children.flatMap events).filterMap Event.entered? =
          c.children.flatMap preorder := by
        rw [List.filterMap_flatMap]
        exact List.flatMap_congr ih
      rw [events_eq, preorder_eq]
      simp [List.filterMap_append, hChildren]

/-- A walk over a tree with distinct keys enters each node once. -/
theorem Cursor.DistinctKeys.enter_notMem {root d : Cursor} (h : root.DistinctKeys)
    {before rest : List Event} (hEvents : root.events = before ++ ⟨.enter, d⟩ :: rest) :
    ⟨.enter, d⟩ ∉ before ∧ ⟨.enter, d⟩ ∉ rest := by
  have hNodup := List.Nodup.of_map key h
  rw [← filterMap_entered?_events, hEvents, List.filterMap_append,
    List.filterMap_cons_some (Event.entered?_enter d), List.nodup_append, List.nodup_cons] at hNodup
  obtain ⟨-, ⟨hRest, -⟩, hApart⟩ := hNodup
  constructor
  · intro hMem
    exact hApart d (List.mem_filterMap.2 ⟨_, hMem, rfl⟩) d List.mem_cons_self rfl
  · exact fun hMem => hRest (List.mem_filterMap.2 ⟨_, hMem, rfl⟩)

/-- So there is one place at which it comes to a node. -/
theorem Cursor.DistinctKeys.before_unique {root d : Cursor} (h : root.DistinctKeys)
    {before before' rest rest' : List Event} (hEvents : root.events = before ++ d.events ++ rest)
    (hEvents' : root.events = before' ++ d.events ++ rest') : before = before' := by
  rw [d.events_eq, List.append_assoc, List.cons_append] at hEvents hEvents'
  obtain ⟨hBefore, hRest⟩ := h.enter_notMem hEvents
  exact ((List.append_cons_inj_of_notMem hBefore hRest).1 (hEvents.symm.trans hEvents')).1

end HotPath
