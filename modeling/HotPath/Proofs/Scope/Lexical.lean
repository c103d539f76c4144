import HotPath.Proofs.Scope.Nesting
import HotPath.Scope.Resolve

/-! Lexical scopes. A table that was built in one walk says of every node which scope the text puts
it in: that of the nearest node around it that opens one, and the scopes of a chain are those of
all such nodes, from the inside out. -/

namespace HotPath

namespace Cursor

/-- A node and the nodes around it up to the root of a tree, from the inside out. -/
def outward (c root : Cursor) : List Cursor :=
  (c :: go c.ancestors).take (c.ancestors.length + 1 - root.ancestors.length)
where
  go : List Node → List Cursor
    | [] => []
    | n :: rest => ⟨n, rest⟩ :: go rest

theorem outward_self (root : Cursor) : root.outward root = [root] := by
  simp [outward]

theorem length_ancestors_le {root c : Cursor} (hc : c ∈ root.preorder) :
    root.ancestors.length ≤ c.ancestors.length := by
  refine preorder_induction (P := fun c => root.ancestors.length ≤ c.ancestors.length)
    (Nat.le_refl _) (fun c _ ih d hd => ?_) hc
  obtain ⟨n, -, rfl⟩ := List.mem_map.1 hd
  exact Nat.le_succ_of_le ih

theorem outward_of_mem_children {root c d : Cursor} (hc : c ∈ root.preorder)
    (hd : d ∈ c.children) : d.outward root = d :: c.outward root := by
  have hLength := length_ancestors_le hc
  obtain ⟨n, -, rfl⟩ := List.mem_map.1 hd
  simp only [outward, outward.go, List.length_cons]
  rw [show c.ancestors.length + 1 + 1 - root.ancestors.length =
    (c.ancestors.length + 1 - root.ancestors.length) + 1 by omega, List.take_succ_cons]

/-- The first of some nodes that opens a scope. -/
def opener? (nodes : List Cursor) : Option Cursor := nodes.find? (·.opens?.isSome)

end Cursor

namespace ScopeTable

variable {t : ScopeTable} {root n : Cursor}

/-- The number of the scope that a node opened. Without a node it is that of the program. -/
def OpenedBy (t : ScopeTable) (i : Nat) : Option Cursor → Prop
  | none => i = rootScope
  | some m => 0 < i ∧ ∃ s, t.scope? i = some s ∧ s.node = m ∧ m.opens? = some s.kind

/-- The scopes of a table are those that the text says. Every node that opens a scope opened one,
every node is placed in the scope of the nearest such node around it, and a scope lies in that of
the nearest such node around its own node. -/
structure Lexical (root : Cursor) (t : ScopeTable) : Prop where
  program : ∃ s, t.scope? rootScope = some s ∧ s.kind = .program ∧ s.node = root ∧ s.outer = []
  opened : (t.scopes.drop 1).map (·.node) = root.preorder.filter (·.opens?.isSome)
  placed : ∀ n ∈ root.preorder, t.OpenedBy (t.scopeFor n) (Cursor.opener? (n.outward root))
  parent : ∀ i s, 0 < i → t.scope? i = some s → s.node.opens? = some s.kind ∧
    ∃ p, t.OpenedBy p (Cursor.opener? ((s.node.outward root).drop 1)) ∧ s.outer = t.chain p
  chain_end : ∀ i s, t.scope? i = some s → (t.chain i).getLast? = some rootScope

/-- A stack is the chain of the scope of the nearest node that opens one. -/
def Around (t : ScopeTable) (nodes : List Cursor) (stack : List Nat) : Prop :=
  ∃ i, t.OpenedBy i (Cursor.opener? nodes) ∧ stack = t.chain i ∧ stack.getLast? = some rootScope

/-- A table and a shape that agree, once the walk over the tree is finished. -/
structure Finished (root : Cursor) (t : ScopeTable) (s : Shape) : Prop where
  frames : t.scopes.map Scope.frame = s.frames
  placed : t.placed = s.placed
  walked : Shape.Walked [root] (Shape.start root) s

namespace Finished

variable {s : Shape} (h : Finished root t s)

include h

theorem exists_scope {i : Nat} {f : Frame} (hf : s.frames[i]? = some f) :
    ∃ scope, t.scope? i = some scope ∧ scope.frame = f := by
  rw [← h.frames, List.getElem?_map] at hf
  exact Option.map_eq_some_iff.1 hf

theorem exists_program : ∃ scope, t.scope? rootScope = some scope ∧
    scope.kind = .program ∧ scope.node = root ∧ scope.outer = [] := by
  have hFirst : (Shape.start root).frames[rootScope]? = some ⟨.program, root, []⟩ := rfl
  obtain ⟨scope, hScope, hSame⟩ :=
    h.exists_scope (Shape.getElem?_frames h.walked.isPrefix hFirst)
  exact ⟨scope, hScope, congrArg Frame.kind hSame, congrArg Frame.node hSame,
    congrArg Frame.outer hSame⟩

theorem opened : (t.scopes.drop 1).map (·.node) = root.preorder.filter (·.opens?.isSome) := by
  obtain ⟨new, hNew, hNodes⟩ := h.walked.frames
  have hDrop : new = (t.scopes.drop 1).map Scope.frame := by
    rw [List.map_drop, h.frames, hNew]
    rfl
  rw [hDrop, List.map_map, List.flatMap_singleton] at hNodes
  exact hNodes

theorem around_cons {nodes : List Cursor} {around inside : List Nat}
    (hAround : t.Around nodes around) (hOpens : s.Opens around n inside) :
    t.Around (n :: nodes) inside := by
  obtain ⟨i, hOpened, hChain, hLast⟩ := hAround
  cases hOpens with
  | shares hNone =>
      refine ⟨i, ?_, hChain, hLast⟩
      simpa [Cursor.opener?, hNone] using hOpened
  | @own kind j hSome hj hFrame =>
      obtain ⟨scope, hScope, hSame⟩ := h.exists_scope hFrame
      cases hSame
      have hFirst : Cursor.opener? (scope.node :: nodes) = some scope.node := by
        simp [Cursor.opener?, hSome]
      refine ⟨j, hFirst ▸ ⟨hj, scope, hScope, rfl, hSome⟩, ?_, ?_⟩
      · simp [chain, hScope]
      · rw [List.getLast?_cons, hLast]
        rfl

theorem chain_rootScope : t.chain rootScope = [rootScope] := by
  obtain ⟨scope, hScope, -, -, hOuter⟩ := h.exists_program
  simp [chain, hScope, hOuter]

theorem around_nil : t.Around [] [rootScope] := ⟨rootScope, rfl, h.chain_rootScope.symm, rfl⟩

end Finished

/-- A node in a table that agrees with the tree: the scopes around it and those open inside. -/
structure Enclosed (root : Cursor) (t : ScopeTable) (s : Shape) (n : Cursor)
    (around inside : List Nat) : Prop where
  opens : s.Opens around n inside
  placed : t.placed.get? n.key = inside.head?
  children : ∀ d ∈ n.children, s.Nested inside d
  outside : t.Around ((n.outward root).drop 1) around
  within : t.Around (n.outward root) inside

/-- Every node is enclosed by the scopes of the nodes around it. -/
theorem Finished.exists_enclosed {s : Shape} (h : Finished root t s) (hn : n ∈ root.preorder) :
    ∃ around inside, Enclosed root t s n around inside := by
  refine Cursor.preorder_induction
    (P := fun n => ∃ around inside, Enclosed root t s n around inside)
    ?_ (fun c hc ih d hd => ?_) hn
  · cases h.walked.nested root List.mem_cons_self with
    | node hOpens hHere hChildren =>
        refine ⟨_, _, hOpens, h.placed ▸ hHere, hChildren, ?_, ?_⟩
        · rw [Cursor.outward_self]
          exact h.around_nil
        · rw [Cursor.outward_self]
          exact h.around_cons h.around_nil hOpens
  · obtain ⟨around, inside, hs⟩ := ih
    cases hs.children d hd with
    | node hOpens hHere hChildren =>
        refine ⟨_, _, hOpens, h.placed ▸ hHere, hChildren, ?_, ?_⟩
        · rw [Cursor.outward_of_mem_children hc hd]
          exact hs.within
        · rw [Cursor.outward_of_mem_children hc hd]
          exact h.around_cons hs.within hOpens

theorem Around.exists_head {nodes : List Cursor} {stack : List Nat} (h : t.Around nodes stack) :
    ∃ i, t.OpenedBy i (Cursor.opener? nodes) ∧ stack.head? = some i := by
  obtain ⟨i, hOpened, rfl, hLast⟩ := h
  refine ⟨i, hOpened, ?_⟩
  unfold chain at hLast ⊢
  cases hScope : t.scope? i with
  | none => simp [hScope] at hLast
  | some scope => rfl

theorem scopeFor_of_placed {i : Nat} (h : t.placed.get? n.key = some i) : t.scopeFor n = i := by
  simp [scopeFor, h]

/-- The scopes but that of the program. -/
theorem getElem?_drop_scopes {i : Nat} {x : Scope} (hi : 0 < i) (hx : t.scope? i = some x) :
    (t.scopes.drop 1)[i - 1]? = some x := by
  rw [List.getElem?_drop, show 1 + (i - 1) = i by omega]
  exact hx

/-- No two scopes but that of the program were opened by one node. -/
theorem eq_of_node_eq
    (hOpened : (t.scopes.drop 1).map (·.node) = root.preorder.filter (·.opens?.isSome))
    (hKeys : root.DistinctKeys) {i j : Nat} {x y : Scope} (hi : 0 < i) (hj : 0 < j)
    (hx : t.scope? i = some x) (hy : t.scope? j = some y) (hNode : x.node = y.node) : i = j := by
  have hNodup : ((t.scopes.drop 1).map (·.node)).Nodup := by
    rw [hOpened]
    exact (List.Nodup.of_map _ hKeys).filter _
  have hAt := congrArg (Option.map (·.node)) (getElem?_drop_scopes hi hx)
  have hAt' := congrArg (Option.map (·.node)) (getElem?_drop_scopes hj hy)
  rw [← List.getElem?_map, Option.map_some] at hAt hAt'
  have hIndex := (List.getElem?_inj (List.getElem?_eq_some_iff.1 hAt).1 hNodup).1
    (hAt.trans (hNode ▸ hAt'.symm))
  omega

namespace Finished

variable {s : Shape}

/-- A scope that a node opened lies in the scope of the nearest node around it that opens one. -/
theorem parent (h : Finished root t s) (hKeys : root.DistinctKeys) {i : Nat} {x : Scope}
    (hi : 0 < i) (hx : t.scope? i = some x) :
    x.node.opens? = some x.kind ∧ t.Around ((x.node.outward root).drop 1) x.outer := by
  have hMem : x.node ∈ root.preorder.filter (·.opens?.isSome) := by
    rw [← h.opened]
    exact List.mem_map_of_mem (List.mem_of_getElem? (getElem?_drop_scopes hi hx))
  obtain ⟨hTree, hOpens⟩ := List.mem_filter.1 hMem
  obtain ⟨around, inside, hs⟩ := h.exists_enclosed hTree
  cases hs.opens with
  | shares hNone => simp [hNone] at hOpens
  | @own kind j hSome hj hFrame =>
      obtain ⟨y, hy, hSame⟩ := h.exists_scope hFrame
      obtain rfl := eq_of_node_eq h.opened hKeys hi hj hx hy (congrArg Frame.node hSame).symm
      cases hx.symm.trans hy
      obtain rfl : around = x.outer := (congrArg Frame.outer hSame).symm
      obtain rfl : kind = x.kind := (congrArg Frame.kind hSame).symm
      exact ⟨hSome, hs.outside⟩

theorem lexical (h : Finished root t s) (hKeys : root.DistinctKeys) : t.Lexical root where
  program := h.exists_program
  opened := h.opened
  placed := by
    intro n hn
    obtain ⟨around, inside, hs⟩ := h.exists_enclosed hn
    obtain ⟨i, hOpened, hHead⟩ := hs.within.exists_head
    rw [scopeFor_of_placed (hs.placed.trans hHead)]
    exact hOpened
  parent := by
    intro i x hi hx
    obtain ⟨hOpens, p, hOpened, hOuter, -⟩ := h.parent hKeys hi hx
    exact ⟨hOpens, p, hOpened, hOuter⟩
  chain_end := by
    intro i x hx
    rcases Nat.eq_zero_or_pos i with rfl | hi
    · exact congrArg List.getLast? h.chain_rootScope
    · obtain ⟨-, p, -, -, hLast⟩ := h.parent hKeys hi hx
      simp only [chain, hx]
      rw [List.getLast?_cons, hLast]
      rfl

end Finished

end ScopeTable

/-- The scopes that are open while a table is built, the innermost first. -/
def ScopeBuilder.stack (b : ScopeBuilder) : List Nat := b.top :: b.below

theorem Shape.ready_start (root : Cursor) : (Shape.start root).Ready root :=
  ⟨Nat.zero_lt_one, .inl rfl⟩

/-- Wherever the walk comes to a node, it leaves the node with the open scopes that it found. -/
theorem ScopeBuilder.stack_after {root d : Cursor} (hKeys : root.DistinctKeys)
    (hReads : root.ReadsFailOnly fun fault => fault.absorbed = true) {before rest : List Event}
    (hEvents : root.events = before ++ d.events ++ rest) :
    (after root (before ++ d.events)).stack = (after root before).stack := by
  have hMem : ∀ e ∈ before ++ d.events, e.cursor ∈ root.preorder := fun e he =>
    Cursor.mem_preorder_of_mem_events (hEvents ▸ List.mem_append_left rest he)
  have hd : d ∈ root.preorder := by
    refine hMem ⟨.enter, d⟩ (List.mem_append_right before ?_)
    rw [d.events_eq]
    exact List.mem_cons_self
  obtain ⟨before', rest', hEvents', hReady⟩ :=
    Shape.exists_ready hKeys (Shape.ready_start root) hd
  obtain rfl := hKeys.before_unique hEvents hEvents'
  have hLeft := (after_spec hReads hMem).2.1
  have hFound := (after_spec hReads fun e he => hMem e (List.mem_append_left d.events he)).2.1
  change (after root (before ++ d.events)).shape.stack = (after root before).shape.stack
  rw [hLeft, hFound, Shape.walk_append]
  exact (Shape.walked_events (hKeys.of_mem hd) hReady).stack_eq

theorem ScopeTable.finished_build {root : Cursor} (hKeys : root.DistinctKeys)
    (hReads : root.ReadsFailOnly fun fault => fault.absorbed = true) :
    Finished root (ScopeBuilder.after root root.events).table
      (ScopeBuilder.after root root.events).shape := by
  have hShape := (ScopeBuilder.after_spec hReads fun _ => Cursor.mem_preorder_of_mem_events).2.1
  exact ⟨rfl, rfl, hShape ▸ Shape.walked_events hKeys (Shape.ready_start root)⟩

/-- Building a table in one walk finds the scopes of the text, whatever faults of single nodes are
met on the way. The walk comes to every node and leaves it with the open scopes that it found, and
in the end every node is placed in the scope of the nearest node around it that opens one. -/
theorem ScopeTable.build_lexical (root : Cursor) (hKeys : root.DistinctKeys)
    (hReads : root.ReadsFailOnly fun fault => fault.absorbed = true) :
    ((build root).run empty).result = .ok () ∧
      ((build root).run empty).state = (ScopeBuilder.after root root.events).table ∧
      (∀ d ∈ root.preorder, ∃ before rest, root.events = before ++ d.events ++ rest) ∧
      (∀ (d : Cursor) before rest, root.events = before ++ d.events ++ rest →
        (ScopeBuilder.after root (before ++ d.events)).stack =
          (ScopeBuilder.after root before).stack) ∧
      ((build root).run empty).state.Lexical root := by
  obtain ⟨hOk, hState⟩ := build_spec hReads
  refine ⟨hOk, hState, fun d hd => ?_, fun d before rest hEvents => ?_, ?_⟩
  · obtain ⟨before, rest, hEvents, -⟩ :=
      Shape.exists_ready hKeys (Shape.ready_start root) hd
    exact ⟨before, rest, hEvents⟩
  · exact ScopeBuilder.stack_after hKeys hReads hEvents
  · exact hState ▸ (finished_build hKeys hReads).lexical hKeys

/-- The sample with a helper whose name cannot be read, so that it opens no scope. -/
def Cursor.oddSample : Cursor := .sample (.fails ⟨.badValue, "unreadable"⟩)

theorem ScopeTable.build_lexical_oddSample :
    Cursor.oddSample.DistinctKeys ∧
      Cursor.oddSample.ReadsFailOnly (fun fault => fault.absorbed = true) ∧
      ¬ Cursor.oddSample.FaultFree ∧
      ((build .oddSample).run empty).result = .ok () ∧
      (∀ d ∈ Cursor.oddSample.preorder, ∃ before rest,
        Cursor.oddSample.events = before ++ d.events ++ rest ∧
          (ScopeBuilder.after .oddSample (before ++ d.events)).stack =
            (ScopeBuilder.after .oddSample before).stack) ∧
      ((build .oddSample).run empty).state.Lexical .oddSample := by
  have hKeys : Cursor.oddSample.DistinctKeys := by decide +kernel
  have hReads : Cursor.oddSample.ReadsFailOnly fun fault => fault.absorbed = true := by
    decide +kernel
  obtain ⟨hOk, -, hMet, hStack, hLexical⟩ := build_lexical _ hKeys hReads
  refine ⟨hKeys, hReads, by decide +kernel, hOk, fun d hd => ?_, hLexical⟩
  obtain ⟨before, rest, hEvents⟩ := hMet d hd
  exact ⟨before, rest, hEvents, hStack d before rest hEvents⟩

end HotPath
