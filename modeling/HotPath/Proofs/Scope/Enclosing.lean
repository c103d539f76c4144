import HotPath.Proofs.Scope.Visible

/-! Scopes inside one another. The chain of a scope goes on with the chain of every scope in it, and
no scope comes twice. So a name that is looked up from an inner scope means what it means further
out if and only if no scope in between tells about it. -/

namespace HotPath

namespace Cursor

/-- The nodes that a node lies in are around it. -/
theorem mem_outward_of_mem_preorder {root n m : Cursor} (hm : m ∈ root.preorder)
    (hn : n ∈ m.preorder) : m ∈ n.outward root := by
  refine preorder_induction (P := fun n => m ∈ n.outward root) ?_ (fun c hc ih d hd => ?_) hn
  · rw [outward_eq_cons hm]
    exact List.mem_cons_self
  · rw [outward_of_mem_children (mem_preorder_trans hc hm) hd]
    exact List.mem_cons_of_mem d ih

theorem drop_outward_of_mem_children {root c d : Cursor} (hc : c ∈ root.preorder)
    (hd : d ∈ c.children) : (d.outward root).drop 1 = c.outward root := by
  rw [outward_of_mem_children hc hd]
  rfl

theorem opener?_outward_of_none {root n : Cursor} (hn : n ∈ root.preorder)
    (h : n.opens? = none) : opener? (n.outward root) = opener? ((n.outward root).drop 1) := by
  conv_lhs => rw [outward_eq_cons hn, opener?_cons_of_none h]

theorem some_mem_owners {nodes : List Cursor} {m : Cursor} {kind : ScopeKind} (hm : m ∈ nodes)
    (hOpens : m.opens? = some kind) : some m ∈ owners nodes := by
  apply List.mem_append_left
  exact List.mem_map_of_mem (List.mem_filter.2 ⟨hm, by simp [hOpens]⟩)

theorem none_mem_owners (nodes : List Cursor) : none ∈ owners nodes :=
  List.mem_append_right _ List.mem_cons_self

end Cursor

namespace ScopeTable

open Cursor

variable {t : ScopeTable} {root n : Cursor}

namespace Lexical

/-- An owner has one scope. -/
theorem eq_of_openedBy (h : t.Lexical root) (hKeys : root.DistinctKeys) {i j : Nat}
    {owner : Option Cursor} (hi : t.OpenedBy i owner) (hj : t.OpenedBy j owner) : i = j := by
  cases owner with
  | none => exact Eq.trans hi (Eq.symm hj)
  | some m =>
      obtain ⟨hi, x, hx, rfl, -⟩ := hi
      obtain ⟨hj, y, hy, hNode, -⟩ := hj
      exact eq_of_node_eq h.opened hKeys hi hj hx hy hNode.symm

/-- A scope stands alone or lies in another one. -/
theorem chain_cases (h : t.Lexical root) {i : Nat} {s : Scope} (hs : t.scope? i = some s) :
    t.chain i = [i] ∨ ∃ p, t.chain i = i :: t.chain p := by
  rcases Nat.eq_zero_or_pos i with rfl | hi
  · obtain ⟨s, hs, -, -, hOuter⟩ := h.program
    exact .inl (by simp [chain, show t.scope? 0 = some s from hs, hOuter])
  · obtain ⟨-, p, -, hOuter⟩ := h.parent i s hi hs
    exact .inr ⟨p, by simp [chain, hs, hOuter]⟩

/-- What holds of scopes that stand alone, and of a scope if it holds of the next one around it,
holds of every scope. -/
theorem chain_induction (h : t.Lexical root) {P : Nat → Prop} (hNone : ∀ i, t.chain i = [] → P i)
    (hAlone : ∀ i, t.chain i = [i] → P i)
    (hInside : ∀ i p, t.chain i = i :: t.chain p → P p → P i) (i : Nat) : P i := by
  induction hLength : (t.chain i).length using Nat.strong_induction_on generalizing i with
  | h length ih =>
      cases hs : t.scope? i with
      | none => exact hNone i (by simp [chain, hs])
      | some s =>
          rcases h.chain_cases hs with hChain | ⟨p, hChain⟩
          · exact hAlone i hChain
          · have hShorter : (t.chain p).length < length := by
              rw [← hLength, hChain, List.length_cons]
              exact Nat.lt_succ_self _
            exact hInside i p hChain (ih _ hShorter p rfl)

/-- What follows a scope in a chain is around that scope in its own chain too. -/
theorem chain_of_split (h : t.Lexical root) {i j : Nat} {before after : List Nat}
    (hSplit : t.chain i = before ++ j :: after) : t.chain j = j :: after := by
  revert before
  refine h.chain_induction
    (P := fun i => ∀ {before}, t.chain i = before ++ j :: after → t.chain j = j :: after)
    (fun i hChain before hSplit => ?_) (fun i hChain before hSplit => ?_)
    (fun i p hChain ih before hSplit => ?_) i
  · simp [hChain] at hSplit
  · cases before with
    | nil =>
        cases hChain.symm.trans hSplit
        exact hChain
    | cons k before => simp [hChain] at hSplit
  · cases before with
    | nil =>
        obtain rfl : i = j := (List.cons.inj (hChain.symm.trans hSplit)).1
        exact hSplit
    | cons k before => exact ih (List.cons.inj (hChain.symm.trans hSplit)).2

/-- No scope comes twice in a chain. -/
theorem nodup_chain (h : t.Lexical root) (i : Nat) : (t.chain i).Nodup := by
  refine h.chain_induction (P := fun i => (t.chain i).Nodup) (fun i hChain => ?_)
    (fun i hChain => ?_) (fun i p hChain ih => ?_) i
  · rw [hChain]
    exact List.nodup_nil
  · rw [hChain]
    exact List.nodup_singleton i
  · rw [hChain, List.nodup_cons]
    refine ⟨fun hi => ?_, ih⟩
    -- Else the chain of `p` would hold that of `i`, which is longer.
    obtain ⟨before, after, hSplit⟩ := List.append_of_mem hi
    have hLonger := (h.chain_of_split hSplit).symm.trans hChain
    rw [(List.cons.inj hLonger).2] at hSplit
    have hLength := congrArg List.length hSplit
    rw [List.length_append, List.length_cons] at hLength
    omega

/-- The node of a scope is one of the tree. -/
theorem node_mem (h : t.Lexical root) {i : Nat} {s : Scope} (hs : t.scope? i = some s) :
    s.node ∈ root.preorder := by
  rcases Nat.eq_zero_or_pos i with rfl | hi
  · obtain ⟨s', hs', -, hNode, -⟩ := h.program
    cases hs.symm.trans hs'
    exact hNode ▸ root.mem_preorder_self
  · have hOpened : s.node ∈ (t.scopes.drop 1).map (·.node) :=
      List.mem_map_of_mem (List.mem_of_getElem? (getElem?_drop_scopes hi hs))
    rw [h.opened] at hOpened
    exact (List.mem_filter.1 hOpened).1

/-- A scope is in effect at the nodes inside its own node. -/
theorem mem_chain_iff (h : t.Lexical root) (hKeys : root.DistinctKeys) (hn : n ∈ root.preorder)
    {i : Nat} {s : Scope} (hs : t.scope? i = some s) :
    i ∈ t.chain (t.scopeFor n) ↔ n ∈ s.node.preorder := by
  constructor
  · intro hi
    obtain ⟨s', hs', hMem⟩ := h.exists_scope_around hn hi
    cases hs.symm.trans hs'
    exact hMem
  · intro hMem
    obtain ⟨owner, hOwner, hOpened⟩ : ∃ owner ∈ owners (n.outward root), t.OpenedBy i owner := by
      rcases Nat.eq_zero_or_pos i with rfl | hi
      · exact ⟨none, none_mem_owners _, rfl⟩
      · obtain ⟨hOpens, -⟩ := h.parent i s hi hs
        have hAround := mem_outward_of_mem_preorder (h.node_mem hs) hMem
        exact ⟨some s.node, some_mem_owners hAround hOpens, hi, s, hs, rfl, hOpens⟩
    obtain ⟨j, hj, hSame⟩ :=
      exists_mem_of_forall₂ (h.chain_owners hn (h.placed n hn)).flip hOwner
    exact h.eq_of_openedBy hKeys hSame hOpened ▸ hj

/-- A node declares around itself into the innermost scope, or into the nearest function or program
if it is hoisted. -/
theorem scope_of_home (h : t.Lexical root) (hKeys : root.DistinctKeys) (hn : n ∈ root.preorder)
    {i j : Nat} (hi : t.OpenedBy i (opener? ((n.outward root).drop 1)))
    (hj : t.OpenedBy j (n.home? root)) :
    (n.isHoisted = true → t.nearest? [.function, .program] i = some j) ∧
      (n.isHoisted = false → j = i) := by
  unfold home? at hj
  cases hHoisted : n.isHoisted with
  | true =>
      rw [hHoisted, if_pos rfl] at hj
      obtain ⟨k, hNearest, hk⟩ := h.exists_nearest (h.chain_around hn hi)
      obtain rfl := h.eq_of_openedBy hKeys hk hj
      exact ⟨fun _ => hNearest, nofun⟩
  | false =>
      rw [hHoisted, if_neg Bool.false_ne_true] at hj
      exact ⟨nofun, fun _ => h.eq_of_openedBy hKeys hj hi⟩

/-- The chain goes on from the nearest scope of some kinds. -/
theorem exists_chain_eq_of_nearest? (h : t.Lexical root) {kinds : List ScopeKind} {i j : Nat}
    (hj : t.nearest? kinds i = some j) : ∃ inner, t.chain i = inner ++ t.chain j := by
  obtain ⟨before, after, hSplit⟩ := List.append_of_mem (List.mem_of_find?_eq_some hj)
  exact ⟨before, by rw [hSplit, h.chain_of_split hSplit]⟩

end Lexical

namespace Indexed

/-- A name means the same in two scopes, one inside the other, if and only if the scopes in between
are silent about it. -/
theorem resolve_eq_iff_silent (h : t.Indexed) {name : String} {n m : Nat} {inner : List Nat}
    (hNodup : (t.chain n).Nodup) (hChain : t.chain n = inner ++ t.chain m) :
    t.resolve name n false = t.resolve name m false ↔ ∀ i ∈ inner, t.Silent name i := by
  constructor
  · intro hSame
    cases hFound : t.resolve name n false with
    | none =>
        intro i hi
        exact h.resolve_eq_none_iff.1 hFound i (hChain ▸ List.mem_append_left _ hi)
    | some x =>
        -- The scope of the binding is further out, and all scopes before it are silent.
        obtain ⟨between, outer, hOuter, -⟩ := h.resolve_eq_some_iff.1 (hSame.symm.trans hFound)
        obtain ⟨before, after, hSplit, -, -, hBefore⟩ := h.resolve_eq_some_iff.1 hFound
        have hFar : x.scope ∉ inner := by
          rw [hChain, hOuter] at hNodup
          intro hNear
          exact (List.nodup_append.1 hNodup).2.2 _ hNear _ (by simp) rfl
        intro i hi
        apply hBefore i
        rw [hChain] at hSplit
        rcases List.append_eq_append_iff.1 hSplit with ⟨rest, rfl, -⟩ | ⟨rest, rfl, hRest⟩
        · exact List.mem_append_left rest hi
        · cases rest with
          | nil => simpa using hi
          | cons j rest =>
              cases hRest
              exact absurd (List.mem_append_right before List.mem_cons_self) hFar
  · intro hSilent
    have hInner : (inner.findSome? fun i =>
        (t.localBinding? i name).filter fun b => false || !b.kind.isMethod) = none := by
      rw [List.findSome?_eq_none_iff]
      intro i hi
      rw [h.localBinding?_eq]
      exact filter_lastDeclared?_eq_none_iff.2 (hSilent i hi)
    rw [resolve, resolve, hChain, List.findSome?_append, hInner, Option.none_or]

/-- Where a scope tells about a name, the name refers to a binding of that scope or of one further
inside. -/
theorem exists_resolve_of_not_silent (h : t.Indexed) {name : String} {n i : Nat}
    {inner outer : List Nat} (hChain : t.chain n = inner ++ i :: outer)
    (hTold : ¬ t.Silent name i) :
    ∃ y, t.resolve name n false = some y ∧ (y.scope ∈ inner ∨ y.scope = i) := by
  cases hFound : t.resolve name n false with
  | none => exact absurd (h.resolve_eq_none_iff.1 hFound i (by simp [hChain])) hTold
  | some y =>
      refine ⟨y, rfl, ?_⟩
      obtain ⟨before, after, hSplit, -, -, hBefore⟩ := h.resolve_eq_some_iff.1 hFound
      rw [hChain] at hSplit
      rcases List.append_eq_append_iff.1 hSplit with ⟨rest, rfl, hRest⟩ | ⟨rest, rfl, hRest⟩
      · cases rest with
        | nil => exact .inr (List.cons.inj hRest).1.symm
        | cons j rest =>
            obtain rfl : i = j := (List.cons.inj hRest).1
            exact absurd (hBefore i (by simp)) hTold
      · cases rest with
        | nil => exact .inr (List.cons.inj hRest).1
        | cons j rest =>
            obtain rfl : y.scope = j := (List.cons.inj hRest).1
            exact .inl (by simp)

end Indexed

/-- The table that is built from a tree without faults agrees with the text and is indexed. -/
theorem build_sound (hKeys : root.DistinctKeys) (hFree : root.FaultFree) :
    let t := (ScopeBuilder.after root root.events).table
    (build root).Yields empty () t ∧ t.Lexical root ∧ t.Indexed := by
  have hReads := hFree.reads fun fault => fault.absorbed = true
  obtain ⟨hOk, hState⟩ := build_spec hReads
  exact ⟨⟨hOk, hState⟩, (finished_build hKeys hReads).lexical hKeys,
    indexed_after hFree fun _ => mem_preorder_of_mem_events⟩

end ScopeTable

end HotPath
