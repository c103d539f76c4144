import HotPath.Proofs.Heat.Scanned
import Mathlib.Order.Bounds.Basic
import Mathlib.Order.Lattice.Nat

/-! Which functions are hot. Scanning is compared with the least number of invocations that lead
from a root to a function: every scanned function is reached by as many invocations as its depth
says, and whatever is reached within the limit lies in a body that was scanned no deeper. -/

namespace HotPath

/-- Some call in the body of a function, or of a function inside it, invokes another function. -/
def ScopeTable.Invokes (t : ScopeTable) (f g : Cursor) : Prop :=
  ∃ c ∈ f.bodyNodes, c.isCall = true ∧
    ∃ b, t.resolveCallee c = .ok (some b) ∧ b.target? = some g

namespace Heat

/-- So many invocations lead from a root to a function. -/
inductive Reached (t : ScopeTable) (roots : List Root) : Nat → Cursor → Prop
  | root {r : Root} (hr : r ∈ roots) : Reached t roots 0 r.function
  | call {n : Nat} {f g : Cursor} (hf : Reached t roots n f) (hCall : t.Invokes f g) :
      Reached t roots (n + 1) g

/-- The least number of invocations that lead from a root to a function. -/
def Distance (t : ScopeTable) (roots : List Root) (f : Cursor) (n : Nat) : Prop :=
  IsLeast {n | Reached t roots n f} n

/-- A node lies in the body of a function at a distance within the limit. -/
def Hot (t : ScopeTable) (roots : List Root) (limit : Int) (c : Cursor) (n : Nat) : Prop :=
  ∃ f, Distance t roots f n ∧ (n : Int) ≤ limit ∧ c ∈ f.bodyNodes

variable {t : ScopeTable} {limit : Int} {roots : List Root}

theorem exists_mem_callsIn_iff {f g : Cursor} :
    (∃ call ∈ callsIn t f, call.target = g) ↔ t.Invokes f g := by
  constructor
  · rintro ⟨call, hCall, rfl⟩
    obtain ⟨c, hc, hAt⟩ := List.mem_filterMap.1 hCall
    obtain ⟨hIsCall, b, f, hResolve, hTarget, rfl⟩ := callAt_eq_some_iff.1 hAt
    exact ⟨c, hc, hIsCall, b, hResolve, hTarget⟩
  · rintro ⟨c, hc, hIsCall, b, hResolve, hTarget⟩
    refine ⟨⟨c, b.name, g⟩, List.mem_filterMap.2 ⟨c, hc, ?_⟩, rfl⟩
    exact callAt_eq_some_iff.2 ⟨hIsCall, b, g, hResolve, hTarget, rfl⟩

/-- A function that is reached has a distance. -/
theorem Reached.exists_distance {n : Nat} {f : Cursor} (h : Reached t roots n f) :
    ∃ k ≤ n, Distance t roots f k := by
  classical
  have hSome : ∃ n, Reached t roots n f := ⟨n, h⟩
  refine ⟨Nat.find hSome, Nat.find_min' hSome h, Nat.find_spec hSome, ?_⟩
  exact fun k hk => Nat.find_min' hSome hk

/-- What is hot at depth zero are the bodies of the roots. -/
theorem hot_zero_iff {c : Cursor} (hLimit : 0 ≤ limit) :
    Hot t roots limit c 0 ↔ ∃ r ∈ roots, c ∈ r.function.bodyNodes := by
  constructor
  · rintro ⟨f, ⟨hReached, -⟩, -, hc⟩
    cases hReached with
    | root hr => exact ⟨_, hr, hc⟩
  · rintro ⟨r, hr, hc⟩
    exact ⟨r.function, ⟨.root hr, fun k _ => Nat.zero_le k⟩, hLimit, hc⟩

/-- All functions that are roots or have a name are nodes of one tree with distinct keys. -/
structure Confined (root : Cursor) (t : ScopeTable) (roots : List Root) : Prop where
  keys : root.DistinctKeys
  targets : ∀ b ∈ t.bindings, ∀ f, b.target? = some f → f ∈ root.preorder
  roots : ∀ r ∈ roots, r.function ∈ root.preorder

/-- What is reached is a root or has a name, so it lies in the tree in which these lie. -/
theorem Reached.mem_preorder {root : Cursor} {n : Nat} {f : Cursor} (h : Reached t roots n f)
    (hTargets : ∀ b ∈ t.bindings, ∀ f, b.target? = some f → f ∈ root.preorder)
    (hRoots : ∀ r ∈ roots, r.function ∈ root.preorder) : f ∈ root.preorder := by
  cases h with
  | root hr => exact hRoots _ hr
  | call hf hCall =>
      obtain ⟨c, -, -, b, hResolve, hTarget⟩ := hCall
      exact hTargets b (ScopeTable.resolveCallee_mem hResolve) f hTarget

namespace Explored

variable {root : Cursor} {s : Stage}

/-- Whatever was queued is reached by as many invocations as its depth says. -/
theorem reached (hs : Explored t limit roots s) {n : Nat} {e : Cursor × Int} (he : e ∈ s.entries)
    (hDepth : e.2 = n) : Reached t roots n e.1 := by
  induction n generalizing e with
  | zero =>
      rcases hs.origin e he with ⟨-, r, hr, hRoot⟩ | ⟨caller, hc, hLeads⟩
      · exact hRoot ▸ .root hr
      · have := hs.nonneg caller (List.mem_append_left _ hc)
        have := hLeads.depth_eq
        omega
  | succ n ih =>
      rcases hs.origin e he with ⟨hZero, -⟩ | ⟨caller, hc, hLeads⟩
      · omega
      · have := hLeads.depth_eq
        exact .call (ih (List.mem_append_left _ hc) (by omega))
          (exists_mem_callsIn_iff.1 hLeads.called)

theorem mem_preorder (hs : Explored t limit roots s) (hTree : Confined root t roots)
    {e : Cursor × Int} (he : e ∈ s.entries) : e.1 ∈ root.preorder := by
  obtain ⟨n, hn⟩ := Int.eq_ofNat_of_zero_le (hs.nonneg e he)
  exact (hs.reached he hn).mem_preorder hTree.targets hTree.roots

/-- The mark of a function of the tree is on that function. -/
theorem node_eq (hs : Explored t limit roots s) (hTree : Confined root t roots) {f : Cursor}
    (hf : f ∈ root.preorder) {m : Mark} (hm : s.heat.functions.get? f.key = some m) :
    m.node = f := by
  obtain ⟨hKey, hEntry | ⟨e, he, hInner, -⟩⟩ := hs.reason f.key m hm
  · exact hTree.keys.eq_of_key_eq (hs.mem_preorder hTree hEntry) hf hKey
  · apply hTree.keys.eq_of_key_eq _ hf hKey
    apply Cursor.mem_preorder_trans _ (hs.mem_preorder hTree (List.mem_append_left _ he))
    exact Cursor.mem_preorder_of_mem_bodyNodes (Cursor.mem_bodyNodes_of_mem_innerFunctions hInner)

/-- The body of a marked function lies in a body that was scanned no deeper than the mark says, once
nothing waits at such a depth. -/
theorem exists_scanned_of_within (hs : Explored t limit roots s) (hTree : Confined root t roots)
    {f : Cursor} (hf : f ∈ root.preorder) {depth : Int} (hPassed : ∀ e ∈ s.queue, depth < e.2)
    (hMark : s.heat.functions.Within f.key depth) :
    ∃ e ∈ s.scanned, e.2 ≤ depth ∧ f.bodyNodes ⊆ e.1.bodyNodes := by
  obtain ⟨m, hm, hDepth⟩ := hMark
  obtain rfl := hs.node_eq hTree hf hm
  obtain ⟨-, hEntry | ⟨e, he, hInner, hSame⟩⟩ := hs.reason _ m hm
  · rcases List.mem_append.1 hEntry with hScanned | hQueue
    · exact ⟨_, hScanned, hDepth, List.Subset.refl _⟩
    · have := hPassed _ hQueue
      simp only at this
      omega
  · exact ⟨e, he, hSame ▸ hDepth,
      Cursor.bodyNodes_subset_of_mem (Cursor.mem_bodyNodes_of_mem_innerFunctions hInner)⟩

/-- Whatever is reached within the limit is marked no deeper, once nothing waits at a smaller depth.
A root is marked whatever the limit. -/
theorem within_of_reached (hs : Explored t limit roots s) (hTree : Confined root t roots) {n : Nat}
    {f : Cursor} (hReached : Reached t roots n f) (hLimit : (n : Int) ≤ max limit 0)
    (hPassed : ∀ e ∈ s.queue, (n : Int) ≤ e.2) : s.heat.functions.Within f.key n := by
  induction hReached with
  | root hr => exact hs.root_marked _ hr
  | @call n f g hf hCall ih =>
      have hEarlier : ∀ e ∈ s.queue, (n : Int) < e.2 := fun e he => by
        have := hPassed e he
        omega
      have hWithin := ih (by omega) fun e he => (hEarlier e he).le
      obtain ⟨e, he, hDepth, hBody⟩ :=
        hs.exists_scanned_of_within hTree (hf.mem_preorder hTree.targets hTree.roots) hEarlier
          hWithin
      obtain ⟨c, hc, hResolved⟩ := hCall
      obtain ⟨call, hMem, rfl⟩ := exists_mem_callsIn_iff.2 ⟨c, hBody hc, hResolved⟩
      exact (hs.call_marked e he (by omega) call hMem).mono (by omega)

/-- Whatever is reached within the limit lies in a body that was scanned no deeper. A function that
was never queued because its own body lay inside another one is covered by that one. -/
theorem exists_scanned_of_reached (hs : Explored t limit roots s) (hTree : Confined root t roots)
    {n : Nat} {f : Cursor} (hReached : Reached t roots n f) (hLimit : (n : Int) ≤ max limit 0)
    (hPassed : ∀ e ∈ s.queue, (n : Int) < e.2) :
    ∃ e ∈ s.scanned, e.2 ≤ n ∧ f.bodyNodes ⊆ e.1.bodyNodes :=
  hs.exists_scanned_of_within hTree (hReached.mem_preorder hTree.targets hTree.roots) hPassed
    (hs.within_of_reached hTree hReached hLimit fun e he => (hPassed e he).le)

end Explored

namespace Settled

variable {root : Cursor} {h : Heat} {scanned : Queue}

/-- A hot node is marked, no deeper than it is hot. -/
theorem within_of_hot (hs : Settled t limit roots h scanned) (hTree : Confined root t roots)
    {c : Cursor} {n : Nat} (hHot : Hot t roots limit c n) : h.nodes.Within c.key n := by
  obtain ⟨f, hDistance, hLimit, hc⟩ := hHot
  obtain ⟨e, he, hDepth, hBody⟩ :=
    hs.explored.exists_scanned_of_reached hTree hDistance.1 (by omega) (by simp)
  rw [hs.nodes_eq]
  exact (within_spread he (hBody hc)).mono hDepth

/-- Only nodes of the tree are marked, under their own keys. -/
theorem inside (hs : Settled t limit roots h scanned) (hTree : Confined root t roots) {k : Key}
    {m : Mark} (hm : h.nodes.get? k = some m) :
    m.node ∈ root.preorder ∧ m.node.key = k := by
  rw [hs.nodes_eq] at hm
  obtain ⟨e, he, hNode, -⟩ := exists_of_get?_spread hm
  exact ⟨Cursor.mem_preorder_trans (Cursor.mem_preorder_of_mem_bodyNodes hNode)
    (hs.explored.mem_preorder hTree (mem_entries e he)), (keyed_spread scanned).key_eq hm⟩

theorem node_eq_of_markOf? (hs : Settled t limit roots h scanned) (hTree : Confined root t roots)
    {c : Cursor} (hc : c ∈ root.preorder) {m : Mark} (hm : h.nodes.markOf? c = some m) :
    m.node = c := by
  obtain ⟨hNode, hKey⟩ := hs.inside hTree hm
  exact hTree.keys.eq_of_key_eq hNode hc hKey

/-- The depth of a mark is the least distance of a function around the node. -/
theorem isLeast_hot (hs : Settled t limit roots h scanned) (hTree : Confined root t roots)
    (hLimit : 0 ≤ limit) {c : Cursor} (hc : c ∈ root.preorder) {m : Mark}
    (hm : h.nodes.markOf? c = some m) :
    ∃ n : Nat, m.depth = n ∧ IsLeast {n | Hot t roots limit c n} n := by
  have hLeast : ∀ k, Hot t roots limit c k → m.depth ≤ k := by
    intro k hk
    obtain ⟨m', hm', hDepth⟩ := hs.within_of_hot hTree hk
    cases hm.symm.trans hm'
    exact hDepth
  have hNode := hs.node_eq_of_markOf? hTree hc hm
  unfold MarkTable.markOf? at hm
  rw [hs.nodes_eq] at hm
  obtain ⟨e, he, hBody, hDepth, -⟩ := exists_of_get?_spread hm
  obtain ⟨n, hn⟩ := Int.eq_ofNat_of_zero_le (hs.explored.nonneg e (mem_entries e he))
  obtain ⟨k, hk, hDistance⟩ := (hs.explored.reached (mem_entries e he) hn).exists_distance
  have hWithin := hs.depth_le hLimit he
  have hHot : Hot t roots limit c k := ⟨e.1, hDistance, by omega, hNode ▸ hBody⟩
  have hSame : m.depth = k := by
    have := hLeast k hHot
    omega
  refine ⟨k, hSame, hHot, fun k' hk' => ?_⟩
  have := hLeast k' hk'
  omega

/-- A node of the tree is marked if and only if it is hot. -/
theorem exists_markOf?_iff (hs : Settled t limit roots h scanned) (hTree : Confined root t roots)
    (hLimit : 0 ≤ limit) {c : Cursor} (hc : c ∈ root.preorder) :
    (∃ m, h.nodes.markOf? c = some m) ↔ ∃ n, Hot t roots limit c n := by
  constructor
  · rintro ⟨m, hm⟩
    obtain ⟨n, -, hHot, -⟩ := hs.isLeast_hot hTree hLimit hc hm
    exact ⟨n, hHot⟩
  · rintro ⟨n, hHot⟩
    obtain ⟨m, hm, -⟩ := hs.within_of_hot hTree hHot
    exact ⟨m, hm⟩

end Settled

end Heat

end HotPath
