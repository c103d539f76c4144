import HotPath.Proofs.Scope.Lexical

/-! Chains of scopes. In a table that agrees with the text, the chain of the scope that a node lies
in holds the scopes of the nodes around it that open one, from the inside out, and last that of the
program. -/

namespace HotPath

namespace Cursor

/-- What the scopes around a node belong to, from the inside out: to the nodes that open them, and
the last one to the program, which has no node of its own. -/
def owners (nodes : List Cursor) : List (Option Cursor) :=
  (nodes.filter (·.opens?.isSome)).map some ++ [none]

/-- The kind of a scope by its owner. -/
def ownerKind? : Option Cursor → Option ScopeKind
  | none => some .program
  | some m => m.opens?

/-- The owner of the nearest scope of a function, or of the program. -/
def functionOwner? (nodes : List Cursor) : Option Cursor :=
  nodes.find? (·.opens? = some .function)

theorem owners_cons_of_none {c : Cursor} (h : c.opens? = none) (nodes : List Cursor) :
    owners (c :: nodes) = owners nodes := by
  simp [owners, h]

theorem owners_cons_of_some {c : Cursor} {kind : ScopeKind} (h : c.opens? = some kind)
    (nodes : List Cursor) : owners (c :: nodes) = some c :: owners nodes := by
  simp [owners, h]

theorem opener?_cons_of_none {c : Cursor} (h : c.opens? = none) (nodes : List Cursor) :
    opener? (c :: nodes) = opener? nodes := by
  simp [opener?, h]

theorem opener?_cons_of_some {c : Cursor} {kind : ScopeKind} (h : c.opens? = some kind)
    (nodes : List Cursor) : opener? (c :: nodes) = some c := by
  simp [opener?, h]

/-- No node opens the scope of the program. -/
theorem opens?_ne_program (c : Cursor) : c.opens? ≠ some .program := by
  unfold opens?
  split
  · split <;> simp
  · split
    · simp
    · split <;> simp

theorem find?_owners (nodes : List Cursor) :
    (owners nodes).find? (fun o => (ownerKind? o).any [.function, .program].contains) =
      some (functionOwner? nodes) := by
  induction nodes with
  | nil => rfl
  | cons c rest ih =>
      unfold functionOwner? at ih ⊢
      cases hOpens : c.opens? with
      | none =>
          rw [owners_cons_of_none hOpens, ih, List.find?_cons_of_neg]
          simp [hOpens]
      | some kind =>
          rw [owners_cons_of_some hOpens]
          cases kind with
          | program => exact absurd hOpens c.opens?_ne_program
          | function => simp [ownerKind?, hOpens]
          | classBody => simpa [ownerKind?, hOpens] using ih
          | block => simpa [ownerKind?, hOpens] using ih

theorem outward_eq_cons {root n : Cursor} (hn : n ∈ root.preorder) :
    n.outward root = n :: (n.outward root).drop 1 := by
  refine preorder_induction (P := fun n => n.outward root = n :: (n.outward root).drop 1)
    ?_ (fun c hc _ d hd => ?_) hn
  · rw [outward_self]
    rfl
  · rw [outward_of_mem_children hc hd]
    rfl

/-- A node lies in the subtrees of the nodes around it. -/
theorem mem_preorder_of_mem_outward {root n m : Cursor} (hn : n ∈ root.preorder)
    (hm : m ∈ n.outward root) : n ∈ m.preorder := by
  revert hm
  refine preorder_induction (P := fun n => m ∈ n.outward root → n ∈ m.preorder)
    (fun hm => ?_) (fun c hc ih d hd hm => ?_) hn
  · rw [outward_self, List.mem_singleton] at hm
    exact hm ▸ root.mem_preorder_self
  · rw [outward_of_mem_children hc hd, List.mem_cons] at hm
    rcases hm with rfl | hm
    · exact m.mem_preorder_self
    · exact mem_preorder_trans (mem_preorder_of_mem_children hd) (ih hm)

end Cursor

namespace ScopeTable

open Cursor

variable {t : ScopeTable} {root n : Cursor}

/-- A search in one of two lists that correspond finds what corresponds. -/
theorem exists_find?_of_forall₂ {α β : Type} {R : α → β → Prop} {l : List α} {l' : List β}
    (h : List.Forall₂ R l l') {p : α → Bool} {q : β → Bool} (hSame : ∀ a b, R a b → p a = q b)
    {b : β} (hb : l'.find? q = some b) : ∃ a, l.find? p = some a ∧ R a b := by
  induction h with
  | nil => cases hb
  | @cons x y l l' hxy _ ih =>
      rw [List.find?_cons] at hb ⊢
      rw [hSame x y hxy]
      cases hq : q y with
      | true =>
          rw [hq] at hb
          cases hb
          exact ⟨x, rfl, hxy⟩
      | false =>
          rw [hq] at hb
          exact ih hb

theorem exists_mem_of_forall₂ {α β : Type} {R : α → β → Prop} {l : List α} {l' : List β}
    (h : List.Forall₂ R l l') {a : α} (ha : a ∈ l) : ∃ b ∈ l', R a b := by
  induction h with
  | nil => cases ha
  | @cons x y l l' hxy _ ih =>
      rcases List.mem_cons.1 ha with rfl | ha
      · exact ⟨y, List.mem_cons_self, hxy⟩
      · obtain ⟨b, hb, hab⟩ := ih ha
        exact ⟨b, List.mem_cons_of_mem y hb, hab⟩

namespace Lexical

/-- A scope has the kind that its owner gives it. -/
theorem kind_eq (h : t.Lexical root) {i : Nat} {owner : Option Cursor}
    (hi : t.OpenedBy i owner) : (t.scope? i).map (·.kind) = ownerKind? owner := by
  cases owner with
  | none =>
      obtain ⟨s, hScope, hKind, -⟩ := h.program
      obtain rfl : i = rootScope := hi
      rw [hScope, Option.map_some, hKind]
      rfl
  | some m =>
      obtain ⟨-, s, hScope, -, hKind⟩ := hi
      rw [hScope, Option.map_some]
      exact hKind.symm

/-- One step outward: if the scopes around a node are as the text says, so are those inside. -/
theorem chain_cons (h : t.Lexical root) {nodes : List Cursor}
    (hNodes : n.outward root = n :: nodes)
    (hAround : ∀ p, t.OpenedBy p (opener? nodes) →
      List.Forall₂ t.OpenedBy (t.chain p) (owners nodes))
    {i : Nat} (hi : t.OpenedBy i (opener? (n :: nodes))) :
    List.Forall₂ t.OpenedBy (t.chain i) (owners (n :: nodes)) := by
  cases hOpens : n.opens? with
  | none =>
      rw [opener?_cons_of_none hOpens] at hi
      rw [owners_cons_of_none hOpens]
      exact hAround i hi
  | some kind =>
      rw [opener?_cons_of_some hOpens] at hi
      rw [owners_cons_of_some hOpens]
      obtain ⟨hPos, s, hScope, hNode, -⟩ := id hi
      obtain ⟨-, p, hp, hOuter⟩ := h.parent i s hPos hScope
      rw [hNode, hNodes] at hp
      rw [chain, hScope]
      exact .cons hi (hOuter ▸ hAround p hp)

/-- The chain of the innermost scope around a node belongs to the nodes around it, from the inside
out, and last to the program. -/
theorem chain_around (h : t.Lexical root) (hn : n ∈ root.preorder) {i : Nat}
    (hi : t.OpenedBy i (opener? ((n.outward root).drop 1))) :
    List.Forall₂ t.OpenedBy (t.chain i) (owners ((n.outward root).drop 1)) := by
  revert i
  refine preorder_induction (P := fun n => ∀ {i},
    t.OpenedBy i (opener? ((n.outward root).drop 1)) →
      List.Forall₂ t.OpenedBy (t.chain i) (owners ((n.outward root).drop 1)))
    (fun hi => ?_) (fun c hc ih d hd i hi => ?_) hn
  · rw [outward_self] at hi ⊢
    obtain ⟨s, hScope, -, -, hOuter⟩ := h.program
    obtain rfl : _ = rootScope := hi
    have hChain : t.chain rootScope = [rootScope] := by simp [chain, hScope, hOuter]
    rw [hChain]
    exact .cons rfl .nil
  · have hOutward : (d.outward root).drop 1 = c :: (c.outward root).drop 1 := by
      rw [outward_of_mem_children hc hd, List.drop_one, List.tail_cons, ← outward_eq_cons hc]
    rw [hOutward] at hi ⊢
    exact h.chain_cons (outward_eq_cons hc) (fun p hp => ih hp) hi

/-- So does the chain of the scope that the node lies in, which may be its own. -/
theorem chain_owners (h : t.Lexical root) (hn : n ∈ root.preorder) {i : Nat}
    (hi : t.OpenedBy i (opener? (n.outward root))) :
    List.Forall₂ t.OpenedBy (t.chain i) (owners (n.outward root)) := by
  rw [outward_eq_cons hn] at hi ⊢
  exact h.chain_cons (outward_eq_cons hn) (fun p hp => h.chain_around hn hp) hi

/-- The scopes of the chain of a node belong to nodes around it. -/
theorem exists_scope_around (h : t.Lexical root) (hn : n ∈ root.preorder) {i : Nat}
    (hi : i ∈ t.chain (t.scopeFor n)) : ∃ s, t.scope? i = some s ∧ n ∈ s.node.preorder := by
  obtain ⟨owner, hOwner, hOpened⟩ :=
    exists_mem_of_forall₂ (h.chain_owners hn (h.placed n hn)) hi
  cases owner with
  | none =>
      obtain ⟨s, hScope, -, hNode, -⟩ := h.program
      obtain rfl : i = rootScope := hOpened
      exact ⟨s, hScope, hNode ▸ hn⟩
  | some m =>
      obtain ⟨-, s, hScope, rfl, -⟩ := hOpened
      have hAround : s.node ∈ n.outward root := by
        simp only [owners, List.mem_append, List.mem_map, List.mem_filter, Option.some.injEq,
          exists_eq_right, List.mem_singleton, reduceCtorEq, or_false] at hOwner
        exact hOwner.1
      exact ⟨s, hScope, mem_preorder_of_mem_outward hn hAround⟩

/-- The nearest function or program around a scope, by the owners of its chain. -/
theorem exists_nearest (h : t.Lexical root) {i : Nat} {nodes : List Cursor}
    (hChain : List.Forall₂ t.OpenedBy (t.chain i) (owners nodes)) :
    ∃ j, t.nearest? [.function, .program] i = some j ∧ t.OpenedBy j (functionOwner? nodes) := by
  refine exists_find?_of_forall₂ hChain (fun j owner hj => ?_) (find?_owners nodes)
  rw [← h.kind_eq hj, Option.any_map]

end Lexical

end ScopeTable

end HotPath
