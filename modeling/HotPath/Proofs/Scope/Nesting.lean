import HotPath.Proofs.OrderedMap
import HotPath.Proofs.Scope.Walk

/-! Nesting of scopes. A walk over a subtree leaves the open scopes as they were, because a node
that opens a scope closes it and no other node has the key that would close it. What the walk
remembers of the nodes below follows the tree: the scopes that are open inside a node are those
around it, with its own in front if it opens one. -/

namespace HotPath

namespace Shape

variable {s s' s'' : Shape} {c d : Cursor} {cs : List Cursor}

/-- The scopes that are open, the innermost first. -/
def stack (s : Shape) : List Nat := s.top :: s.below

/-- The scopes that are open inside a node, given those around it. -/
inductive Opens (s : Shape) (around : List Nat) (c : Cursor) : List Nat → Prop
  | shares (hOpens : c.opens? = none) : Opens s around c around
  | own {kind : ScopeKind} {i : Nat} (hOpens : c.opens? = some kind) (hi : 0 < i)
      (hFrame : s.frames[i]? = some ⟨kind, c, around⟩) : Opens s around c (i :: around)

/-- The nodes of a subtree are placed in the scopes that the tree says, given the scopes that are
open around it. -/
inductive Nested (s : Shape) : List Nat → Cursor → Prop
  | node {around inside : List Nat} {c : Cursor} (hOpens : s.Opens around c inside)
      (hPlaced : s.placed.get? c.key = inside.head?)
      (hChildren : ∀ d ∈ c.children, Nested s inside d) : Nested s around c

theorem getElem?_frames {i : Nat} {f : Frame} (hFrames : s.frames <+: s'.frames)
    (hf : s.frames[i]? = some f) : s'.frames[i]? = some f := by
  obtain ⟨new, hNew⟩ := hFrames
  rw [← hNew, List.getElem?_append_left (List.getElem?_eq_some_iff.1 hf).1, hf]

theorem Opens.mono {around inside : List Nat} (h : s.Opens around c inside)
    (hFrames : s.frames <+: s'.frames) : s'.Opens around c inside := by
  cases h with
  | shares hOpens => exact .shares hOpens
  | own hOpens hi hFrame => exact .own hOpens hi (getElem?_frames hFrames hFrame)

/-- Scopes that are opened and nodes that are placed elsewhere do not matter. -/
theorem Nested.mono {around : List Nat} (h : s.Nested around c)
    (hFrames : s.frames <+: s'.frames)
    (hPlaced : ∀ n ∈ c.preorder, s'.placed.get? n.key = s.placed.get? n.key) :
    s'.Nested around c := by
  induction h with
  | @node around inside c hOpens hHere _ ih =>
      refine .node (hOpens.mono hFrames) (hPlaced c c.mem_preorder_self ▸ hHere) fun d hd => ?_
      exact ih d hd fun n hn => hPlaced n (Cursor.mem_preorder_iff.2 (.inr ⟨d, hd, hn⟩))

/-- What a walk over subtrees leaves behind. -/
structure Walked (cs : List Cursor) (s s' : Shape) : Prop where
  stack_eq : s'.stack = s.stack
  frames : ∃ new, s'.frames = s.frames ++ new ∧
    new.map (·.node) = (cs.flatMap Cursor.preorder).filter (·.opens?.isSome)
  placed : ∀ k, (∀ n ∈ cs.flatMap Cursor.preorder, n.key ≠ k) →
    s'.placed.get? k = s.placed.get? k
  nested : ∀ c ∈ cs, s'.Nested s.stack c

namespace Walked

theorem top_eq (h : Walked cs s s') : s'.top = s.top := (List.cons.inj h.stack_eq).1

theorem below_eq (h : Walked cs s s') : s'.below = s.below := (List.cons.inj h.stack_eq).2

theorem isPrefix (h : Walked cs s s') : s.frames <+: s'.frames := by
  obtain ⟨new, hNew, -⟩ := h.frames
  exact ⟨new, hNew.symm⟩

theorem nil (s : Shape) : Walked [] s s :=
  ⟨rfl, ⟨[], (List.append_nil _).symm, rfl⟩, fun _ _ => rfl, fun _ h => by cases h⟩

/-- Subtrees without common keys can be walked one after the other. -/
theorem cons (hFirst : Walked [c] s s') (hRest : Walked cs s' s'')
    (hKeys : ((c :: cs).flatMap Cursor.preorder |>.map Cursor.key).Nodup) :
    Walked (c :: cs) s s'' := by
  rw [List.flatMap_cons, List.map_append] at hKeys
  have hApart : ∀ n ∈ c.preorder, ∀ m ∈ cs.flatMap Cursor.preorder, m.key ≠ n.key :=
    fun n hn m hm hSame => List.disjoint_of_nodup_append hKeys (List.mem_map_of_mem hn)
      (hSame ▸ List.mem_map_of_mem hm)
  obtain ⟨new, hNew, hNodes⟩ := hFirst.frames
  obtain ⟨new', hNew', hNodes'⟩ := hRest.frames
  refine ⟨hRest.stack_eq.trans hFirst.stack_eq, ⟨new ++ new', ?_, ?_⟩, fun k hk => ?_, ?_⟩
  · rw [hNew', hNew, List.append_assoc]
  · rw [List.map_append, hNodes, hNodes', List.flatMap_cons, List.flatMap_cons, List.flatMap_nil,
      List.append_nil, List.filter_append]
  · simp only [List.flatMap_cons, List.mem_append] at hk
    rw [hRest.placed k fun n hn => hk n (.inr hn), hFirst.placed k fun n hn => hk n (.inl ?_)]
    simpa using hn
  · rintro e he
    rcases List.mem_cons.1 he with rfl | he
    · refine (hFirst.nested e List.mem_cons_self).mono hRest.isPrefix fun n hn => ?_
      exact hRest.placed n.key (hApart n hn)
    · exact hFirst.stack_eq ▸ hRest.nested e he

end Walked

/-- The innermost scope is there, and no node of the subtree could close it by mistake: it is the
outermost one or none of them has the key of the node that opened it. -/
structure Ready (s : Shape) (c : Cursor) : Prop where
  top_lt : s.top < s.frames.length
  apart : s.below = [] ∨
    ∀ f, s.frames[s.top]? = some f → ∀ n ∈ c.preorder, f.node.key ≠ n.key

theorem Ready.walked (h : s.Ready d) (hWalked : Walked cs s s') : s'.Ready d := by
  have hTop := List.getElem?_eq_getElem h.top_lt
  have hTop' := getElem?_frames hWalked.isPrefix hTop
  refine ⟨?_, ?_⟩
  · rw [hWalked.top_eq]
    exact (List.getElem?_eq_some_iff.1 hTop').1
  · rw [hWalked.top_eq, hWalked.below_eq, hTop', ← hTop]
    exact h.apart

/-- The shape once a node has been entered. -/
def inside (s : Shape) (c : Cursor) : Shape := (s.enter c).place c

theorem frames_inside (s : Shape) (c : Cursor) :
    ∃ new, (s.inside c).frames = s.frames ++ new ∧
      new.map (·.node) = [c].filter (·.opens?.isSome) := by
  unfold inside enter
  cases hOpens : c.opens? with
  | none => exact ⟨[], by simp [place], by simp [hOpens]⟩
  | some kind => exact ⟨[⟨kind, c, s.stack⟩], rfl, by simp [hOpens]⟩

theorem get?_placed_inside (s : Shape) (c : Cursor) (k : Key) :
    (s.inside c).placed.get? k = if k = c.key then some (s.inside c).top else s.placed.get? k := by
  have hPlaced : (s.enter c).placed = s.placed := by
    unfold enter
    split <;> rfl
  change ((s.enter c).placed.insert c.key (s.enter c).top).get? k = _
  rw [OrderedMap.get?_insert, hPlaced]
  rfl

theorem opens_inside (h : s.Ready c) : (s.inside c).Opens s.stack c (s.inside c).stack := by
  unfold inside enter
  cases hOpens : c.opens? with
  | none => exact .shares hOpens
  | some kind =>
      refine .own hOpens (Nat.zero_lt_of_lt h.top_lt) ?_
      simp [place, push, stack]

/-- The children of a node are ready once it has been entered. -/
theorem Ready.inside (h : s.Ready c) (hKeys : c.DistinctKeys) (hd : d ∈ c.children) :
    (s.inside c).Ready d := by
  have hSub : ∀ n ∈ d.preorder, n ∈ c.preorder :=
    fun n hn => Cursor.mem_preorder_iff.2 (.inr ⟨d, hd, hn⟩)
  unfold Shape.inside enter
  cases hOpens : c.opens? with
  | none =>
      exact ⟨h.top_lt, h.apart.imp_right fun hApart f hf n hn => hApart f hf n (hSub n hn)⟩
  | some kind =>
      refine ⟨by simp [place, push], .inr fun f hf n hn hSame => ?_⟩
      obtain rfl : f = ⟨kind, c, s.stack⟩ := by simpa [place, push, stack, eq_comm] using hf
      -- Only the node itself has its key, and it does not lie below its own child.
      have hSelf : c = n := hKeys.eq_of_key_eq c.mem_preorder_self (hSub n hn) hSame
      have := Cursor.size_lt_of_mem_preorder_child hd hn
      rw [← hSelf] at this
      omega

theorem closesScope_of_opens {kind : ScopeKind} (h : c.opens? = some kind) :
    ScopeStep.closesScope c.kind = true := by
  simp only [ScopeStep.closesScope, Bool.or_eq_true, beq_iff_eq]
  unfold Cursor.opens? at h
  split at h
  · next hFunction => exact .inl (.inl (.inr hFunction))
  · split at h
    · next hKind => exact .inr hKind
    · split at h
      · next hBlock => exact .inl (.inr (Bool.and_eq_true _ _ ▸ hBlock).1)
      · cases h

/-- A node that does not open a scope closes none. -/
theorem pop_of_ready (h : s.Ready c) : s.pop c = s := by
  obtain ⟨frames, placed, top, below⟩ := s
  unfold pop
  cases below with
  | nil => rfl
  | cons next rest =>
      have hApart := h.apart.resolve_left (List.cons_ne_nil next rest)
      have hTop := List.getElem?_eq_getElem h.top_lt
      have hOther := hApart _ hTop c c.mem_preorder_self
      simp only at hTop hOther ⊢
      simp [hTop, hOther]

/-- Leaving a node takes the stack back to what it was before the node was entered. -/
theorem leave_spec (h : s.Ready c) (hWalked : Walked c.children (s.inside c) s') :
    (s'.step ⟨.leave, c⟩).stack = s.stack ∧ (s'.step ⟨.leave, c⟩).frames = s'.frames ∧
      (s'.step ⟨.leave, c⟩).placed = s'.placed := by
  have hStack := hWalked.stack_eq
  cases hOpens : c.opens? with
  | none =>
      have hInside : s.inside c = s.place c := by simp [inside, enter, hOpens]
      rw [hInside] at hWalked hStack
      have hPlaced : (s.place c).Ready c := ⟨h.top_lt, h.apart⟩
      have hReady := hPlaced.walked hWalked
      have hSame : s'.step ⟨.leave, c⟩ = s' := by
        simp only [step, pop_of_ready hReady, ite_self]
      rw [hSame]
      exact ⟨hStack, rfl, rfl⟩
  | some kind =>
      have hInside : s.inside c = (s.push kind c).place c := by simp [inside, enter, hOpens]
      rw [hInside] at hWalked hStack
      have hFrame : s'.frames[s'.top]? = some ⟨kind, c, s.stack⟩ := by
        rw [hWalked.top_eq]
        exact getElem?_frames hWalked.isPrefix (by simp [place, push, stack])
      have hBelow : s'.below = s.top :: s.below := hWalked.below_eq
      simp [step, closesScope_of_opens hOpens, pop, hBelow, hFrame, stack]

theorem walk_append (es es' : List Event) (s : Shape) :
    s.walk (es ++ es') = (s.walk es).walk es' := List.foldl_append

/-- Subtrees that are each left as they should be are left so one after the other. -/
theorem walked_flatMap
    (hEach : ∀ c ∈ cs, ∀ s : Shape, s.Ready c → Walked [c] s (s.walk c.events))
    (hReady : ∀ c ∈ cs, s.Ready c) (hKeys : (cs.flatMap Cursor.preorder |>.map Cursor.key).Nodup) :
    Walked cs s (s.walk (cs.flatMap Cursor.events)) := by
  induction cs generalizing s with
  | nil => exact .nil s
  | cons c rest ih =>
      obtain ⟨hEachC, hEach⟩ := List.forall_mem_cons.1 hEach
      obtain ⟨hReadyC, hReady⟩ := List.forall_mem_cons.1 hReady
      have hFirst := hEachC s hReadyC
      have hKeys' : (rest.flatMap Cursor.preorder |>.map Cursor.key).Nodup := by
        rw [List.flatMap_cons, List.map_append] at hKeys
        exact hKeys.of_append_right
      rw [List.flatMap_cons, walk_append]
      exact hFirst.cons (ih hEach (fun d hd => (hReady d hd).walked hFirst) hKeys') hKeys

theorem nodup_children (hKeys : c.DistinctKeys) :
    (c.children.flatMap Cursor.preorder |>.map Cursor.key).Nodup ∧
      ∀ n ∈ c.children.flatMap Cursor.preorder, n.key ≠ c.key := by
  unfold Cursor.DistinctKeys at hKeys
  rw [Cursor.preorder_eq, List.map_cons, List.nodup_cons] at hKeys
  exact ⟨hKeys.2, fun n hn hSame => hKeys.1 (hSame ▸ List.mem_map_of_mem hn)⟩

/-- Once its children have been walked, a node is left as it should be. -/
theorem Walked.leave (h : s.Ready c) (hKeys : c.DistinctKeys)
    (hChildren : Walked c.children (s.inside c) s') : Walked [c] s (s'.step ⟨.leave, c⟩) := by
  obtain ⟨-, hSelf⟩ := nodup_children hKeys
  obtain ⟨hStack, hFrames, hPlaced⟩ := leave_spec h hChildren
  have hLeft : s'.frames <+: (s'.step ⟨.leave, c⟩).frames := hFrames ▸ List.prefix_rfl
  obtain ⟨new, hNew, hNodes⟩ := s.frames_inside c
  obtain ⟨new', hNew', hNodes'⟩ := hChildren.frames
  refine ⟨hStack, ⟨new ++ new', ?_, ?_⟩, fun k hk => ?_, fun e he => ?_⟩
  · rw [hFrames, hNew', hNew, List.append_assoc]
  · rw [List.map_append, hNodes, hNodes', ← List.filter_append, List.flatMap_singleton,
      Cursor.preorder_eq]
    rfl
  · rw [List.flatMap_singleton, Cursor.preorder_eq, List.forall_mem_cons] at hk
    rw [hPlaced, hChildren.placed k hk.2, get?_placed_inside, if_neg hk.1.symm]
  · obtain rfl : e = c := List.mem_singleton.1 he
    refine .node (((opens_inside h).mono hChildren.isPrefix).mono hLeft) ?_ fun d hd => ?_
    · rw [hPlaced, hChildren.placed _ hSelf, get?_placed_inside, if_pos rfl]
      rfl
    · exact (hChildren.nested d hd).mono hLeft fun n _ => by rw [hPlaced]

theorem walk_events (s : Shape) (c : Cursor) :
    s.walk c.events =
      ((s.inside c).walk (c.children.flatMap Cursor.events)).step ⟨.leave, c⟩ := by
  rw [Cursor.events_eq]
  exact walk_append _ _ (s.inside c)

/-- A walk over a subtree places its nodes as the tree says and leaves the stack as it was. -/
theorem walked_events (hKeys : c.DistinctKeys) (h : s.Ready c) :
    Walked [c] s (s.walk c.events) := by
  induction c using Cursor.children_induction generalizing s with
  | h c ih =>
      rw [walk_events]
      refine .leave h hKeys (walked_flatMap (fun d hd s hs => ih d hd ?_ hs)
        (fun d hd => h.inside hKeys hd) (nodup_children hKeys).1)
      exact hKeys.of_mem (Cursor.mem_preorder_of_mem_children hd)

/-- On the way through a subtree every node of it is met with a stack that it leaves as it was. -/
theorem exists_ready (hKeys : c.DistinctKeys) (h : s.Ready c) (hd : d ∈ c.preorder) :
    ∃ before after, c.events = before ++ d.events ++ after ∧ (s.walk before).Ready d := by
  induction c using Cursor.children_induction generalizing s with
  | h c ih =>
      rcases Cursor.mem_preorder_iff.1 hd with rfl | ⟨e, he, hde⟩
      · exact ⟨[], [], by simp, h⟩
      · obtain ⟨left, right, hChildren⟩ := List.append_of_mem he
        have hPart {f : Cursor} (hf : f ∈ c.children) : f.DistinctKeys :=
          hKeys.of_mem (Cursor.mem_preorder_of_mem_children hf)
        have hMem : ∀ f ∈ left, f ∈ c.children := fun f hf => hChildren ▸ List.mem_append_left _ hf
        have hLeft : Walked left (s.inside c) ((s.inside c).walk (left.flatMap Cursor.events)) := by
          refine walked_flatMap (fun f hf s hs => walked_events (hPart (hMem f hf)) hs)
            (fun f hf => h.inside hKeys (hMem f hf)) ?_
          have hAll := (nodup_children hKeys).1
          rw [hChildren, List.flatMap_append, List.map_append] at hAll
          exact hAll.of_append_left
        obtain ⟨before, after, hEvents, hReady⟩ :=
          ih e he (hPart he) ((h.inside hKeys he).walked hLeft) hde
        refine ⟨⟨.enter, c⟩ :: (left.flatMap Cursor.events ++ before),
          after ++ right.flatMap Cursor.events ++ [⟨.leave, c⟩], ?_, ?_⟩
        · rw [Cursor.events_eq, hChildren, List.flatMap_append, List.flatMap_cons, hEvents]
          simp
        · change ((s.inside c).walk (left.flatMap Cursor.events ++ before)).Ready d
          rw [walk_append]
          exact hReady

end Shape

end HotPath
