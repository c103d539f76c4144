import HotPath.Proofs.Subtree

/-! The walks and the recursions over a tree. A walk keeps a list of what is still to come, and what
it shows is what a recursion over the children shows. A place in a tree is the way down to it, so
that nodes which look alike are told apart: every place is entered once and left once, and what is
shown between the two moments lies below it. -/

namespace HotPath

/-- Properly nested moments: what is entered is left, after all that is entered in between. -/
inductive Bracketed {α : Type} : List (Phase × α) → Prop
  | nil : Bracketed []
  | node (a : α) {inner rest : List (Phase × α)} (hInner : Bracketed inner)
      (hRest : Bracketed rest) : Bracketed ((.enter, a) :: (inner ++ (.leave, a) :: rest))

namespace Bracketed

variable {α β : Type}

theorem append {xs ys : List (Phase × α)} (hx : Bracketed xs) (hy : Bracketed ys) :
    Bracketed (xs ++ ys) := by
  induction hx with
  | nil => exact hy
  | node a hInner _ _ ihRest =>
      rw [List.cons_append, List.append_assoc, List.cons_append]
      exact .node a hInner ihRest

theorem flatMap {l : List β} {f : β → List (Phase × α)} (h : ∀ b ∈ l, Bracketed (f b)) :
    Bracketed (l.flatMap f) := by
  induction l with
  | nil => exact .nil
  | cons b rest ih =>
      rw [List.flatMap_cons]
      exact (h b List.mem_cons_self).append (ih fun b hb => h b (List.mem_cons_of_mem _ hb))

theorem map {l : List (Phase × α)} (h : Bracketed l) (f : α → β) :
    Bracketed (l.map fun m => (m.1, f m.2)) := by
  induction h with
  | nil => exact .nil
  | node a _ _ ihInner ihRest =>
      rw [List.map_cons, List.map_append, List.map_cons]
      exact .node (f a) ihInner ihRest

end Bracketed

namespace Cursor

/-- Enter a node, traverse its children from left to right, and leave the node. -/
def traversal (c : Cursor) : List Event :=
  ⟨.enter, c⟩ :: (c.children.attach.flatMap (fun d => d.1.traversal) ++ [⟨.leave, c⟩])
termination_by c.size
decreasing_by exact size_lt_of_mem_children d.2

/-- Visit a node and, unless it is to be skipped, its children from left to right. -/
def visits (skip : Cursor → Bool) (c : Cursor) : List Cursor :=
  c :: if skip c then [] else c.children.attach.flatMap fun d => d.1.visits skip
termination_by c.size
decreasing_by exact size_lt_of_mem_children d.2

theorem traversal_eq (c : Cursor) :
    c.traversal = ⟨.enter, c⟩ :: (c.children.flatMap traversal ++ [⟨.leave, c⟩]) := by
  rw [traversal, List.flatMap_subtype fun _ _ => rfl, List.unattach_attach]

theorem visits_eq (skip : Cursor → Bool) (c : Cursor) :
    c.visits skip = c :: if skip c then [] else c.children.flatMap (visits skip) := by
  rw [visits, List.flatMap_subtype fun _ _ => rfl, List.unattach_attach]

theorem events_eq_traversal (c : Cursor) : c.events = c.traversal := by
  induction c using children_induction with
  | h c ih => rw [events_eq, traversal_eq, List.flatMap_congr ih]

/-- Each node that is still to be visited stands for the visits of the recursion. -/
theorem preorderFrom_eq_flatMap_visits (skip : Cursor → Bool) (todo : List Cursor) :
    preorderFrom skip todo = todo.flatMap (visits skip) := by
  fun_induction preorderFrom skip todo with
  | case1 => rfl
  | case2 c todo ihSkip ih =>
      rw [List.flatMap_cons, visits_eq, List.cons_append, ihSkip, ih, List.flatMap_append]
      split <;> rfl

/-- The node at the end of a way down. Each step of the way is the number of a child. -/
def descend? (c : Cursor) : List Nat → Option Cursor
  | [] => some c
  | i :: way => c.children[i]?.bind (·.descend? way)

/-- The moments of a traversal, by the ways down to their nodes. -/
def itinerary (c : Cursor) : List (Phase × List Nat) :=
  (.enter, []) :: (c.children.attach.zipIdx.flatMap (fun p =>
    p.1.1.itinerary.map fun m => (m.1, p.2 :: m.2)) ++ [(.leave, [])])
termination_by c.size
decreasing_by exact size_lt_of_mem_children p.1.2

/-- The moments at the places below a node. -/
def itineraryBelow (c : Cursor) : List (Phase × List Nat) :=
  c.children.zipIdx.flatMap fun p => p.1.itinerary.map fun m => (m.1, p.2 :: m.2)

theorem itinerary_eq (c : Cursor) :
    c.itinerary = (.enter, []) :: (c.itineraryBelow ++ [(.leave, [])]) := by
  rw [itinerary, itineraryBelow]
  conv_rhs => rw [← List.attach_map_subtype_val c.children, List.zipIdx_map, List.flatMap_map]
  rfl

theorem mem_itineraryBelow_iff {c : Cursor} {phase : Phase} {way : List Nat} :
    (phase, way) ∈ c.itineraryBelow ↔ ∃ i d rest, c.children[i]? = some d ∧
      (phase, rest) ∈ d.itinerary ∧ way = i :: rest := by
  simp only [itineraryBelow, List.mem_flatMap, List.mem_map, Prod.exists, Prod.mk.injEq,
    List.mem_zipIdx_iff_getElem?]
  constructor
  · rintro ⟨d, i, hChild, _, rest, hRest, rfl, rfl⟩
    exact ⟨i, d, rest, hChild, hRest, rfl⟩
  · rintro ⟨i, d, rest, hChild, hRest, rfl⟩
    exact ⟨d, i, hChild, phase, rest, hRest, rfl, rfl⟩

/-- One moment of each phase at every place of the tree. -/
theorem mem_itinerary_iff {c : Cursor} {phase : Phase} {way : List Nat} :
    (phase, way) ∈ c.itinerary ↔ (c.descend? way).isSome := by
  induction way generalizing c with
  | nil => cases phase <;> simp [itinerary_eq, descend?]
  | cons i way ih =>
      have hChild : (phase, i :: way) ∈ c.itinerary ↔
          ∃ d, c.children[i]? = some d ∧ (phase, way) ∈ d.itinerary := by
        rw [itinerary_eq, List.mem_cons, List.mem_append, mem_itineraryBelow_iff]
        simp
      simp only [hChild, ih, descend?, Option.isSome_bind, Option.any_eq_true]

theorem nodup_itineraryBelow {c : Cursor} (h : ∀ d ∈ c.children, d.itinerary.Nodup) :
    c.itineraryBelow.Nodup := by
  rw [itineraryBelow, List.nodup_flatMap]
  constructor
  · intro p hp
    refine (h p.1 (List.fst_mem_of_mem_zipIdx hp)).map ?_
    rintro ⟨phase, way⟩ ⟨phase', way'⟩ hSame
    simpa using hSame
  · -- The ways below two children differ in the first step.
    have hNumbers : (c.children.zipIdx.map Prod.snd).Nodup := by
      rw [List.zipIdx_map_snd]
      exact List.nodup_range'
    refine (List.pairwise_map.1 hNumbers).imp ?_
    intro p q hne m hp hq
    obtain ⟨_, -, rfl⟩ := List.mem_map.1 hp
    obtain ⟨_, -, hSame⟩ := List.mem_map.1 hq
    exact hne (by simpa using (congrArg (·.2.head?) hSame).symm)

theorem nodup_itinerary (c : Cursor) : c.itinerary.Nodup := by
  induction c using children_induction with
  | h c ih =>
      have hRoot : ∀ phase, (phase, []) ∉ c.itineraryBelow := by
        intro phase hMem
        obtain ⟨i, d, rest, -, -, hSame⟩ := mem_itineraryBelow_iff.1 hMem
        cases hSame
      rw [itinerary_eq, List.nodup_cons, List.nodup_append']
      refine ⟨?_, nodup_itineraryBelow ih, List.nodup_singleton _, ?_⟩
      · simp [hRoot]
      · simpa using hRoot .leave

theorem bracketed_itinerary (c : Cursor) : Bracketed c.itinerary := by
  induction c using children_induction with
  | h c ih =>
      rw [itinerary_eq]
      refine .node [] (.flatMap fun p hp => ?_) .nil
      exact (ih p.1 (List.fst_mem_of_mem_zipIdx hp)).map (p.2 :: ·)

/-- The events of a traversal are its moments, each with the node at its place. -/
theorem map_some_events (c : Cursor) :
    c.events.map some = c.itinerary.map fun m => (c.descend? m.2).map (Event.mk m.1) := by
  induction c using children_induction with
  | h c ih =>
      have hBelow : (c.children.flatMap events).map some =
          c.itineraryBelow.map fun m => (c.descend? m.2).map (Event.mk m.1) := by
        conv_lhs => rw [← c.children.zipIdx_map_fst 0]
        rw [itineraryBelow, List.flatMap_map, List.map_flatMap, List.map_flatMap]
        refine List.flatMap_congr fun p hp => ?_
        have hChild := List.mem_zipIdx_iff_getElem?.1 hp
        rw [ih p.1 (List.mem_of_getElem? hChild), List.map_map]
        refine List.map_congr_left fun m _ => ?_
        simp [descend?, hChild]
      simp [events_eq, itinerary_eq, hBelow, descend?]

/-- An account of events that show a tree. Every place has one moment of each phase, the moments are
properly nested, and each event shows the node at the place of its moment. -/
structure Shown (c : Cursor) (es : List Event) (moments : List (Phase × List Nat)) : Prop where
  once : moments.Nodup
  complete : ∀ phase way, (phase, way) ∈ moments ↔ (c.descend? way).isSome
  nested : Bracketed moments
  event_eq : es.map some = moments.map fun m => (c.descend? m.2).map (Event.mk m.1)

/-- The walks are the recursions over the tree. The events are those of the traversal, so every
place is entered once and left once and the moments are properly nested. The walk in pre-order gives
the node itself, whether or not it is to be skipped, and the visits of its children. If nothing is
skipped, these are the nodes that are entered. -/
theorem walks_recursive (c : Cursor) :
    c.events = c.traversal ∧
      (∃ moments, c.Shown c.events moments) ∧
      (∀ skip, c.preorderUnless skip = c :: c.children.flatMap (visits skip)) ∧
      c.preorder = c.events.filterMap Event.entered? := by
  refine ⟨c.events_eq_traversal, ⟨c.itinerary, ?_⟩, fun skip => ?_, ?_⟩
  · exact ⟨c.nodup_itinerary, fun _ _ => mem_itinerary_iff, c.bracketed_itinerary,
      c.map_some_events⟩
  · rw [preorderUnless, preorderFrom_eq_flatMap_visits]
  · exact c.filterMap_entered?_events.symm

end Cursor

end HotPath
