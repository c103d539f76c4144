import HotPath.Heat.Chain
import HotPath.Proofs.OrderedMap
import Mathlib.Data.List.Chain

/-! The search for a shortest path. Each side has seen every vertex within as many links as it has
searched levels. As long as the sides have seen no vertex in common, every path is longer than both
levels together, so the first vertex that both see lies on a shortest one. -/

namespace HotPath.CallGraph

variable {R : Vertex → Vertex → Prop} {u v w o : Vertex}

/-- So many links lead from one vertex to another. -/
inductive Hops (R : Vertex → Vertex → Prop) : Nat → Vertex → Vertex → Prop
  | here (v : Vertex) : Hops R 0 v v
  | next {n : Nat} {u v w : Vertex} (hops : Hops R n u v) (link : R v w) : Hops R (n + 1) u w

theorem Hops.cons {n : Nat} (link : R u v) (hops : Hops R n v w) : Hops R (n + 1) u w := by
  induction hops with
  | here v => exact .next (.here u) link
  | next _ last ih => exact .next (ih link) last

/-- The links can be gone the other way. -/
theorem Hops.flip {n : Nat} (hops : Hops R n u v) : Hops (flip R) n v u := by
  induction hops with
  | here v => exact .here v
  | next _ last ih => exact .cons last ih

theorem Hops.split {m n : Nat} (hops : Hops R (m + n) u w) :
    ∃ v, Hops R m u v ∧ Hops R n v w := by
  induction n generalizing w with
  | zero => exact ⟨w, hops, .here w⟩
  | succ n ih =>
      cases hops with
      | next hops link =>
          obtain ⟨v, hFirst, hSecond⟩ := ih hops
          exact ⟨v, hFirst, .next hSecond link⟩

/-- The vertices along links from one vertex to another. -/
structure IsWay (R : Vertex → Vertex → Prop) (u v : Vertex) (path : List Vertex) : Prop where
  first : path.head? = some u
  last : path.getLast? = some v
  links : path.IsChain R

namespace IsWay

variable {path : List Vertex}

theorem single (v : Vertex) : IsWay R v v [v] := ⟨rfl, rfl, .singleton v⟩

theorem cons (link : R u v) (h : IsWay R v w path) : IsWay R u w (u :: path) := by
  obtain ⟨first, last, links⟩ := h
  cases path with
  | nil => cases first
  | cons x rest =>
      cases first
      exact ⟨rfl, last, .cons_cons link links⟩

/-- A way is one vertex or begins with a link. -/
theorem cases_first (h : IsWay R u w path) :
    (u = w ∧ path = [u]) ∨ ∃ v rest, path = u :: rest ∧ R u v ∧ IsWay R v w rest := by
  obtain ⟨first, last, links⟩ := h
  cases links with
  | nil => cases first
  | singleton x =>
      cases first
      cases last
      exact .inl ⟨rfl, rfl⟩
  | @cons_cons x y rest link links =>
      cases first
      exact .inr ⟨y, y :: rest, rfl, link, rfl, last, links⟩

theorem hops (h : IsWay R u w path) : ∃ n, path.length = n + 1 ∧ Hops R n u w := by
  induction path generalizing u with
  | nil => cases h.first
  | cons x rest ih =>
      rcases h.cases_first with ⟨rfl, hPath⟩ | ⟨v, rest', hPath, link, hRest⟩
      · exact ⟨0, by rw [hPath]; rfl, .here u⟩
      · cases hPath
        obtain ⟨n, hLength, hHops⟩ := ih hRest
        exact ⟨n + 1, by rw [List.length_cons, hLength], .cons link hHops⟩

theorem reverse (h : IsWay (flip R) v o path) : IsWay R o v path.reverse := by
  refine ⟨?_, ?_, ?_⟩
  · rw [List.head?_reverse, h.last]
  · rw [List.getLast?_reverse, h.first]
  · exact List.isChain_reverse.2 h.links

theorem append {second : List Vertex} (h : IsWay R u v path) (h' : IsWay R v w second) :
    IsWay R u w (path ++ second.drop 1) := by
  induction path generalizing u with
  | nil => cases h.first
  | cons x rest ih =>
      rcases h.cases_first with ⟨rfl, hPath⟩ | ⟨y, rest', hPath, link, hRest⟩
      · have hSecond : [u] ++ second.drop 1 = second := by
          rcases h'.cases_first with ⟨-, rfl⟩ | ⟨y, rest', rfl, -⟩
          · rfl
          · rfl
        rw [hPath, hSecond]
        exact h'
      · cases hPath
        exact (ih hRest).cons link

end IsWay

namespace Side

/-- Let a neighbour of a vertex join a side, unless the side has seen it. -/
def join (side : Side) (v w : Vertex) : Side :=
  if side.paths.contains w then side
  else ⟨side.paths.insert w (w :: (side.paths.get? v).getD []), side.frontier ++ [w]⟩

theorem explore_cons (seen : Vertex → Bool) (v w : Vertex) (rest : List (Vertex × Vertex))
    (side : Side) :
    explore seen ((v, w) :: rest) side =
      if seen w then (side.join v w, some w) else explore seen rest (side.join v w) := rfl

/-- A side after some neighbours of its last level have joined it: whatever is new stands in the
frontier, and its path has at most one link more than the levels that were complete. -/
structure Growing (R : Vertex → Vertex → Prop) (o : Vertex) (level : Nat) (base side : Side) :
    Prop where
  distinct : side.paths.Distinct
  kept : ∀ v p, base.paths.get? v = some p → side.paths.get? v = some p
  way : ∀ v p, side.paths.get? v = some p → IsWay (flip R) v o p ∧ p.length ≤ level + 2
  fresh : ∀ v ∈ side.paths.keys, v ∈ base.paths.keys ∨ v ∈ side.frontier
  joined : ∀ v ∈ side.frontier, v ∈ side.paths.keys
  size_eq : side.paths.keys.length = base.paths.keys.length + side.frontier.length

theorem mem_keys_join (side : Side) (u v w : Vertex) :
    u ∈ (side.join v w).paths.keys ↔ u = w ∨ u ∈ side.paths.keys := by
  unfold join
  split
  · next hThere =>
      rw [OrderedMap.contains_iff_mem_keys] at hThere
      constructor
      · exact Or.inr
      · rintro (rfl | hu)
        · exact hThere
        · exact hu
  · exact OrderedMap.mem_keys_insert _ _ _ _

variable {level : Nat} {base side : Side}

theorem Growing.join (hs : Growing R o level base side) (link : R v w) {p : List Vertex}
    (hv : base.paths.get? v = some p) (hLength : p.length ≤ level + 1) :
    Growing R o level base (side.join v w) := by
  unfold Side.join
  split
  · exact hs
  · next hNew =>
      have hNew : w ∉ side.paths.keys := by rwa [OrderedMap.contains_iff_mem_keys] at hNew
      rw [hs.kept v p hv, Option.getD_some]
      constructor
      case distinct => exact hs.distinct.insert _ _
      case kept =>
        intro u q hq
        have hu := hs.kept u q hq
        rw [OrderedMap.get?_insert_of_ne]
        · exact hu
        · rintro rfl
          exact hNew ((OrderedMap.exists_get?_iff_mem_keys _ _).1 ⟨q, hu⟩)
      case way =>
        intro u q hq
        rw [OrderedMap.get?_insert] at hq
        split at hq
        · next hSame =>
            cases hq
            rw [hSame, List.length_cons]
            exact ⟨(hs.way v p (hs.kept v p hv)).1.cons link, by omega⟩
        · exact hs.way u q hq
      case fresh =>
        intro u hu
        rcases (OrderedMap.mem_keys_insert _ _ _ _).1 hu with rfl | hu
        · exact .inr (by simp)
        · exact (hs.fresh u hu).imp_right fun h => List.mem_append_left _ h
      case joined =>
        intro u hu
        rw [OrderedMap.mem_keys_insert]
        rcases List.mem_append.1 hu with hu | hu
        · exact .inr (hs.joined u hu)
        · exact .inl (List.mem_singleton.1 hu)
      case size_eq =>
        rw [OrderedMap.keys_insert, if_neg hNew, List.length_append, List.length_append, hs.size_eq]
        rfl

theorem mem_keys_explore (seen : Vertex → Bool) (links : List (Vertex × Vertex))
    (hv : v ∈ side.paths.keys) : v ∈ (explore seen links side).1.paths.keys := by
  induction links generalizing side with
  | nil => exact hv
  | cons e rest ih =>
      have hJoin := (mem_keys_join side v e.1 e.2).2 (.inr hv)
      rw [explore_cons]
      split
      · exact hJoin
      · exact ih hJoin

/-- Exploring ends at a neighbour that the other side has seen, or with all neighbours on the side
and none that the other one has seen among the new ones. -/
theorem explore_spec (seen : Vertex → Bool) {links : List (Vertex × Vertex)}
    (hs : Growing R o level base side)
    (hLinks : ∀ e ∈ links, R e.1 e.2 ∧ ∃ p, base.paths.get? e.1 = some p ∧ p.length ≤ level + 1) :
    Growing R o level base (explore seen links side).1 ∧
      ((∃ w, (explore seen links side).2 = some w ∧ seen w = true ∧
          w ∈ (explore seen links side).1.paths.keys) ∨
        ((explore seen links side).2 = none ∧
          (∀ e ∈ links, e.2 ∈ (explore seen links side).1.paths.keys) ∧
          ∀ v ∈ (explore seen links side).1.paths.keys,
            v ∈ side.paths.keys ∨ seen v = false)) := by
  induction links generalizing side with
  | nil => exact ⟨hs, .inr ⟨rfl, by simp, fun v hv => .inl hv⟩⟩
  | cons e rest ih =>
      obtain ⟨v, w⟩ := e
      obtain ⟨⟨link, p, hp, hLength⟩, hRest⟩ := List.forall_mem_cons.1 hLinks
      have hJoin := hs.join link hp hLength
      have hw : w ∈ (side.join v w).paths.keys := (mem_keys_join side w v w).2 (.inl rfl)
      rw [explore_cons]
      split
      · next hSeen => exact ⟨hJoin, .inl ⟨w, rfl, hSeen, hw⟩⟩
      · next hSeen =>
          obtain ⟨hGrow, hEnd⟩ := ih hJoin hRest
          refine ⟨hGrow, hEnd.imp_right ?_⟩
          rintro ⟨hNone, hAll, hOld⟩
          refine ⟨hNone, List.forall_mem_cons.2 ⟨mem_keys_explore seen rest hw, hAll⟩, ?_⟩
          intro x hx
          rcases hOld x hx with hJoined | hUnseen
          · rcases (mem_keys_join side x v w).1 hJoined with rfl | hOld
            · exact .inr (by simpa using hSeen)
            · exact .inl hOld
          · exact .inr hUnseen

/-- What one side knows after a number of levels: a path to each vertex that it has seen, and no
vertex within as many links is missing. -/
structure Searched (R : Vertex → Vertex → Prop) (o : Vertex) (level : Nat) (side : Side) :
    Prop where
  distinct : side.paths.Distinct
  way : ∀ v p, side.paths.get? v = some p → IsWay (flip R) v o p ∧ p.length ≤ level + 1
  near : ∀ {n v}, n ≤ level → Hops R n o v → v ∈ side.paths.keys
  joined : ∀ v ∈ side.frontier, v ∈ side.paths.keys
  closed : ∀ v ∈ side.paths.keys, v ∉ side.frontier → ∀ w, R v w → w ∈ side.paths.keys

theorem keys_start (v : Vertex) : (start v).paths.keys = [v] := rfl

theorem searched_start (R : Vertex → Vertex → Prop) (o : Vertex) : Searched R o 0 (start o) := by
  constructor
  case distinct => exact OrderedMap.distinct_empty.insert _ _
  case way =>
    intro v p hp
    rw [start, OrderedMap.get?_insert] at hp
    split at hp
    · next hSame =>
        cases hp
        rw [hSame]
        exact ⟨.single o, Nat.le_refl _⟩
    · cases hp
  case near =>
    intro n v hn hops
    obtain rfl := Nat.le_zero.1 hn
    cases hops
    simp [keys_start]
  case joined => exact fun v hv => hv
  case closed => exact fun v hv hNot => (hNot hv).elim

/-- A side with nothing left to explore has seen all that links lead to. -/
theorem Searched.mem_of_frontier_nil (hs : Searched R o level side) (hNil : side.frontier = [])
    {n : Nat} (hops : Hops R n o v) : v ∈ side.paths.keys := by
  induction hops with
  | here => exact hs.near (Nat.zero_le _) (.here _)
  | next _ link ih => exact hs.closed _ (ih hs) (by simp [hNil]) _ link

theorem Searched.exists_way (hs : Searched R o level side) (hv : v ∈ side.paths.keys) :
    ∃ p, side.paths.get? v = some p ∧ IsWay (flip R) v o p ∧ p.length ≤ level + 1 := by
  obtain ⟨p, hp⟩ := (OrderedMap.exists_get?_iff_mem_keys _ _).2 hv
  exact ⟨p, hp, hs.way v p hp⟩

/-- A side sees vertices of the graph only. -/
theorem Searched.length_le (hs : Searched R o level side) {vertices : List Vertex}
    (ho : o ∈ vertices) (hLinks : ∀ u v, R u v → v ∈ vertices) :
    side.paths.keys.length ≤ vertices.length := by
  refine (List.subperm_of_subset hs.distinct ?_).length_le
  intro v hv
  obtain ⟨p, -, hWay, -⟩ := hs.exists_way hv
  rcases hWay.cases_first with ⟨rfl, -⟩ | ⟨u, rest, -, link, -⟩
  · exact ho
  · exact hLinks u v link

/-- A level is complete once all neighbours of the last one have joined. -/
theorem Growing.searched (hGrow : Growing R o level base side) (hs : Searched R o level base)
    (hAll : ∀ v ∈ base.frontier, ∀ w, R v w → w ∈ side.paths.keys) :
    Searched R o (level + 1) side := by
  have hKept : ∀ v ∈ base.paths.keys, v ∈ side.paths.keys := by
    intro v hv
    obtain ⟨p, hp⟩ := (OrderedMap.exists_get?_iff_mem_keys _ _).2 hv
    exact (OrderedMap.exists_get?_iff_mem_keys _ _).1 ⟨p, hGrow.kept v p hp⟩
  have hNext : ∀ v ∈ base.paths.keys, ∀ w, R v w → w ∈ side.paths.keys := by
    intro v hv w link
    by_cases hFrontier : v ∈ base.frontier
    · exact hAll v hFrontier w link
    · exact hKept w (hs.closed v hv hFrontier w link)
  constructor
  case distinct => exact hGrow.distinct
  case way => exact hGrow.way
  case near =>
    intro n v hn hops
    cases hops with
    | here => exact hKept _ (hs.near (Nat.zero_le _) (.here o))
    | next hops link => exact hNext _ (hs.near (Nat.le_of_succ_le_succ hn) hops) v link
  case joined => exact hGrow.joined
  case closed =>
    intro v hv hNot w link
    rcases hGrow.fresh v hv with hBase | hFrontier
    · exact hNext v hBase w link
    · exact (hNot hFrontier).elim

/-- The next level of a side ends at a vertex that the other side has seen too, or it is complete.
-/
theorem advance_spec {neighbours : Vertex → List Vertex} {seen : Vertex → Bool}
    (hs : Searched R o level side) (hNeighbours : ∀ v w, w ∈ neighbours v ↔ R v w)
    (hSeen : ∀ v ∈ side.paths.keys, seen v = false) :
    (∃ next w p, side.advance neighbours seen = (next, some w) ∧ seen w = true ∧
        next.paths.get? w = some p ∧ IsWay (flip R) w o p ∧ p.length ≤ level + 2) ∨
      ∃ next, side.advance neighbours seen = (next, none) ∧ Searched R o (level + 1) next ∧
        (∀ v ∈ next.paths.keys, seen v = false) ∧
        next.paths.keys.length = side.paths.keys.length + next.frontier.length := by
  have hStart : Growing R o level side { side with frontier := [] } :=
    { distinct := hs.distinct
      kept := fun _ _ h => h
      way := fun v p hp => (hs.way v p hp).imp_right fun h => by omega
      fresh := fun _ h => .inl h
      joined := by simp
      size_eq := by simp }
  have hLinks : ∀ e ∈ side.frontier.flatMap fun v => (neighbours v).map (v, ·),
      R e.1 e.2 ∧ ∃ p, side.paths.get? e.1 = some p ∧ p.length ≤ level + 1 := by
    intro e he
    obtain ⟨v, hv, he⟩ := List.mem_flatMap.1 he
    obtain ⟨w, hw, rfl⟩ := List.mem_map.1 he
    obtain ⟨p, hp, -, hLength⟩ := hs.exists_way (hs.joined v hv)
    exact ⟨(hNeighbours v w).1 hw, p, hp, hLength⟩
  obtain ⟨hGrow, ⟨w, hFound, hw, hKey⟩ | ⟨hNone, hAll, hOld⟩⟩ :=
    explore_spec seen hStart hLinks
  · obtain ⟨p, hp⟩ := (OrderedMap.exists_get?_iff_mem_keys _ _).2 hKey
    exact .inl ⟨_, w, p, Prod.ext rfl hFound, hw, hp, hGrow.way w p hp⟩
  · refine .inr ⟨_, Prod.ext rfl hNone, ?_, ?_, hGrow.size_eq⟩
    · refine hGrow.searched hs fun v hv w link => hAll (v, w) ?_
      exact List.mem_flatMap.2 ⟨v, hv, List.mem_map_of_mem ((hNeighbours v w).2 link)⟩
    · intro v hv
      rcases hOld v hv with hv | hv
      · exact hSeen v hv
      · exact hv

end Side

variable (g : CallGraph)

/-- An edge of the graph. -/
def Edge (g : CallGraph) (u v : Vertex) : Prop := (u, v) ∈ g.edges.keys

theorem mem_successors_iff (v w : Vertex) : w ∈ g.successors v ↔ g.Edge v w := by
  simp [successors, Edge]

theorem mem_predecessors_iff (v w : Vertex) : w ∈ g.predecessors v ↔ flip g.Edge v w := by
  simp [predecessors, Edge, flip]

/-- Every edge is between vertices. -/
def Closed (g : CallGraph) : Prop :=
  ∀ u v, g.Edge u v → u ∈ g.vertices.keys ∧ v ∈ g.vertices.keys

variable {g} {a b : Vertex}

/-- Two sides that have searched their levels and have seen no vertex in common. -/
structure Apart (g : CallGraph) (a b : Vertex) (k l : Nat) (forward backward : Side) : Prop where
  forward_searched : forward.Searched g.Edge a k
  backward_searched : backward.Searched (flip g.Edge) b l
  disjoint : ∀ v ∈ forward.paths.keys, v ∉ backward.paths.keys

namespace Apart

variable {k l n : Nat} {forward backward : Side}

/-- Every path is longer than the levels of both sides together. -/
theorem lt_hops (hs : Apart g a b k l forward backward) (hops : Hops g.Edge n a b) : k + l < n := by
  by_contra hShort
  obtain ⟨i, j, rfl, hi, hj⟩ : ∃ i j, n = i + j ∧ i ≤ k ∧ j ≤ l :=
    ⟨min n k, n - min n k, by omega, by omega, by omega⟩
  obtain ⟨v, hFirst, hSecond⟩ := hops.split
  exact hs.disjoint v (hs.forward_searched.near hi hFirst)
    (hs.backward_searched.near hj hSecond.flip)

/-- While there is a path, neither side runs out of vertices to explore. -/
theorem frontier_ne_nil (hs : Apart g a b k l forward backward) (hops : Hops g.Edge n a b) :
    forward.frontier ≠ [] ∧ backward.frontier ≠ [] := by
  constructor
  · intro hNil
    exact hs.disjoint b (hs.forward_searched.mem_of_frontier_nil hNil hops)
      (hs.backward_searched.near (Nat.zero_le l) (.here b))
  · intro hNil
    exact hs.disjoint a (hs.forward_searched.near (Nat.zero_le k) (.here a))
      (hs.backward_searched.mem_of_frontier_nil hNil hops.flip)

theorem length_le (hs : Apart g a b k l forward backward) (hClosed : g.Closed)
    (ha : a ∈ g.vertices.keys) (hb : b ∈ g.vertices.keys) :
    forward.paths.keys.length + backward.paths.keys.length ≤ 2 * g.vertices.keys.length := by
  have := hs.forward_searched.length_le ha fun u v link => (hClosed u v link).2
  have := hs.backward_searched.length_le hb fun u v link => (hClosed v u link).1
  omega

end Apart

/-- The search finds a vertex on a shortest path, if there is a path at all. -/
theorem meet_spec (levels : Nat) {k l n : Nat} {forward backward : Side} (hClosed : g.Closed)
    (ha : a ∈ g.vertices.keys) (hb : b ∈ g.vertices.keys)
    (hs : Apart g a b k l forward backward) (hops : Hops g.Edge n a b)
    (hLevels : 2 * g.vertices.keys.length <
      levels + (forward.paths.keys.length + backward.paths.keys.length)) :
    ∃ forward' backward' v p q, g.meet levels forward backward = some (forward', backward', v) ∧
      forward'.paths.get? v = some p ∧ backward'.paths.get? v = some q ∧
      IsWay (flip g.Edge) v a p ∧ IsWay g.Edge v b q ∧
      ∀ m, Hops g.Edge m a b → p.length + q.length ≤ m + 2 := by
  induction levels generalizing k l forward backward with
  | zero =>
      have := hs.length_le hClosed ha hb
      omega
  | succ levels ih =>
      obtain ⟨hForward, hBackward⟩ := hs.frontier_ne_nil hops
      have hSome : (forward.frontier.isEmpty || backward.frontier.isEmpty) = false := by
        simp [hForward, hBackward]
      rw [meet, hSome, if_neg Bool.false_ne_true]
      split
      · have hUnseen : ∀ v ∈ forward.paths.keys, backward.paths.contains v = false :=
          fun v hv => (OrderedMap.contains_eq_false_iff _ _).2 (hs.disjoint v hv)
        rcases Side.advance_spec hs.forward_searched g.mem_successors_iff hUnseen with
          ⟨next, w, p, hAdvance, hw, hp, hWay, hLength⟩ | ⟨next, hAdvance, hNext, hUnseen, hSize⟩
        · obtain ⟨q, hq, hWay', hLength'⟩ :=
            hs.backward_searched.exists_way ((OrderedMap.contains_iff_mem_keys _ _).1 hw)
          rw [hAdvance]
          refine ⟨next, backward, w, p, q, rfl, hp, hq, hWay, hWay', fun m hm => ?_⟩
          have := hs.lt_hops hm
          omega
        · rw [hAdvance]
          have hApart : Apart g a b (k + 1) l next backward :=
            ⟨hNext, hs.backward_searched, fun v hv =>
              (OrderedMap.contains_eq_false_iff _ _).1 (hUnseen v hv)⟩
          have := List.length_pos_iff.2 (hApart.frontier_ne_nil hops).1
          exact ih hApart (by omega)
      · have hUnseen : ∀ v ∈ backward.paths.keys, forward.paths.contains v = false :=
          fun v hv => (OrderedMap.contains_eq_false_iff _ _).2 fun hv' => hs.disjoint v hv' hv
        rcases Side.advance_spec hs.backward_searched g.mem_predecessors_iff hUnseen with
          ⟨next, w, q, hAdvance, hw, hq, hWay, hLength⟩ | ⟨next, hAdvance, hNext, hUnseen, hSize⟩
        · obtain ⟨p, hp, hWay', hLength'⟩ :=
            hs.forward_searched.exists_way ((OrderedMap.contains_iff_mem_keys _ _).1 hw)
          rw [hAdvance]
          refine ⟨forward, next, w, p, q, rfl, hp, hq, hWay', hWay, fun m hm => ?_⟩
          have := hs.lt_hops hm
          omega
        · rw [hAdvance]
          have hApart : Apart g a b k (l + 1) forward next :=
            ⟨hs.forward_searched, hNext, fun v hv hv' =>
              (OrderedMap.contains_eq_false_iff _ _).1 (hUnseen v hv') hv⟩
          have := List.length_pos_iff.2 (hApart.frontier_ne_nil hops).2
          exact ih hApart (by omega)

/-- A path that the search returns is one from end to end, and no path is shorter. If there is a
path, the search returns one. -/
theorem shortestPath_spec {n : Nat} (hClosed : g.Closed) (ha : a ∈ g.vertices.keys)
    (hb : b ∈ g.vertices.keys) (hops : Hops g.Edge n a b) :
    ∃ path, g.shortestPath a b = some path ∧ IsWay g.Edge a b path ∧
      ∀ m, Hops g.Edge m a b → path.length ≤ m + 1 := by
  have hThere : (!(g.vertices.contains a && g.vertices.contains b)) = false := by
    simp [(OrderedMap.contains_iff_mem_keys _ _).2 ha, (OrderedMap.contains_iff_mem_keys _ _).2 hb]
  unfold shortestPath
  rw [hThere, if_neg Bool.false_ne_true]
  split
  · next hSame =>
      subst hSame
      exact ⟨[a], rfl, .single a, fun m _ => Nat.le_add_left 1 m⟩
  · next hOther =>
      have hApart : Apart g a b 0 0 (.start a) (.start b) := by
        refine ⟨Side.searched_start _ a, Side.searched_start _ b, fun v hv hv' => hOther ?_⟩
        rw [Side.keys_start] at hv hv'
        exact (List.mem_singleton.1 hv).symm.trans (List.mem_singleton.1 hv')
      obtain ⟨forward, backward, v, p, q, hMeet, hp, hq, hWay, hWay', hShort⟩ :=
        meet_spec (2 * g.vertices.size + 2) hClosed ha hb hApart hops (by
          have : g.vertices.keys.length = g.vertices.size := List.length_map _
          omega)
      refine ⟨p.reverse ++ q.drop 1, ?_, hWay.reverse.append hWay', fun m hm => ?_⟩
      · simp [hMeet, hp, hq]
      · have := hShort m hm
        obtain ⟨i, hLength, -⟩ := hWay'.hops
        rw [List.length_append, List.length_reverse, List.length_drop]
        omega

end HotPath.CallGraph
