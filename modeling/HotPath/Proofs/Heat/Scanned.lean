import HotPath.Proofs.Heat.Explored

/-! What scanning leaves behind. The marks on nodes and the graph depend on nothing but the roots
and the list of functions that were scanned, so they are described by recursion over that list. -/

namespace HotPath

namespace CallGraph

variable {g : CallGraph}

theorem mem_edges_enter (r : Root) (u v : Vertex) :
    (u, v) ∈ (g.enter r).edges.keys ↔
      (u = .source ∧ v = .function r.function.key) ∨ (u, v) ∈ g.edges.keys := by
  unfold enter addRoot
  rw [OrderedMap.mem_keys_insert, Prod.mk.injEq]
  rfl

theorem mem_edges_record (caller : Key) (call : Heat.LocalCall) (u v : Vertex) :
    (u, v) ∈ (g.record caller call).edges.keys ↔
      (u = .function caller ∧ v = .function call.target.key) ∨ (u, v) ∈ g.edges.keys := by
  unfold record addCall
  simp only [OrderedMap.mem_keys_insert, Prod.mk.injEq]
  split <;> rfl

theorem mem_vertices_enter (r : Root) (v : Vertex) :
    v ∈ (g.enter r).vertices.keys ↔ v = .function r.function.key ∨ v ∈ g.vertices.keys := by
  unfold enter addRoot addVertex
  rw [OrderedMap.mem_keys_insert]

theorem mem_vertices_record (caller : Key) (call : Heat.LocalCall) (v : Vertex) :
    v ∈ (g.record caller call).vertices.keys ↔
      v = .function call.target.key ∨ v ∈ g.vertices.keys := by
  unfold record addCall
  simp only
  split
  · next hThere =>
      rw [OrderedMap.contains_iff_mem_keys] at hThere
      constructor
      · exact Or.inr
      · rintro (rfl | hv)
        · exact hThere
        · exact hv
  · exact OrderedMap.mem_keys_insert _ _ _ _

/-- A call never changes the label of a vertex that is already there. -/
theorem get?_vertices_record {v : Vertex} {label : VertexLabel}
    (h : g.vertices.get? v = some label) (caller : Key) (call : Heat.LocalCall) :
    (g.record caller call).vertices.get? v = some label := by
  unfold record addCall
  simp only
  split
  · exact h
  · next hNew =>
      unfold addVertex
      rw [OrderedMap.get?_insert_of_ne]
      · exact h
      · rintro rfl
        exact hNew (by simp [OrderedMap.contains, h])

theorem mem_edges_record_foldl (caller : Key) (calls : List Heat.LocalCall) (u v : Vertex) :
    (u, v) ∈ (calls.foldl (record caller) g).edges.keys ↔
      (∃ call ∈ calls, u = .function caller ∧ v = .function call.target.key) ∨
        (u, v) ∈ g.edges.keys := by
  induction calls generalizing g with
  | nil => simp
  | cons call rest ih =>
      rw [List.foldl_cons, ih, mem_edges_record, or_left_comm]
      simp only [List.mem_cons, exists_eq_or_imp, or_assoc]

theorem mem_vertices_record_foldl (caller : Key) (calls : List Heat.LocalCall) (v : Vertex) :
    v ∈ (calls.foldl (record caller) g).vertices.keys ↔
      (∃ call ∈ calls, v = .function call.target.key) ∨ v ∈ g.vertices.keys := by
  induction calls generalizing g with
  | nil => simp
  | cons call rest ih =>
      rw [List.foldl_cons, ih, mem_vertices_record, or_left_comm]
      simp only [List.mem_cons, exists_eq_or_imp, or_assoc]

theorem mem_edges_enter_foldl (roots : List Root) (u v : Vertex) :
    (u, v) ∈ (roots.foldl enter g).edges.keys ↔
      (∃ r ∈ roots, u = .source ∧ v = .function r.function.key) ∨ (u, v) ∈ g.edges.keys := by
  induction roots generalizing g with
  | nil => simp
  | cons r rest ih =>
      rw [List.foldl_cons, ih, mem_edges_enter, or_left_comm]
      simp only [List.mem_cons, exists_eq_or_imp, or_assoc]

theorem mem_vertices_enter_foldl (roots : List Root) (v : Vertex) :
    v ∈ (roots.foldl enter g).vertices.keys ↔
      (∃ r ∈ roots, v = .function r.function.key) ∨ v ∈ g.vertices.keys := by
  induction roots generalizing g with
  | nil => simp
  | cons r rest ih =>
      rw [List.foldl_cons, ih, mem_vertices_enter, or_left_comm]
      simp only [List.mem_cons, exists_eq_or_imp, or_assoc]

theorem get?_vertices_record_foldl {v : Vertex} {label : VertexLabel}
    (h : g.vertices.get? v = some label) (caller : Key) (calls : List Heat.LocalCall) :
    (calls.foldl (record caller) g).vertices.get? v = some label := by
  induction calls generalizing g with
  | nil => exact h
  | cons call rest ih => exact ih (get?_vertices_record h caller call)

end CallGraph

namespace Heat

variable {t : ScopeTable} {limit : Int} {roots : List Root} {scanned : Queue}

/-- The graph after the roots have been entered and the calls of some functions recorded. -/
def recorded (t : ScopeTable) (roots : List Root) (scanned : Queue) : CallGraph :=
  scanned.foldl (fun g e => (callsIn t e.1).foldl (CallGraph.record e.1.key) g)
    (roots.foldl CallGraph.enter start.graph)

/-- The marks on nodes after some functions have been scanned. -/
def spread (scanned : Queue) : MarkTable :=
  scanned.foldl (fun table e => table.markAll e.1.bodyNodes e.2 e.1.key) {}

theorem graph_enterRoot_foldl (roots : List Root) (s : Heat × Queue) :
    (roots.foldl enterRoot s).1.graph = roots.foldl CallGraph.enter s.1.graph ∧
      (roots.foldl enterRoot s).1.nodes = s.1.nodes := by
  induction roots generalizing s with
  | nil => exact ⟨rfl, rfl⟩
  | cons r rest ih =>
      obtain ⟨hGraph, hNodes⟩ := ih (enterRoot s r)
      rw [List.foldl_cons, List.foldl_cons, hGraph, hNodes, enterRoot_eq s.1 s.2]
      exact ⟨rfl, rfl⟩

theorem recorded_concat (t : ScopeTable) (roots : List Root) (scanned : Queue)
    (e : Cursor × Int) :
    recorded t roots (scanned ++ [e]) =
      (callsIn t e.1).foldl (CallGraph.record e.1.key) (recorded t roots scanned) := by
  simp only [recorded, List.foldl_append, List.foldl_cons, List.foldl_nil]

theorem spread_concat (scanned : Queue) (e : Cursor × Int) :
    spread (scanned ++ [e]) = (spread scanned).markAll e.1.bodyNodes e.2 e.1.key := by
  simp only [spread, List.foldl_append, List.foldl_cons, List.foldl_nil]

/-- Graph and node marks at any moment of a run. -/
theorem Stage.Runs.heat_eq {s : Stage} (run : Runs t limit (opening roots) s) :
    s.heat.graph = recorded t roots s.scanned ∧ s.heat.nodes = spread s.scanned := by
  have hStart := graph_enterRoot_foldl roots (start, [])
  refine run.keeps (P := fun s => s.heat.graph = recorded t roots s.scanned ∧
    s.heat.nodes = spread s.scanned) ?_ hStart
  rintro s s' step ⟨hGraph, hNodes⟩
  cases step with
  | skip hSkip => exact ⟨hGraph, hNodes⟩
  | visit hVisit hScan =>
      simp only at hGraph hNodes ⊢
      rw [recorded_concat, spread_concat, ← hGraph, ← hNodes]
      exact ⟨rfl, rfl⟩

/-- The links that roots and scanned functions give rise to. -/
inductive Linked (t : ScopeTable) (roots : List Root) (scanned : Queue) : Vertex → Vertex → Prop
  | root {r : Root} (hr : r ∈ roots) :
      Linked t roots scanned .source (.function r.function.key)
  | call {e : Cursor × Int} {call : LocalCall} (he : e ∈ scanned) (hCall : call ∈ callsIn t e.1) :
      Linked t roots scanned (.function e.1.key) (.function call.target.key)

theorem linked_iff {u v : Vertex} :
    Linked t roots scanned u v ↔
      (∃ r ∈ roots, u = .source ∧ v = .function r.function.key) ∨
        ∃ e ∈ scanned, ∃ call ∈ callsIn t e.1,
          u = .function e.1.key ∧ v = .function call.target.key := by
  constructor
  · rintro (@⟨r, hr⟩ | @⟨e, call, he, hCall⟩)
    · exact .inl ⟨r, hr, rfl, rfl⟩
    · exact .inr ⟨e, he, call, hCall, rfl, rfl⟩
  · rintro (⟨r, hr, rfl, rfl⟩ | ⟨e, he, call, hCall, rfl, rfl⟩)
    · exact .root hr
    · exact .call he hCall

theorem linked_concat_iff {e : Cursor × Int} {u v : Vertex} :
    Linked t roots (scanned ++ [e]) u v ↔
      (∃ call ∈ callsIn t e.1, u = .function e.1.key ∧ v = .function call.target.key) ∨
        Linked t roots scanned u v := by
  simp only [linked_iff, List.mem_append, List.mem_singleton, or_and_right, exists_or,
    exists_eq_left]
  rw [or_left_comm, or_comm, or_assoc, or_left_comm, or_comm]

/-- The recorded edges are the links. -/
theorem mem_edges_recorded {u v : Vertex} :
    (u, v) ∈ (recorded t roots scanned).edges.keys ↔ Linked t roots scanned u v := by
  induction scanned using List.reverseRecOn with
  | nil =>
      refine (CallGraph.mem_edges_enter_foldl roots u v).trans ?_
      rw [linked_iff]
      refine or_congr_right ⟨fun hNone => (List.not_mem_nil hNone).elim, ?_⟩
      rintro ⟨e, he, -⟩
      cases he
  | append_singleton scanned e ih =>
      rw [recorded_concat, CallGraph.mem_edges_record_foldl, ih, linked_concat_iff]

theorem source_mem_recorded (t : ScopeTable) (roots : List Root) (scanned : Queue) :
    .source ∈ (recorded t roots scanned).vertices.keys := by
  induction scanned using List.reverseRecOn with
  | nil => exact (CallGraph.mem_vertices_enter_foldl roots .source).2 (.inr List.mem_cons_self)
  | append_singleton scanned e ih =>
      rw [recorded_concat, CallGraph.mem_vertices_record_foldl]
      exact .inr ih

/-- Whatever a link leads to is a vertex. -/
theorem Linked.mem_vertices {u v : Vertex} (h : Linked t roots scanned u v) :
    v ∈ (recorded t roots scanned).vertices.keys := by
  induction scanned using List.reverseRecOn with
  | nil =>
      rcases linked_iff.1 h with ⟨r, hr, -, rfl⟩ | ⟨e, he, -⟩
      · exact (CallGraph.mem_vertices_enter_foldl roots _).2 (.inl ⟨r, hr, rfl⟩)
      · cases he
  | append_singleton scanned e ih =>
      rw [recorded_concat, CallGraph.mem_vertices_record_foldl]
      rcases linked_concat_iff.1 h with ⟨call, hCall, -, rfl⟩ | h
      · exact .inl ⟨call, hCall, rfl⟩
      · exact .inr (ih h)

/-- The vertices are the source and whatever a link leads to. -/
theorem mem_vertices_recorded {v : Vertex} :
    v ∈ (recorded t roots scanned).vertices.keys ↔
      v = .source ∨ ∃ u, Linked t roots scanned u v := by
  constructor
  · intro hv
    induction scanned using List.reverseRecOn with
    | nil =>
        rcases (CallGraph.mem_vertices_enter_foldl roots v).1 hv with ⟨r, hr, rfl⟩ | hStart
        · exact .inr ⟨.source, .root hr⟩
        · exact .inl (List.mem_singleton.1 hStart)
    | append_singleton scanned e ih =>
        rw [recorded_concat, CallGraph.mem_vertices_record_foldl] at hv
        rcases hv with ⟨call, hCall, rfl⟩ | hOld
        · exact .inr ⟨_, linked_concat_iff.2 (.inl ⟨call, hCall, rfl, rfl⟩)⟩
        · refine (ih hOld).imp_right ?_
          rintro ⟨u, hLink⟩
          exact ⟨u, linked_concat_iff.2 (.inr hLink)⟩
  · rintro (rfl | ⟨u, hLink⟩)
    · exact source_mem_recorded t roots scanned
    · exact hLink.mem_vertices

/-- A root is called by the label of the last root with its function. -/
theorem exists_label_recorded (t : ScopeTable) {r : Root} (hr : r ∈ roots) (scanned : Queue) :
    ∃ r' ∈ roots, r'.function.key = r.function.key ∧
      (recorded t roots scanned).labelOf (.function r.function.key) = r'.label := by
  suffices hGet : ∃ r' ∈ roots, r'.function.key = r.function.key ∧ ∃ line,
      (recorded t roots scanned).vertices.get? (.function r.function.key) =
        some ⟨r'.label, line⟩ by
    obtain ⟨r', hr', hKey, line, hLabel⟩ := hGet
    exact ⟨r', hr', hKey, by simp [CallGraph.labelOf, hLabel]⟩
  induction scanned using List.reverseRecOn with
  | nil =>
      unfold recorded
      rw [List.foldl_nil]
      induction roots using List.reverseRecOn with
      | nil => cases hr
      | append_singleton rs last ih =>
          rw [List.foldl_append, List.foldl_cons, List.foldl_nil]
          unfold CallGraph.enter CallGraph.addRoot CallGraph.addVertex
          simp only [OrderedMap.get?_insert]
          by_cases hSame : r.function.key = last.function.key
          · exact ⟨last, by simp, hSame.symm, some last.function.line, by simp [hSame]⟩
          · have hOld : r ∈ rs := by
              rcases List.mem_append.1 hr with hr | hr
              · exact hr
              · exact (hSame (by rw [List.mem_singleton.1 hr])).elim
            obtain ⟨r', hr', hKey, line, hLabel⟩ := ih hOld
            refine ⟨r', List.mem_append_left _ hr', hKey, line, ?_⟩
            rw [if_neg (by simpa using hSame)]
            exact hLabel
  | append_singleton scanned e ih =>
      obtain ⟨r', hr', hKey, line, hLabel⟩ := ih
      rw [recorded_concat]
      exact ⟨r', hr', hKey, line, CallGraph.get?_vertices_record_foldl hLabel _ _⟩

/-! The marks on nodes. -/

theorem keyed_spread (scanned : Queue) : (spread scanned).Keyed := by
  induction scanned using List.reverseRecOn with
  | nil => exact MarkTable.keyed_empty
  | append_singleton scanned e ih =>
      rw [spread_concat]
      exact ih.markAll _ _ _

/-- Every mark on a node comes from a scanned body. -/
theorem exists_of_get?_spread {k : Key} {m : Mark} (h : (spread scanned).get? k = some m) :
    ∃ e ∈ scanned, m.node ∈ e.1.bodyNodes ∧ m.depth = e.2 ∧ m.region = e.1.key := by
  induction scanned using List.reverseRecOn with
  | nil => cases h
  | append_singleton scanned e ih =>
      rw [spread_concat] at h
      rcases MarkTable.get?_markAll h with hOld | ⟨⟨c, hc, -, rfl⟩, -⟩
      · obtain ⟨e', he', hMark⟩ := ih hOld
        exact ⟨e', List.mem_append_left _ he', hMark⟩
      · exact ⟨e, by simp, hc, rfl, rfl⟩

/-- Every node of a scanned body is marked at the depth of the scan or a smaller one. -/
theorem within_spread {e : Cursor × Int} (he : e ∈ scanned) {c : Cursor}
    (hc : c ∈ e.1.bodyNodes) : (spread scanned).Within c.key e.2 := by
  induction scanned using List.reverseRecOn with
  | nil => cases he
  | append_singleton scanned last ih =>
      rw [spread_concat]
      rcases List.mem_append.1 he with he | he
      · exact (ih he).markAll _ _ _
      · obtain rfl := List.mem_singleton.1 he
        exact MarkTable.within_markAll _ hc _ _

/-- Heat that has spread from the roots until nothing waited, with the functions that were scanned.
-/
structure Settled (t : ScopeTable) (limit : Int) (roots : List Root) (h : Heat)
    (scanned : Queue) : Prop where
  explored : Explored t limit roots ⟨h, [], scanned⟩
  graph_eq : h.graph = recorded t roots scanned
  nodes_eq : h.nodes = spread scanned

theorem Stage.Runs.settled {h : Heat} (run : Runs t limit (opening roots) ⟨h, [], scanned⟩) :
    Settled t limit roots h scanned :=
  ⟨run.keeps Explored.step (explored_opening t limit roots), run.heat_eq.1, run.heat_eq.2⟩

namespace Settled

variable {h : Heat}

theorem mem_entries (e : Cursor × Int) (he : e ∈ scanned) :
    e ∈ (⟨h, [], scanned⟩ : Stage).entries :=
  List.mem_append_left _ he

theorem mem_inOrder_iff (hs : Settled t limit roots h scanned) {m : Mark} :
    m ∈ h.nodes.inOrder ↔ h.nodes.get? m.node.key = some m :=
  MarkTable.mem_inOrder_iff (hs.nodes_eq ▸ keyed_spread scanned)

theorem exists_of_mem_inOrder (hs : Settled t limit roots h scanned) {m : Mark}
    (hm : m ∈ h.nodes.inOrder) :
    ∃ e ∈ scanned, m.node ∈ e.1.bodyNodes ∧ m.depth = e.2 ∧ m.region = e.1.key := by
  rw [hs.mem_inOrder_iff, hs.nodes_eq] at hm
  exact exists_of_get?_spread hm

/-- No function beyond the limit is scanned. -/
theorem depth_le (hs : Settled t limit roots h scanned) (hLimit : 0 ≤ limit) {e : Cursor × Int}
    (he : e ∈ scanned) : e.2 ≤ limit := by
  rcases hs.explored.origin e (mem_entries e he) with ⟨hZero, -⟩ | ⟨caller, -, hLeads⟩
  · rw [hZero]
    exact hLimit
  · exact hLeads.limited

/-- A negative limit has the effect of the limit zero: roots are scanned whatever it is. -/
theorem max_zero (hs : Settled t limit roots h scanned) :
    Settled t (max limit 0) roots h scanned := by
  refine ⟨{ hs.explored with origin := fun e he => ?_, call_marked := fun e he hLimit => ?_ },
    hs.graph_eq, hs.nodes_eq⟩
  · rcases hs.explored.origin e he with hRoot | ⟨caller, hc, hLeads⟩
    · exact .inl hRoot
    · exact .inr ⟨caller, hc, { hLeads with limited := le_max_of_le_left hLeads.limited }⟩
  · have := hs.explored.nonneg e (mem_entries e he)
    exact hs.explored.call_marked e he (by omega)

end Settled

end Heat

end HotPath
