import HotPath.Heat.Cycle
import HotPath.Proofs.Heat.Chain
import HotPath.Proofs.Heat.History

/-! The recorded graph. Since no function is scanned twice, an edge between two functions holds one
line for each call that it stands for. Everything in the graph is reached from the source and
nothing leads back to it, so no cycle passes through the source. -/

namespace HotPath

/-- Whether a node is a call that resolves to a name for a function with a given key. -/
def ScopeTable.callsKey (t : ScopeTable) (k : Key) (c : Cursor) : Bool :=
  c.isCall && match t.resolveCallee c with
    | .ok (some b) => b.target?.any (·.key = k)
    | _ => false

namespace CallGraph

variable {g : CallGraph} {caller k l : Key} {lines : List Int}

/-- What the graph holds for calls between two functions, given the lines of the calls. Without a
call there is no edge. -/
def entry (lines : List Int) : Option (Option (List Int)) :=
  if lines = [] then none else some (some lines)

/-- The lines of those calls that invoke a function with a given key. -/
def linesTo (l : Key) (calls : List Heat.LocalCall) : List Int :=
  (calls.filter (·.target.key = l)).map (·.call.line)

theorem getD_entry (lines : List Int) : ((entry lines).bind id).getD [] = lines := by
  unfold entry
  split
  · next hNone => rw [hNone]; rfl
  · rfl

theorem edges_record (caller : Key) (call : Heat.LocalCall) :
    (g.record caller call).edges =
      (g.addCall caller call.target.key call.call.line).edges := by
  unfold record
  simp only
  split <;> rfl

/-- A call adds its line to one edge. -/
theorem get?_edges_record (h : g.edges.get? (.function k, .function l) = entry lines)
    (call : Heat.LocalCall) :
    (g.record caller call).edges.get? (.function k, .function l) =
      entry (lines ++ if k = caller then linesTo l [call] else []) := by
  rw [edges_record]
  simp only [addCall, OrderedMap.get?_insert, Prod.mk.injEq, Vertex.function.injEq]
  by_cases hCaller : k = caller
  · subst hCaller
    by_cases hCallee : l = call.target.key
    · subst hCallee
      rw [h, getD_entry]
      simp [linesTo, entry]
    · simp [h, hCallee, linesTo, Ne.symm hCallee]
  · simp [h, hCaller]

theorem get?_edges_record_foldl (h : g.edges.get? (.function k, .function l) = entry lines)
    (calls : List Heat.LocalCall) :
    (calls.foldl (record caller) g).edges.get? (.function k, .function l) =
      entry (lines ++ if k = caller then linesTo l calls else []) := by
  induction calls generalizing g lines with
  | nil => simpa [linesTo] using h
  | cons call rest ih =>
      rw [List.foldl_cons, ih (get?_edges_record h call)]
      by_cases hCaller : k = caller
      · by_cases hCallee : call.target.key = l
        · simp [hCaller, linesTo, hCallee]
        · simp [hCaller, linesTo, hCallee]
      · simp [hCaller]

/-- Roots leave the edges between functions alone. -/
theorem get?_edges_enter_foldl (roots : List Root) (k l : Key) :
    (roots.foldl enter Heat.start.graph).edges.get? (.function k, .function l) = none := by
  induction roots using List.reverseRecOn with
  | nil => rfl
  | append_singleton rs r ih =>
      rw [List.foldl_append]
      unfold enter addRoot
      simp only [List.foldl_cons, List.foldl_nil, OrderedMap.get?_insert, Prod.mk.injEq,
        reduceCtorEq, false_and, if_false]
      exact ih

/-- Vertices that are found on a way out of a vertex and back to it form a closed way. -/
theorem exists_way_of_mem_cyclesThrough {home last : Vertex} {fuel : Nat}
    {allowed path cycle : List Vertex} (hPath : IsWay g.Edge home last path.reverse)
    (hCycle : cycle ∈ g.cyclesThrough home fuel allowed last path) :
    ∃ last, IsWay g.Edge home last cycle ∧ g.Edge last home := by
  induction fuel generalizing allowed last path with
  | zero => cases hCycle
  | succ fuel ih =>
      obtain ⟨v, hv, hCycle⟩ := List.mem_flatMap.1 hCycle
      have hEdge := (mem_successors_iff g last v).1 hv
      split at hCycle
      · next hHome =>
          rw [List.mem_singleton.1 hCycle]
          exact ⟨last, hPath, hHome ▸ hEdge⟩
      · split at hCycle
        · refine ih ?_ hCycle
          rw [List.reverse_cons]
          exact hPath.append (.cons hEdge (.single v))
        · cases hCycle

theorem Hops.reflTransGen {n : Nat} {u v : Vertex} (hops : Hops g.Edge n u v) :
    Relation.ReflTransGen g.Edge u v := by
  induction hops with
  | here => exact .refl
  | next _ link ih => exact .tail ih link

/-- A cycle: a way along edges, with an edge from its end back to its beginning. -/
def IsCycle (g : CallGraph) (cycle : List Vertex) : Prop :=
  ∃ home last, IsWay g.Edge home last cycle ∧ g.Edge last home

theorem isCycle_of_mem_cyclesFrom {vs cycle : List Vertex} (h : cycle ∈ g.cyclesFrom vs) :
    g.IsCycle cycle := by
  induction vs with
  | nil => cases h
  | cons v later ih =>
      rcases List.mem_append.1 h with hFirst | hLater
      · exact ⟨v, exists_way_of_mem_cyclesThrough (.single v) hFirst⟩
      · exact ih hLater

theorem IsWay.exists_edge {u v w : Vertex} {path : List Vertex} (h : IsWay g.Edge u w path)
    (hv : v ∈ path) : v = u ∨ ∃ before, g.Edge before v := by
  induction path generalizing u with
  | nil => cases hv
  | cons x rest ih =>
      rcases h.cases_first with ⟨-, hPath⟩ | ⟨y, rest', hPath, link, hRest⟩
      · rw [hPath] at hv
        exact .inl (List.mem_singleton.1 hv)
      · cases hPath
        rcases List.mem_cons.1 hv with hFirst | hv
        · exact .inl hFirst
        · rcases ih hRest hv with rfl | hBefore
          · exact .inr ⟨_, link⟩
          · exact .inr hBefore

/-- Some edge leads to each vertex of a cycle. -/
theorem IsCycle.exists_edge {cycle : List Vertex} (h : g.IsCycle cycle) {v : Vertex}
    (hv : v ∈ cycle) : ∃ before, g.Edge before v := by
  obtain ⟨home, last, hWay, hBack⟩ := h
  rcases hWay.exists_edge hv with rfl | hBefore
  · exact ⟨last, hBack⟩
  · exact hBefore

end CallGraph

namespace Heat

open CallGraph

variable {t : ScopeTable} {limit : Int} {roots : List Root} {h : Heat} {scanned : Queue}

theorem callsKey_iff {k : Key} {c : Cursor} :
    t.callsKey k c = true ↔ ∃ call, callAt t c = some call ∧ call.target.key = k := by
  simp only [callAt_eq_some_iff, ScopeTable.callsKey, Bool.and_eq_true]
  constructor
  · rintro ⟨hCall, hKey⟩
    split at hKey
    · next b hResolve =>
        obtain ⟨f, hTarget, hKey⟩ := (Option.any_eq_true _ _).1 hKey
        exact ⟨⟨c, b.name, f⟩, ⟨hCall, b, f, hResolve, hTarget, rfl⟩, of_decide_eq_true hKey⟩
    · cases hKey
  · rintro ⟨call, ⟨hCall, b, f, hResolve, hTarget, rfl⟩, hKey⟩
    simp only at hKey
    simp [hCall, hResolve, hTarget, hKey]

theorem exists_mem_callsIn_key_iff {f : Cursor} {k : Key} :
    (∃ call ∈ callsIn t f, call.target.key = k) ↔ ∃ c ∈ f.bodyNodes, t.callsKey k c = true := by
  simp only [callsIn, List.mem_filterMap, callsKey_iff]
  constructor
  · rintro ⟨call, ⟨c, hc, hAt⟩, hKey⟩
    exact ⟨c, hc, call, hAt, hKey⟩
  · rintro ⟨c, hc, call, hAt, hKey⟩
    exact ⟨call, ⟨c, hc, hAt⟩, hKey⟩

/-- The lines of the calls in a body are listed in the order in which the calls stand in it. -/
theorem linesTo_callsIn (t : ScopeTable) (k : Key) (f : Cursor) :
    linesTo k (callsIn t f) = (f.bodyNodes.filter (t.callsKey k)).map (·.line) := by
  unfold linesTo callsIn
  induction f.bodyNodes with
  | nil => rfl
  | cons c rest ih =>
      cases hAt : callAt t c with
      | none =>
          have hNot : t.callsKey k c = false := by
            rw [Bool.eq_false_iff, ne_eq, callsKey_iff]
            simp [hAt]
          rw [List.filterMap_cons_none hAt, List.filter_cons_of_neg (by simp [hNot])]
          exact ih
      | some call =>
          have hSame : t.callsKey k c = decide (call.target.key = k) := by
            rw [Bool.eq_iff_iff, callsKey_iff]
            simp [hAt]
          obtain ⟨-, b, g, -, -, rfl⟩ := callAt_eq_some_iff.1 hAt
          rw [List.filterMap_cons_some hAt, List.filter_cons, List.filter_cons, hSame]
          split
          · rw [List.map_cons, List.map_cons, ih]
          · exact ih

theorem get?_edges_recorded (t : ScopeTable) (roots : List Root) (scanned : Queue) (k l : Key) :
    (recorded t roots scanned).edges.get? (.function k, .function l) =
      entry ((scanned.filter (·.1.key = k)).flatMap fun e => linesTo l (callsIn t e.1)) := by
  induction scanned using List.reverseRecOn with
  | nil => exact get?_edges_enter_foldl roots k l
  | append_singleton scanned e ih =>
      rw [recorded_concat, get?_edges_record_foldl ih]
      by_cases hKey : e.1.key = k
      · simp [List.filter_append, hKey]
      · simp [List.filter_append, hKey, Ne.symm hKey]

/-- Where no key was scanned twice, the entries with the key of one of them are that one. -/
theorem filter_key_eq {e : Cursor × Int} (hOnce : (scanned.map (·.1.key)).Nodup)
    (he : e ∈ scanned) : scanned.filter (·.1.key = e.1.key) = [e] := by
  obtain ⟨before, after, rfl⟩ := List.append_of_mem he
  simp only [List.map_append, List.map_cons, List.nodup_append', List.nodup_cons] at hOnce
  obtain ⟨-, ⟨hAfter, -⟩, hApart⟩ := hOnce
  have hNone : ∀ part : Queue, e.1.key ∉ part.map (·.1.key) →
      part.filter (·.1.key = e.1.key) = [] := by
    intro part hPart
    rw [List.filter_eq_nil_iff]
    intro x hx hSame
    exact hPart (List.mem_map.2 ⟨x, hx, of_decide_eq_true hSame⟩)
  have hBefore : e.1.key ∉ before.map (·.1.key) := fun hMem => hApart hMem List.mem_cons_self
  rw [List.filter_append, hNone before hBefore, List.filter_cons_of_pos (by simp),
    hNone after hAfter, List.nil_append]

/-- A graph is what the scanned functions and their calls make it. No cycle passes through the
source, whichever of the cycles are listed and however they are found; those that are listed are
cycles by their labels. -/
structure Records (t : ScopeTable) (roots : List Root) (scanned : Queue) (g : CallGraph) :
    Prop where
  scanned_once : (scanned.map (·.1.key)).Nodup
  source_last : ∀ u, ¬ g.Edge u .source
  source_edge : ∀ v, g.Edge .source v ↔ ∃ r ∈ roots, v = .function r.function.key
  call_edge : ∀ k l, g.Edge (.function k) (.function l) ↔
    ∃ e ∈ scanned, e.1.key = k ∧ ∃ c ∈ e.1.bodyNodes, t.callsKey l c = true
  call_lines : ∀ e ∈ scanned, ∀ l, g.Edge (.function e.1.key) (.function l) →
    g.edges.get? (.function e.1.key, .function l) =
      some (some ((e.1.bodyNodes.filter (t.callsKey l)).map (·.line)))
  connected : ∀ v ∈ g.vertices.keys, Relation.ReflTransGen g.Edge .source v
  source_off_cycles : ∀ cycle, g.IsCycle cycle → .source ∉ cycle
  cycles : ∀ labels ∈ g.cycles, ∃ cycle, g.IsCycle cycle ∧ .source ∉ cycle ∧
    labels = smallestRotation (cycle.map g.labelOf)

namespace Settled

theorem source_last (hs : Settled t limit roots h scanned) (u : Vertex) :
    ¬ h.graph.Edge u .source := by
  intro hEdge
  rcases linked_iff.1 (hs.edge_iff.1 hEdge) with ⟨r, -, -, hSource⟩ | ⟨e, -, call, -, -, hSource⟩
  · cases hSource
  · cases hSource

theorem source_edge (hs : Settled t limit roots h scanned) (v : Vertex) :
    h.graph.Edge .source v ↔ ∃ r ∈ roots, v = .function r.function.key := by
  rw [hs.edge_iff, linked_iff]
  simp

theorem call_edge (hs : Settled t limit roots h scanned) (k l : Key) :
    h.graph.Edge (.function k) (.function l) ↔
      ∃ e ∈ scanned, e.1.key = k ∧ ∃ c ∈ e.1.bodyNodes, t.callsKey l c = true := by
  simp only [hs.edge_iff, linked_iff, ← exists_mem_callsIn_key_iff]
  constructor
  · rintro (⟨r, -, hSource, -⟩ | ⟨e, he, call, hCall, hCaller, hCallee⟩)
    · cases hSource
    · exact ⟨e, he, (Vertex.function.inj hCaller).symm, call, hCall,
        (Vertex.function.inj hCallee).symm⟩
  · rintro ⟨e, he, rfl, call, hCall, rfl⟩
    exact .inr ⟨e, he, call, hCall, rfl, rfl⟩

theorem call_lines (hs : Settled t limit roots h scanned)
    (hOnce : (scanned.map (·.1.key)).Nodup) {e : Cursor × Int} (he : e ∈ scanned) {l : Key}
    (hEdge : h.graph.Edge (.function e.1.key) (.function l)) :
    h.graph.edges.get? (.function e.1.key, .function l) =
      some (some ((e.1.bodyNodes.filter (t.callsKey l)).map (·.line))) := by
  obtain ⟨held, hHeld⟩ := (OrderedMap.exists_get?_iff_mem_keys _ _).2 hEdge
  have hEntry : h.graph.edges.get? (.function e.1.key, .function l) =
      entry ((e.1.bodyNodes.filter (t.callsKey l)).map (·.line)) := by
    rw [hs.graph_eq, get?_edges_recorded, filter_key_eq hOnce he, List.flatMap_singleton,
      linesTo_callsIn]
  rw [hHeld] at hEntry ⊢
  unfold entry at hEntry
  split at hEntry
  · cases hEntry
  · exact hEntry

/-- A vertex that an edge leads to is reached from the source: the edge starts at the source, or at
a function that was scanned. -/
theorem reaches_of_edge (hs : Settled t limit roots h scanned) {u v : Vertex}
    (hEdge : h.graph.Edge u v) : Relation.ReflTransGen h.graph.Edge .source v := by
  rcases linked_iff.1 (hs.edge_iff.1 hEdge) with ⟨r, -, rfl, -⟩ | ⟨e, he, call, -, rfl, -⟩
  · exact .single hEdge
  · obtain ⟨n, hn⟩ := Int.eq_ofNat_of_zero_le (hs.explored.nonneg e (mem_entries e he))
    exact .tail (hs.hops he hn).reflTransGen hEdge

theorem connected (hs : Settled t limit roots h scanned) {v : Vertex}
    (hv : v ∈ h.graph.vertices.keys) : Relation.ReflTransGen h.graph.Edge .source v := by
  rw [hs.graph_eq, mem_vertices_recorded] at hv
  rcases hv with rfl | ⟨u, hLink⟩
  · exact .refl
  · exact hs.reaches_of_edge (hs.edge_iff.2 hLink)

/-- Nothing leads to the source, and to each vertex of a cycle something does. -/
theorem source_off_cycles (hs : Settled t limit roots h scanned) {cycle : List Vertex}
    (hCycle : h.graph.IsCycle cycle) : .source ∉ cycle := by
  intro hSource
  obtain ⟨u, hEdge⟩ := hCycle.exists_edge hSource
  exact hs.source_last u hEdge

theorem records (hs : Settled t limit roots h scanned)
    (hOnce : (scanned.map (·.1.key)).Nodup) : Records t roots scanned h.graph := by
  refine ⟨hOnce, hs.source_last, hs.source_edge, hs.call_edge,
    fun e he l hEdge => hs.call_lines hOnce he hEdge, fun v hv => hs.connected hv,
    fun cycle => hs.source_off_cycles, ?_⟩
  intro labels hLabels
  obtain ⟨cycle, hCycle, rfl⟩ := List.mem_map.1 (List.mem_mergeSort.1 hLabels)
  have hClosed := isCycle_of_mem_cyclesFrom hCycle
  exact ⟨cycle, hClosed, hs.source_off_cycles hClosed, rfl⟩

end Settled

end Heat

/-- Wherever roots are followed to the end, the recorded graph is what the functions that were
scanned make it. -/
theorem Engine.graph_exact (e : Engine) (root : Cursor) (a : Analysis)
    (hOk : ((e.propagate root).run ()).result = .ok a) :
    ∃ scanned, Heat.Stage.Runs a.scopes e.maxCallDepth (Heat.Stage.opening a.roots)
        ⟨a.heat, [], scanned⟩ ∧
      Heat.Records a.scopes a.roots scanned a.heat.graph := by
  obtain ⟨scanned, run⟩ := Heat.exists_runs_of_propagate_ok (propagated_of_ok hOk).heat
  obtain ⟨n, queued, hist⟩ := run.exists_history
  exact ⟨scanned, run, run.settled.records hist.orderly.scanned_once⟩

open Node in
/-- A loop whose callback calls one of two functions that call each other,
`useFrame(() => ping()); function ping() { pong() } function pong() { ping() }`. -/
def Cursor.pingPong : Cursor :=
  .root <| inner "program" "" 0 77 [
    inner "call_expression" "" 0 22 [
      word "function" 0 8 (.text "useFrame"),
      inner "arguments" "arguments" 8 22 [
        inner "arrow_function" "" 9 21 [
          inner "call_expression" "body" 15 21 [word "function" 15 19 (.text "ping")]]]],
    inner "function_declaration" "" 24 50 [
      word "name" 33 37 (.text "ping"),
      inner "statement_block" "body" 40 50 [
        inner "call_expression" "" 42 48 [word "function" 42 46 (.text "pong")]]],
    inner "function_declaration" "" 51 77 [
      word "name" 60 64 (.text "pong"),
      inner "statement_block" "body" 67 77 [
        inner "call_expression" "" 69 75 [word "function" 69 73 (.text "ping")]]]]

/-- An engine that follows two calls below the callbacks of `useFrame`. -/
def Engine.deepSample : Engine := { sample with maxCallDepth := 2 }

/-- The source leads to the callback and the callback to one of the functions, which lead to each
other. Their cycle is the only one. -/
theorem Engine.graph_exact_sample :
    ∃ a, ((deepSample.propagate .pingPong).run ()).result = .ok a ∧
      a.heat.graph.edges.keys.length = 4 ∧ a.heat.graph.cycles.length = 1 ∧
      ∃ scanned, Heat.Stage.Runs a.scopes deepSample.maxCallDepth (Heat.Stage.opening a.roots)
          ⟨a.heat, [], scanned⟩ ∧
        Heat.Records a.scopes a.roots scanned a.heat.graph ∧
        ∃ cycle, a.heat.graph.IsCycle cycle ∧ .source ∉ cycle := by
  have hFree : Cursor.pingPong.FaultFree := by decide +kernel
  obtain ⟨a, hStages, -⟩ := exists_propagated deepSample hFree (by decide +kernel)
  have hGraph : (((deepSample.propagate .pingPong).run ()).result.toOption.any
      fun a => a.heat.graph.edges.keys.length = 4 ∧
        (a.heat.graph.cyclesFrom a.heat.graph.vertices.keys).length = 1) = true := by decide +kernel
  rw [hStages.ok] at hGraph
  obtain ⟨hEdges, hFrom⟩ := of_decide_eq_true hGraph
  have hCycles : a.heat.graph.cycles.length = 1 := by simpa [CallGraph.cycles] using hFrom
  obtain ⟨scanned, run, hRecords⟩ := graph_exact _ _ a hStages.ok
  obtain ⟨labels, hLabels⟩ := List.exists_mem_of_length_pos (hCycles ▸ Nat.one_pos)
  obtain ⟨cycle, hCycle, hSource, -⟩ := hRecords.cycles labels hLabels
  exact ⟨a, hStages.ok, hEdges, hCycles, scanned, run, hRecords, cycle, hCycle, hSource⟩

end HotPath
