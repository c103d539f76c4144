import HotPath.Diagnostic
import HotPath.Proofs.Heat.Path
import HotPath.Proofs.Success

/-! Chains and depths. The depth at which a function was scanned is its distance from the source in
the recorded graph, less one, although the graph also holds calls that were too deep to follow. -/

namespace HotPath

namespace Heat

open CallGraph

variable {t : ScopeTable} {limit : Int} {roots : List Root} {h : Heat} {scanned : Queue}

namespace Settled

theorem edge_iff (hs : Settled t limit roots h scanned) {u v : Vertex} :
    h.graph.Edge u v ↔ Linked t roots scanned u v := by
  rw [hs.graph_eq]
  exact mem_edges_recorded

/-- A scanned function is a root, or a scanned function one level up calls it. -/
theorem exists_link (hs : Settled t limit roots h scanned) {e : Cursor × Int} (he : e ∈ scanned) :
    (e.2 = 0 ∧ h.graph.Edge .source (.function e.1.key)) ∨
      ∃ caller ∈ scanned, e.2 = caller.2 + 1 ∧
        h.graph.Edge (.function caller.1.key) (.function e.1.key) := by
  rcases hs.explored.origin e (mem_entries e he) with ⟨hZero, r, hr, hRoot⟩ | ⟨caller, hc, hLeads⟩
  · rw [hs.edge_iff, ← hRoot]
    exact .inl ⟨hZero, .root hr⟩
  · obtain ⟨call, hCall, hTarget⟩ := hLeads.called
    refine .inr ⟨caller, hc, hLeads.depth_eq, ?_⟩
    rw [hs.edge_iff, ← hTarget]
    exact .call hc hCall

/-- Edges are between vertices, also those of calls that were too deep to follow. -/
theorem closed (hs : Settled t limit roots h scanned) : h.graph.Closed := by
  have hTarget : ∀ u v, h.graph.Edge u v → v ∈ h.graph.vertices.keys := by
    intro u v hEdge
    rw [hs.graph_eq]
    exact (hs.edge_iff.1 hEdge).mem_vertices
  intro u v hEdge
  refine ⟨?_, hTarget u v hEdge⟩
  cases hs.edge_iff.1 hEdge with
  | root hr =>
      rw [hs.graph_eq]
      exact source_mem_recorded t roots scanned
  | call he hCall =>
      rcases hs.exists_link he with ⟨-, hEdge⟩ | ⟨caller, -, -, hEdge⟩
      · exact hTarget _ _ hEdge
      · exact hTarget _ _ hEdge

/-- The source is one link further from a scanned function than its depth says. -/
theorem hops (hs : Settled t limit roots h scanned) {n : Nat} {e : Cursor × Int} (he : e ∈ scanned)
    (hDepth : e.2 = n) : Hops h.graph.Edge (n + 1) .source (.function e.1.key) := by
  induction n generalizing e with
  | zero =>
      rcases hs.exists_link he with ⟨-, hEdge⟩ | ⟨caller, hc, hCaller, -⟩
      · exact .next (.here _) hEdge
      · have := hs.explored.nonneg caller (mem_entries caller hc)
        omega
  | succ n ih =>
      rcases hs.exists_link he with ⟨hZero, -⟩ | ⟨caller, hc, hCaller, hEdge⟩
      · omega
      · exact .next (ih hc (by omega)) hEdge

/-- No path from the source to a scanned function is shorter. -/
theorem lt_of_hops (hs : Settled t limit roots h scanned) {n : Nat} {v : Vertex}
    (hops : Hops h.graph.Edge n .source v) {e : Cursor × Int} (he : e ∈ scanned)
    (hv : v = .function e.1.key) : e.2 < n := by
  generalize hSource : Vertex.source = u at hops
  induction hops generalizing e with
  | here => cases hSource.trans hv
  | next hops link ih =>
      rcases linked_iff.1 (hs.edge_iff.1 link) with
        ⟨r, hr, -, hRoot⟩ | ⟨caller, hc, call, hCall, hCaller, hTarget⟩
      · have hKey : e.1.key = r.function.key := Vertex.function.inj (hv.symm.trans hRoot)
        have := hs.explored.root_depth r hr e (mem_entries e he) hKey
        omega
      · have hKey : e.1.key = call.target.key := Vertex.function.inj (hv.symm.trans hTarget)
        have := hs.explored.call_depth caller hc call hCall e (mem_entries e he) hKey
        have := ih hc hCaller hSource
        omega

/-- A way from the source begins at a root, whose label is that of a root with the same function. -/
theorem exists_root (hs : Settled t limit roots h scanned) {v : Vertex} {path : List Vertex}
    (hWay : IsWay h.graph.Edge .source v path) (hv : v ≠ .source) :
    ∃ r ∈ roots, ∃ rest, path = .source :: .function r.function.key :: rest ∧
      h.graph.labelOf (.function r.function.key) = r.label := by
  rcases hWay.cases_first with ⟨hSame, -⟩ | ⟨w, after, rfl, link, hAfter⟩
  · exact (hv hSame.symm).elim
  · rcases linked_iff.1 (hs.edge_iff.1 link) with ⟨r, hr, -, rfl⟩ | ⟨e, -, call, -, hSource, -⟩
    · obtain ⟨r', hr', hKey, hLabel⟩ := exists_label_recorded t hr scanned
      rw [← hs.graph_eq, ← hKey] at hLabel
      obtain ⟨rest, rfl⟩ : ∃ rest, after = .function r.function.key :: rest := by
        rcases hAfter.cases_first with ⟨-, hSingle⟩ | ⟨w, rest, hRest, -⟩
        · exact ⟨[], hSingle⟩
        · exact ⟨rest, hRest⟩
      exact ⟨r', hr', rest, by rw [hKey], hLabel⟩
    · cases hSource

/-- The chain to a scanned function follows a shortest path, which is as long as the depth of the
function says. -/
theorem chain_spec (hs : Settled t limit roots h scanned) {e : Cursor × Int} (he : e ∈ scanned) :
    ∃ r ∈ roots, ∃ rest,
      IsWay h.graph.Edge .source (.function e.1.key)
        (.source :: .function r.function.key :: rest) ∧
      h.graph.chain (.function e.1.key) =
        (.function r.function.key :: rest).map h.graph.labelOf ∧
      h.graph.labelOf (.function r.function.key) = r.label ∧
      (rest.length : Int) = e.2 ∧
      ∀ other, IsWay h.graph.Edge .source (.function e.1.key) other →
        rest.length + 2 ≤ other.length := by
  obtain ⟨n, hn⟩ := Int.eq_ofNat_of_zero_le (hs.explored.nonneg e (mem_entries e he))
  have hHops := hs.hops he hn
  have hSource : .source ∈ h.graph.vertices.keys :=
    hs.graph_eq ▸ source_mem_recorded t roots scanned
  have hVertex : .function e.1.key ∈ h.graph.vertices.keys := by
    cases hHops with
    | next _ link => exact (hs.closed _ _ link).2
  obtain ⟨path, hPath, hWay, hShort⟩ := shortestPath_spec hs.closed hSource hVertex hHops
  obtain ⟨r, hr, rest, rfl, hLabel⟩ := hs.exists_root hWay (by simp)
  refine ⟨r, hr, rest, hWay, ?_, hLabel, ?_, ?_⟩
  · simp [CallGraph.chain, hPath]
  · have hUpper := hShort _ hHops
    obtain ⟨m, hLength, hBack⟩ := hWay.hops
    have hLower := hs.lt_of_hops hBack he rfl
    simp only [List.length_cons] at hUpper hLength
    omega
  · intro other hOther
    obtain ⟨m, hLength, hBack⟩ := hOther.hops
    have := hShort m hBack
    simp only [List.length_cons] at this
    omega

end Settled

end Heat

/-- A hazard below a loop that has a chain is described with it. -/
theorem Hazard.context_of_chain {hz : Hazard} (hChain : hz.chain ≠ []) (hDepth : 0 < hz.depth)
    (loop : String) :
    hz.context loop = s!"{loop} (via {Note.arrows hz.chain}, {hz.depth} local " ++
      (if hz.depth = 1 then "call" else "calls") ++ " deep)" := by
  have hBelow : hz.depth ≠ 0 := by omega
  simp [context, hBelow, hChain, String.append_assoc, toString]

/-- The chain of a hazard agrees with its depth: it has one label more than the hazard lies calls
deep, and they are the labels along a shortest path from the source through a root to the function
that the hazard is blamed on. So a hazard below a loop is described with its chain. -/
structure Hazard.Traced (a : Analysis) (hz : Hazard) : Prop where
  nonempty : hz.chain ≠ []
  length_eq : (hz.chain.length : Int) = hz.depth + 1
  path : ∃ r ∈ a.roots, hz.chain.head? = some r.label ∧ ∃ path,
    CallGraph.IsWay a.heat.graph.Edge .source (.function hz.region) path ∧
    path[1]? = some (.function r.function.key) ∧
    hz.chain = (path.drop 1).map a.heat.graph.labelOf ∧
    ∀ other, CallGraph.IsWay a.heat.graph.Edge .source (.function hz.region) other →
      path.length ≤ other.length
  described : ∀ loop, 0 < hz.depth → hz.context loop =
    s!"{loop} (via {Note.arrows hz.chain}, {hz.depth} local " ++
      (if hz.depth = 1 then "call" else "calls") ++ " deep)"

/-- Whatever is collected after roots were followed, every hazard has a chain that agrees with its
depth. -/
theorem Hazard.chain_of_collect_ok (e : Engine) (root : Cursor) (a : Analysis)
    (predicate : Cursor → Except Fault (Option (HazardKind × String))) (hazards : List Hazard)
    (hPropagate : ((e.propagate root).run ()).result = .ok a)
    (hCollect : ((Hazard.collect a.heat predicate).run ()).result = .ok hazards)
    (hz : Hazard) (hMem : hz ∈ hazards) : hz.Traced a := by
  obtain ⟨scanned, run⟩ :=
    Heat.exists_runs_of_propagate_ok (Engine.propagated_of_ok hPropagate).heat
  have hs := run.settled
  rw [eq_of_collect_ok hCollect] at hMem
  obtain ⟨mark, hMark, found, -, rfl⟩ := mem_filterMap_ofMark.1 hMem
  obtain ⟨entry, hEntry, -, hDepth, hRegion⟩ := hs.exists_of_mem_inOrder hMark
  obtain ⟨r, hr, rest, hWay, hLabels, hFirst, hLength, hShort⟩ := hs.chain_spec hEntry
  rw [← hRegion] at hWay hLabels hShort
  have hSome : a.heat.graph.chain (.function mark.region) ≠ [] := by simp [hLabels]
  refine ⟨hSome, ?_, ⟨r, hr, ?_, _, hWay, rfl, hLabels, hShort⟩, ?_⟩
  · simp [hLabels, hDepth, hLength]
  · simp [hLabels, hFirst]
  · exact fun loop hBelow => context_of_chain hSome hBelow loop

theorem Hazard.chain_of_collect_ok_sample :
    ∃ a hazards, ((Engine.sample.propagate (.sample (.text "helper"))).run ()).result = .ok a ∧
      ((Hazard.collect a.heat (Matcher.mk ["clone"] []).classify).run ()).result = .ok hazards ∧
      ∃ hz ∈ hazards, hz.depth = 1 ∧ hz.Traced a := by
  have hFree : (Cursor.sample (.text "helper")).FaultFree := by decide +kernel
  obtain ⟨a, hStages, hTree⟩ := Engine.exists_propagated .sample hFree (by decide +kernel)
  obtain ⟨hazards, hCollect⟩ := collect_ok_iff.2 (hStages.classify_ok hFree hTree ⟨["clone"], []⟩ _)
  obtain ⟨mark, hMark, hDepth, hClassify⟩ := Engine.exists_mark_sample hStages.ok
  have hMem := (mem_filterMap_ofMark (h := a.heat)).2 ⟨mark, hMark, _, hClassify, rfl⟩
  rw [← eq_of_collect_ok hCollect] at hMem
  exact ⟨a, hazards, hStages.ok, hCollect, _, hMem, hDepth,
    chain_of_collect_ok _ _ a _ hazards hStages.ok hCollect _ hMem⟩

end HotPath
