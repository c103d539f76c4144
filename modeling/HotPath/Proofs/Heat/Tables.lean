import HotPath.Proofs.Heat.Stopped
import HotPath.Proofs.Success

/-! The table of functions and the table of nodes. A function comes into its table as a root, as the
target of a call, or because it is written inside a scanned body, and only the first two are queued.
Whichever way it came, once it does not wait any more its body is marked no deeper than itself. -/

namespace HotPath

namespace Heat

variable {t : ScopeTable} {limit : Int} {roots : List Root} {s : Stage} {k : Key} {m : Mark}

/-- A marked function waits in the queue at the depth of its mark, or all nodes of its body are
marked no deeper. This holds at every moment of the work. -/
theorem Stage.Runs.waits_or_body_marked (run : Runs t limit (opening roots) s)
    (hm : s.heat.functions.get? k = some m) :
    (m.node, m.depth) ∈ s.queue ∨
      ∀ n ∈ m.node.bodyNodes, s.heat.nodes.Within n.key m.depth := by
  rw [run.heat_eq.2]
  obtain ⟨-, hEntry | ⟨e, he, hInner, hDepth⟩⟩ := run.tracked.explored.reason k m hm
  · rcases List.mem_append.1 hEntry with hScanned | hWaits
    · exact .inr fun n hn => within_spread hScanned hn
    · exact .inl hWaits
  · -- The body of a function inside a scanned body is a part of that body.
    have hBody := Cursor.bodyNodes_subset_of_mem (Cursor.mem_bodyNodes_of_mem_innerFunctions hInner)
    exact .inr fun n hn => hDepth ▸ within_spread he (hBody hn)

/-- A function among the marked nodes is marked as a function, no deeper than as a node. -/
theorem Stage.Runs.function_marked (run : Runs t limit (opening roots) s)
    (hm : s.heat.nodes.get? k = some m) (hFunction : m.node.isFunction = true) :
    s.heat.functions.Within k m.depth := by
  rw [run.heat_eq.2] at hm
  obtain ⟨e, he, hBody, hDepth, -⟩ := exists_of_get?_spread hm
  rw [hDepth, ← (keyed_spread s.scanned).key_eq hm]
  exact run.tracked.inner_marked e he m.node (List.mem_filter.2 ⟨hBody, hFunction⟩)

/-- The two tables agree. The body of every marked function is marked no deeper than the function,
and every function among the marked nodes is marked as one, no deeper than as a node. -/
structure Agrees (h : Heat) : Prop where
  bodies : ∀ k m, h.functions.get? k = some m →
    ∀ n ∈ m.node.bodyNodes, h.nodes.Within n.key m.depth
  functions : ∀ k m, h.nodes.get? k = some m → m.node.isFunction = true →
    h.functions.Within k m.depth

/-- Once nothing waits, the tables agree. -/
theorem Stage.Runs.agrees {h : Heat} {scanned : Queue}
    (run : Runs t limit (opening roots) ⟨h, [], scanned⟩) : h.Agrees where
  bodies := by
    intro k m hm
    rcases run.waits_or_body_marked hm with hWaits | hBody
    · cases hWaits
    · exact hBody
  functions := fun _ _ hm hFunction => run.function_marked hm hFunction

theorem exists_depthOf?_of_within {table : MarkTable} {c : Cursor} {depth : Int}
    (h : table.Within c.key depth) : ∃ d ≤ depth, table.depthOf? c = some d := by
  obtain ⟨m, hm, hDepth⟩ := h
  exact ⟨m.depth, hDepth, congrArg (Option.map Mark.depth) hm⟩

/-- No depth is negative, so roots stay where they were entered. -/
theorem Stage.Runs.depthOf?_root (run : Runs t limit (opening roots) s) {r : Root}
    (hr : r ∈ roots) : s.heat.functions.depthOf? r.function = some 0 := by
  obtain ⟨m, hm, hDepth⟩ := run.tracked.explored.root_marked r hr
  have hZero : m.depth = 0 := by
    have := run.tracked.explored.mark_nonneg hm
    omega
  rw [MarkTable.depthOf?, MarkTable.markOf?, hm, Option.map_some, hZero]

/-- Whatever the roots and the limit, the tables agree when heat has spread, and the roots stand at
depth zero. If the roots are functions of a tree without faults, heat does spread, and the depths of
the tree's nodes agree: the body of a function is hot no deeper than the function, and a function
that is hot as a node is hot as a function, no deeper. -/
theorem propagate_agrees (root : Cursor) (hFree : root.FaultFree) (hKeys : root.DistinctKeys)
    (roots : List Root) (limit : Int) :
    let t := ((ScopeTable.build root).run ScopeTable.empty).state
    (∀ h, ((propagate t limit roots).run ()).result = .ok h →
      h.Agrees ∧ ∀ r ∈ roots, h.functions.depthOf? r.function = some 0) ∧
    ((∀ r ∈ roots, r.function ∈ root.preorder) →
      ∃ h, ((propagate t limit roots).run ()).result = .ok h ∧
        (∀ f ∈ root.preorder, ∀ d, h.functions.depthOf? f = some d →
          ∀ n ∈ f.bodyNodes, ∃ d' ≤ d, h.nodes.depthOf? n = some d') ∧
        ∀ f ∈ root.functions, ∀ d, h.nodes.depthOf? f = some d →
          ∃ d' ≤ d, h.functions.depthOf? f = some d') := by
  intro t
  refine ⟨fun h hOk => ?_, fun hRoots => ?_⟩
  · obtain ⟨scanned, run⟩ := exists_runs_of_propagate_ok hOk
    exact ⟨run.agrees, fun r hr => run.depthOf?_root hr⟩
  have hTargets : ∀ b ∈ t.bindings, ∀ f, b.target? = some f → f ∈ root.preorder := fun b hb f hf =>
    Cursor.mem_preorder_of_mem_functions (ScopeTable.target_mem_functions hb hf)
  have hTree : Confined root t roots := ⟨hKeys, hTargets, hRoots⟩
  obtain ⟨h, hOk⟩ := exists_propagate_ok_of_faultFree hFree hTargets hRoots limit
  obtain ⟨scanned, run⟩ := exists_runs_of_propagate_ok hOk
  refine ⟨h, hOk, fun f hf d hd n hn => ?_, fun f hf d hd => ?_⟩
  · obtain ⟨m, hm, rfl⟩ := Option.map_eq_some_iff.1 hd
    obtain rfl : m.node = f := run.settled.explored.node_eq hTree hf hm
    exact exists_depthOf?_of_within (run.agrees.bodies _ m hm n hn)
  · obtain ⟨hMem, hFunction⟩ := List.mem_filter.1 hf
    obtain ⟨m, hm, rfl⟩ := Option.map_eq_some_iff.1 hd
    obtain rfl : m.node = f := run.settled.node_eq_of_markOf? hTree hMem hm
    exact exists_depthOf?_of_within (run.agrees.functions _ m hm hFunction)

end Heat

open Node in
/-- A function around a callback and the helper that the callback calls:
`function scene() { const tick = () => go(); function go() { clone() } }`. -/
def Cursor.scene : Cursor :=
  .root <| inner "program" "" 0 71 [
    inner "function_declaration" "" 0 71 [
      word "name" 9 14 (.text "scene"),
      inner "statement_block" "body" 17 71 [
        inner "lexical_declaration" "" 19 43 [
          inner "variable_declarator" "" 25 42 [
            word "name" 25 29 (.text "tick"),
            inner "arrow_function" "value" 32 42 [
              inner "call_expression" "body" 38 42 [word "function" 38 40 (.text "go")]]]],
        inner "function_declaration" "" 44 69 [
          word "name" 53 55 (.text "go"),
          inner "statement_block" "body" 58 69 [
            inner "call_expression" "" 60 67 [word "function" 60 65 (.text "clone")]]]]]]

/-- The callback is entered before the function around it. Its call queues the helper one call
deeper, then the helper is marked inside the outer function, and its turn is passed over. -/
theorem Heat.propagate_agrees_scene :
    let t := ((ScopeTable.build .scene).run ScopeTable.empty).state
    let roots := (Cursor.scene.functions.filter fun f => f.start ≠ 44).reverse.map
      fun f => (⟨f, "useFrame", f, .frame⟩ : Root)
    Cursor.scene.FaultFree ∧ Cursor.scene.DistinctKeys ∧
      roots.map (·.function.start) = [32, 0] ∧
      (∀ r ∈ roots, r.function ∈ Cursor.scene.preorder) ∧
      ∃ h, ((propagate t 3 roots).run ()).result = .ok h ∧ h.Agrees ∧
        ∃ go ∈ Cursor.scene.functions, go.start = 44 ∧ h.functions.depthOf? go = some 0 ∧
          ∀ n ∈ go.bodyNodes, ∃ d ≤ 0, h.nodes.depthOf? n = some d := by
  intro t roots
  have hFree : Cursor.scene.FaultFree := by decide +kernel
  have hKeys : Cursor.scene.DistinctKeys := by decide +kernel
  have hRoots : ∀ r ∈ roots, r.function ∈ Cursor.scene.preorder := by
    intro r hr
    obtain ⟨f, hf, rfl⟩ := List.mem_map.1 hr
    exact Cursor.mem_preorder_of_mem_functions (List.mem_filter.1 (List.mem_reverse.1 hf)).1
  obtain ⟨hAll, hSpreads⟩ := propagate_agrees .scene hFree hKeys roots 3
  obtain ⟨h, hOk, hBodies, -⟩ := hSpreads hRoots
  have hMarked : (((propagate t 3 roots).run ()).result.toOption.any fun h =>
      Cursor.scene.functions.any fun f =>
        f.start = 44 ∧ h.functions.depthOf? f = some 0) = true := by
    decide +kernel
  rw [hOk] at hMarked
  obtain ⟨go, hGo, hDepth⟩ := List.any_eq_true.1 hMarked
  obtain ⟨hStart, hDepth⟩ := of_decide_eq_true hDepth
  exact ⟨hFree, hKeys, by decide +kernel, hRoots, h, hOk, (hAll h hOk).1, go, hGo, hStart, hDepth,
    hBodies go (Cursor.mem_preorder_of_mem_functions hGo) 0 hDepth⟩

end HotPath
