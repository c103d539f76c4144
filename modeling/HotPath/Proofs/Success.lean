import HotPath.Proofs.Analysis
import HotPath.Proofs.Heat.Reach
import HotPath.Proofs.Scope.Walk

/-! Trees without faults. Nothing stops an analysis of them, and all functions that it deals with
are nodes of the tree. -/

namespace HotPath

namespace Heat

/-- Calls of a tree whose faults are absorbed can be resolved. -/
theorem resolvable_of_reads {root : Cursor}
    (hReads : root.ReadsFailOnly fun fault => fault.absorbed = true) (t : ScopeTable) {c : Cursor}
    (hc : c ∈ root.preorder) : Resolvable t c := by
  intro _
  refine (hReads.resolveCallee hc t).bind fun found _ => ?_
  cases found with
  | none => exact FailsOnly.ok none
  | some b => exact FailsOnly.ok _

/-- Every function of a tree without faults can be scanned. -/
theorem scannable_of_faultFree {root : Cursor} (hFree : root.FaultFree) (t : ScopeTable)
    {f : Cursor} (hf : f ∈ root.preorder) : Scannable t f := by
  refine ⟨(hFree.field hf "body").exists_ok, fun c hc => ?_⟩
  have hMem := Cursor.mem_preorder_trans (Cursor.mem_preorder_of_mem_bodyNodes hc) hf
  exact resolvable_of_reads (hFree.reads _) t hMem

/-- Heat spreads in a tree without faults if it starts from nodes of the tree and all names stand
for such. -/
theorem exists_propagate_ok_of_faultFree {root : Cursor} {t : ScopeTable} {roots : List Root}
    (hFree : root.FaultFree)
    (hTargets : ∀ b ∈ t.bindings, ∀ f, b.target? = some f → f ∈ root.preorder)
    (hRoots : ∀ r ∈ roots, r.function ∈ root.preorder) (limit : Int) :
    ∃ h, ((propagate t limit roots).run ()).result = .ok h := by
  apply exists_propagate_ok limit (fun f hf => scannable_of_faultFree hFree t hf) _ hRoots
  intro f _ call hCall
  obtain ⟨x, hx, hTarget⟩ := exists_binding_of_mem_callsIn hCall
  exact hTargets x hx _ hTarget

end Heat

namespace Engine

variable {e : Engine} {root : Cursor}

/-- The scopes and roots that an analysis finds, and that their functions lie in the tree. -/
structure Detected (e : Engine) (root : Cursor) (t : ScopeTable) (roots : List Root) : Prop where
  built : ((ScopeTable.build root).run ScopeTable.empty).result = .ok ()
  scopes : t = ((ScopeTable.build root).run ScopeTable.empty).state
  found : ((Root.detectAll t e.detectors root).run ()).result = .ok roots
  targets : ∀ b ∈ t.bindings, ∀ f, b.target? = some f → f ∈ root.preorder
  roots_mem : ∀ r ∈ roots, r.function ∈ root.preorder

/-- Where all faults are absorbed there are always such scopes and roots. -/
theorem exists_detected (e : Engine)
    (hReads : root.ReadsFailOnly fun fault => fault.absorbed = true) :
    ∃ t roots, Detected e root t roots := by
  obtain ⟨hBuilt, hState⟩ := ScopeTable.build_spec hReads
  obtain ⟨-, -, hTargets⟩ :=
    ScopeBuilder.after_spec hReads fun _ => Cursor.mem_preorder_of_mem_events
  rw [← hState] at hTargets
  obtain ⟨roots, hRoots⟩ := Root.exists_detectAll_ok hReads
    ((ScopeTable.build root).run ScopeTable.empty).state e.detectors
  exact ⟨_, roots, hBuilt, rfl, hRoots,
    fun b hb f hf => Cursor.mem_preorder_of_mem_functions (hTargets b hb f hf),
    fun r hr => Root.function_mem_of_detectAll_ok hRoots hr⟩

/-- Without faults all stages but the search for hazards succeed, and what they find lies in the
tree. -/
theorem exists_propagated (e : Engine) (hFree : root.FaultFree) (hKeys : root.DistinctKeys) :
    ∃ a, Propagated e root a ∧ Heat.Confined root a.scopes a.roots := by
  obtain ⟨t, roots, hFound⟩ := exists_detected e (hFree.reads _)
  obtain ⟨heat, hHeat⟩ := Heat.exists_propagate_ok_of_faultFree hFree hFound.targets
    hFound.roots_mem e.maxCallDepth
  exact ⟨⟨t, roots, heat, []⟩,
    ⟨hFound.built, hFound.scopes, hFound.found, hHeat, rfl⟩,
    ⟨hKeys, hFound.targets, hFound.roots_mem⟩⟩

/-- Without faults a matcher can be asked about every hot node. -/
theorem Propagated.classify_ok {a : Analysis} (h : Propagated e root a) (hFree : root.FaultFree)
    (hTree : Heat.Confined root a.scopes a.roots) (m : Matcher) (P : Fault → Prop) :
    ∀ mark ∈ a.heat.nodes.inOrder, FailsOnly P (m.classify mark.node) := by
  intro mark hMark
  obtain ⟨scanned, run⟩ := Heat.exists_runs_of_propagate_ok h.heat
  have hc := (run.settled.inside hTree (run.settled.mem_inOrder_iff.1 hMark)).1
  exact (hFree.reads P).classify hc m

/-- Without faults an analysis succeeds, with or without a matcher. -/
theorem exists_analyze_ok (e : Engine) (hFree : root.FaultFree) (hKeys : root.DistinctKeys) :
    ∃ a, ((e.analyze root).run ()).result = .ok a ∧ Heat.Confined root a.scopes a.roots := by
  obtain ⟨a, hStages, hTree⟩ := exists_propagated e hFree hKeys
  obtain ⟨hazards, hSeek⟩ : ∃ hazards, ((e.seek a.heat).run ()).result = .ok hazards := by
    unfold seek
    cases e.matcher with
    | none => exact ⟨[], rfl⟩
    | some m => exact Matcher.hazards_ok_iff.2 (hStages.classify_ok hFree hTree m _)
  refine ⟨{ a with hazards := hazards }, analyze_ok_iff.2 ⟨?_, hSeek⟩, hTree⟩
  exact ⟨hStages.built, hStages.scopes, hStages.roots, hStages.heat, rfl⟩

/-- An engine that follows one call below the callbacks of `useFrame`. -/
def sample : Engine := ⟨[.frameLoop ["useFrame"]], some ⟨["clone"], []⟩, 1⟩

/-- On the sample it finds a banned call one call below a root. -/
theorem exists_mark_sample {a : Analysis}
    (hOk : ((sample.propagate (.sample (.text "helper"))).run ()).result = .ok a) :
    ∃ mark ∈ a.heat.nodes.inOrder, mark.depth = 1 ∧
      (Matcher.mk ["clone"] []).classify mark.node = .ok (some (.call, "clone")) := by
  have hFound : (((sample.propagate (.sample (.text "helper"))).run ()).result.toOption.any
      fun a => a.heat.nodes.values.any fun mark => mark.depth = 1 ∧
        ((Matcher.mk ["clone"] []).classify mark.node).toOption.getD none =
          some (.call, "clone")) = true := by decide +kernel
  rw [hOk] at hFound
  obtain ⟨mark, hMark, hDepth⟩ := List.any_eq_true.1 hFound
  obtain ⟨hDepth, hClassify⟩ := of_decide_eq_true hDepth
  exact ⟨mark, List.mem_mergeSort.2 hMark, hDepth, getD_toOption_eq_some_iff.1 hClassify⟩

end Engine

end HotPath
