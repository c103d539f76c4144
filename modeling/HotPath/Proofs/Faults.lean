import HotPath.Proofs.Heat.Stopped
import HotPath.Proofs.Success

/-! Single faults. Each stage of an analysis absorbs the faults of the nodes that it looks at, but
for one read: the body of a function that is to be scanned. So an analysis returns exactly if all
those bodies can be read, and a fault that leaves it is that of such a read. -/

namespace HotPath

namespace Engine

variable {e : Engine} {root : Cursor} {t : ScopeTable} {roots : List Root} {fault : Fault}

namespace Detected

/-- The search for hazards among the nodes of the tree never fails. -/
theorem exists_seek_ok (hFound : Detected e root t roots)
    (hReads : root.ReadsFailOnly fun fault => fault.absorbed = true) {heat : Heat}
    (hHeat : ((Heat.propagate t e.maxCallDepth roots).run ()).result = .ok heat) :
    ∃ hazards, ((e.seek heat).run ()).result = .ok hazards := by
  unfold seek
  cases e.matcher with
  | none => exact ⟨[], rfl⟩
  | some m =>
      apply Matcher.hazards_ok_iff.2
      intro mark hMark
      obtain ⟨scanned, run⟩ := Heat.exists_runs_of_propagate_ok hHeat
      obtain ⟨e, he, hBody, -⟩ := run.settled.exists_of_mem_inOrder hMark
      have hEntry := Heat.Settled.mem_entries (h := heat) e he
      obtain ⟨n, hn⟩ := Int.eq_ofNat_of_zero_le (run.settled.explored.nonneg e hEntry)
      have hf := (run.settled.explored.reached hEntry hn).mem_preorder hFound.targets
        hFound.roots_mem
      exact hReads.classify
        (Cursor.mem_preorder_trans (Cursor.mem_preorder_of_mem_bodyNodes hBody) hf) m

/-- So only the spreading of heat can fail. -/
theorem analyze_ok_iff (hFound : Detected e root t roots)
    (hReads : root.ReadsFailOnly fun fault => fault.absorbed = true) :
    (∃ a, ((e.analyze root).run ()).result = .ok a) ↔
      ∃ heat, ((Heat.propagate t e.maxCallDepth roots).run ()).result = .ok heat := by
  constructor
  · rintro ⟨a, hOk⟩
    obtain ⟨hStages, -⟩ := Engine.analyze_ok_iff.1 hOk
    have hScopes : a.scopes = t := hStages.scopes.trans hFound.scopes.symm
    have hRoots : .ok a.roots = (.ok roots : Except Fault (List Root)) := by
      rw [← hFound.found, ← hStages.roots, hScopes]
    cases hRoots
    exact ⟨a.heat, hScopes ▸ hStages.heat⟩
  · rintro ⟨heat, hHeat⟩
    obtain ⟨hazards, hSeek⟩ := hFound.exists_seek_ok hReads hHeat
    exact ⟨⟨t, roots, heat, hazards⟩, Engine.analyze_ok_iff.2
      ⟨⟨hFound.built, hFound.scopes, hFound.found, hHeat, rfl⟩, hSeek⟩⟩

theorem analyze_of_heat_error (hFound : Detected e root t roots)
    (hHeat : ((Heat.propagate t e.maxCallDepth roots).run ()).result = .error fault) :
    ((e.analyze root).run ()).result = .error fault := by
  have hPropagate : ((e.propagate root).run ()).result = .error fault := by
    rw [propagate, Task.result_bind_of_ok (Task.result_withState_of_ok hFound.built ())]
    simp only
    rw [← hFound.scopes, Task.result_bind_of_ok hFound.found, Task.run_bind_of_error hHeat]
  rw [analyze, Task.run_bind_of_error hPropagate]

/-- What stops an analysis is the body of a function at the front of the queue. -/
theorem exists_stopped (hFound : Detected e root t roots)
    (hReads : root.ReadsFailOnly fun fault => fault.absorbed = true)
    (hError : ((e.analyze root).run ()).result = .error fault) :
    ∃ last f depth rest scanned,
      Heat.Tracked t e.maxCallDepth roots ⟨last, (f, depth) :: rest, scanned⟩ ∧
        last.skips f depth = false ∧ f.body = .error fault := by
  cases hHeat : ((Heat.propagate t e.maxCallDepth roots).run ()).result with
  | ok heat =>
      obtain ⟨a, hOk⟩ := (hFound.analyze_ok_iff hReads).2 ⟨heat, hHeat⟩
      rw [hOk] at hError
      cases hError
  | error other =>
      rw [hFound.analyze_of_heat_error hHeat] at hError
      cases hError
      obtain ⟨last, f, depth, rest, scanned, run, hVisit⟩ :=
        Heat.exists_runs_of_propagate_error hHeat
      have hFront : (f, depth) ∈ (⟨last, (f, depth) :: rest, scanned⟩ : Heat.Stage).entries :=
        List.mem_append_right _ List.mem_cons_self
      obtain ⟨n, hn⟩ := Int.eq_ofNat_of_zero_le (run.tracked.explored.nonneg _ hFront)
      have hf := (run.tracked.explored.reached hFront hn).mem_preorder hFound.targets
        hFound.roots_mem
      have hStop := Heat.body_of_visit_error hVisit fun c hc => Heat.resolvable_of_reads hReads t
        (Cursor.mem_preorder_trans (Cursor.mem_preorder_of_mem_bodyNodes hc) hf)
      exact ⟨last, f, depth, rest, scanned, run.tracked, hStop⟩

end Detected

/-- A fault that leaves the analysis of a tree whose faults are absorbed is that of reading the body
of a function within the limit. If keys are distinct the analysis returns exactly if the bodies of
all functions that are scanned on their own can be read. -/
theorem analyze_returns_iff (e : Engine)
    (hReads : root.ReadsFailOnly fun fault => fault.absorbed = true) :
    ∃ t roots, Detected e root t roots ∧
      (∀ fault, ((e.analyze root).run ()).result = .error fault →
        ∃ f n, Heat.Reached t roots n f ∧ (n : Int) ≤ max e.maxCallDepth 0 ∧
          f.body = .error fault) ∧
      (root.DistinctKeys → ((∃ a, ((e.analyze root).run ()).result = .ok a) ↔
        ∀ f, Heat.Visits t roots e.maxCallDepth f → ∃ body, f.body = .ok body)) := by
  obtain ⟨t, roots, hFound⟩ := exists_detected e hReads
  refine ⟨t, roots, hFound, ?_, fun hKeys => ?_⟩
  · intro fault hError
    obtain ⟨last, f, depth, rest, scanned, hs, -, hBody⟩ := hFound.exists_stopped hReads hError
    have hFront : (f, depth) ∈ (⟨last, (f, depth) :: rest, scanned⟩ : Heat.Stage).entries :=
      List.mem_append_right _ List.mem_cons_self
    obtain ⟨n, hn⟩ := Int.eq_ofNat_of_zero_le (hs.explored.nonneg _ hFront)
    exact ⟨f, n, hs.explored.reached hFront hn, hn ▸ hs.explored.depth_le hFront, hBody⟩
  · have hTree : Heat.Confined root t roots := ⟨hKeys, hFound.targets, hFound.roots_mem⟩
    constructor
    · intro hOk f hVisits
      obtain ⟨heat, hHeat⟩ := (hFound.analyze_ok_iff hReads).1 hOk
      obtain ⟨scanned, run⟩ := Heat.exists_runs_of_propagate_ok hHeat
      obtain ⟨e, he, rfl⟩ := run.tracked.mem_scanned_of_visits hTree hVisits
      exact (run.tracked.scannable e he).body
    · intro hBodies
      cases hResult : ((e.analyze root).run ()).result with
      | ok a => exact ⟨a, rfl⟩
      | error fault =>
          obtain ⟨last, f, depth, rest, scanned, hs, hVisit, hBody⟩ :=
            hFound.exists_stopped hReads hResult
          obtain ⟨body, hOk⟩ := hBodies f (hs.visits_front hTree hVisit)
          rw [hBody] at hOk
          cases hOk

/-- An engine for the callbacks of `onTick`. -/
def ticking : Engine := ⟨[.frameLoop ["onTick"]], some ⟨["clone"], []⟩, 5⟩

/-- A single fault in the callback of a loop leaves the analysis. -/
theorem analyze_stopped_halfReadable :
    Cursor.halfReadable.ReadsFailOnly (fun fault => fault.absorbed = true) ∧
      ((ticking.analyze .halfReadable).run ()).result = .error ⟨.badValue, "fault"⟩ := by
  refine ⟨by decide +kernel, ?_⟩
  have hStop : (match ((ticking.analyze .halfReadable).run ()).result with
      | .ok _ => false
      | .error fault => decide (fault = ⟨.badValue, "fault"⟩)) = true := by decide +kernel
  split at hStop
  · cases hStop
  · next fault hError => rw [hError, of_decide_eq_true hStop]

theorem analyze_returns_iff_halfReadable :
    ∃ t roots, Detected ticking .halfReadable t roots ∧
      (∀ fault, ((ticking.analyze .halfReadable).run ()).result = .error fault →
        ∃ f n, Heat.Reached t roots n f ∧ (n : Int) ≤ 5 ∧ f.body = .error fault) ∧
      ((∃ a, ((ticking.analyze .halfReadable).run ()).result = .ok a) ↔
        ∀ f, Heat.Visits t roots 5 f → ∃ body, f.body = .ok body) := by
  have hReads : Cursor.halfReadable.ReadsFailOnly (fun fault => fault.absorbed = true) := by
    decide +kernel
  obtain ⟨t, roots, hFound, hFault, hReturns⟩ := ticking.analyze_returns_iff hReads
  exact ⟨t, roots, hFound, hFault, hReturns (by decide +kernel)⟩

end Engine

end HotPath
