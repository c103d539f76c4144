import HotPath.Proofs.Linter.Arrange
import HotPath.Proofs.Linter.Dispatch
import HotPath.Proofs.Reading

/-! Rules and the faults of other rules. A fault that leaves a rule ends the round over the rules,
also if it is then absorbed. The rules before it have reported by then; those after it are not shown
the tree, so their diagnostics are lost. -/

namespace HotPath

namespace Linter

variable {filePath : Option String} {c root : Cursor} {before after : List RuleEntry}
  {e : RuleEntry} {fault : Fault}

/-- What is reported by the rules around one that a fault stops. -/
theorem filter_reports_of_error (hIds : ((before ++ e :: after).map (·.rule.id)).Nodup)
    (hFault : (e.heard filePath c).result = .error fault) :
    (reports filePath c (before ++ e :: after)).flatten.filter (·.ruleId ≠ e.rule.id) =
      (reports filePath c before).flatten := by
  simp only [List.map_append, List.map_cons, List.nodup_middle, List.nodup_cons, List.mem_append,
    not_or] at hIds
  have hBefore : (reports filePath c before).flatten.filter (·.ruleId ≠ e.rule.id) =
      (reports filePath c before).flatten := by
    apply List.filter_eq_self.2
    intro d hd
    apply decide_eq_true
    intro hSame
    exact hIds.1.1 (hSame ▸ ruleId_of_mem_reports hd)
  have hOwn : (e.heard filePath c).state.filter (·.ruleId ≠ e.rule.id) = [] := by
    apply List.filter_eq_nil_iff.2
    intro d hd
    simp [RuleEntry.ruleId_of_mem_heard hd]
  rw [reports_append, List.flatten_append, List.filter_append, hBefore]
  cases round filePath c before with
  | error first => simp
  | ok _ =>
      simp only
      rw [reports_cons_of_error after hFault, List.flatten_cons, List.filter_append, hOwn]
      simp

/-- The same rules report this much if the one that is stopped is left out. -/
theorem filter_reports_append (hIds : ((before ++ after).map (·.rule.id)).Nodup) :
    (reports filePath c (before ++ after)).flatten.filter
        (fun d => d.ruleId ∈ before.map (·.rule.id)) = (reports filePath c before).flatten := by
  rw [List.map_append, List.nodup_append] at hIds
  rw [reports_append, List.flatten_append, List.filter_append]
  have hBefore : (reports filePath c before).flatten.filter
      (fun d => d.ruleId ∈ before.map (·.rule.id)) = (reports filePath c before).flatten := by
    apply List.filter_eq_self.2
    intro d hd
    exact decide_eq_true (ruleId_of_mem_reports hd)
  have hAfter : (reports filePath c after).flatten.filter
      (fun d => d.ruleId ∈ before.map (·.rule.id)) = [] := by
    apply List.filter_eq_nil_iff.2
    intro d hd
    simp only [decide_eq_true_eq]
    intro hMem
    exact hIds.2.2 _ hMem _ (ruleId_of_mem_reports hd) rfl
  rw [hBefore]
  cases round filePath c before with
  | error first => simp
  | ok _ =>
      simp only
      rw [hAfter, List.append_nil]

/-- Single faults end a round with a rule that is stopped as they end a round without it. -/
theorem failsOnly_round_of_error (hFault : (e.heard filePath c).result = .error fault)
    (hAbsorbed : fault.absorbed = true)
    (hRound : FailsOnly (fun fault => fault.absorbed = true)
      (round filePath c (before ++ after))) :
    FailsOnly (fun fault => fault.absorbed = true) (round filePath c (before ++ e :: after)) := by
  rw [round_append] at hRound ⊢
  cases hBefore : round filePath c before with
  | error first =>
      rw [hBefore] at hRound
      exact hRound
  | ok _ =>
      intro other hOther
      have hSame : (.error fault : Except Fault Unit) = .error other := by
        rw [← round_cons_of_error after hFault]
        exact hOther
      cases hSame
      exact hAbsorbed

/-- If a single fault stops a rule, linting keeps the diagnostics of the rules before it and loses
those of the rules after it. So the other rules are left alone exactly if the later ones have
nothing to report. -/
theorem lintTree_of_stopped_rule {kept : List Diagnostic} (filePath : Option String)
    (hRoot : root.SoleProgram) (hIds : ((before ++ e :: after).map (·.rule.id)).Nodup)
    (hFault : (e.heard filePath root).result = .error fault) (hAbsorbed : fault.absorbed = true)
    (hKept : (((Linter.mk (before ++ after)).lintTree root filePath).run ()).result = .ok kept) :
    ∃ ds, (((Linter.mk (before ++ e :: after)).lintTree root filePath).run ()).result = .ok ds ∧
      ds.filter (·.ruleId ≠ e.rule.id) =
        kept.filter (fun d => d.ruleId ∈ before.map (·.rule.id)) ∧
      (ds.filter (·.ruleId ≠ e.rule.id) = kept ↔
        ∀ d ∈ kept, d.ruleId ∉ after.map (·.rule.id)) := by
  obtain ⟨hRound, rfl⟩ := (lintTree_ok_iff _ hRoot).1 hKept
  have hOthers : ((before ++ after).map (·.rule.id)).Nodup :=
    hIds.sublist ((List.Sublist.refl before).append (List.sublist_cons_self e after) |>.map _)
  have hSorted : ∀ entries, Diagnostic.Arranged (reports filePath root entries).flatten
      (Diagnostic.sorted (reports filePath root entries).flatten) :=
    fun entries => Diagnostic.arranged_sorted _
  have hSame : (Diagnostic.sorted (reports filePath root (before ++ e :: after)).flatten).filter
        (·.ruleId ≠ e.rule.id) =
      (Diagnostic.sorted (reports filePath root (before ++ after)).flatten).filter
        (fun d => d.ruleId ∈ before.map (·.rule.id)) := by
    apply ((hSorted _).filter _).unique ((hSorted _).filter _)
    intro k
    rw [filter_reports_of_error hIds hFault, filter_reports_append hOthers]
  refine ⟨_, (lintTree_ok_iff _ hRoot).2
    ⟨failsOnly_round_of_error hFault hAbsorbed hRound, rfl⟩, hSame, ?_⟩
  rw [hSame, List.filter_eq_self]
  rw [List.map_append, List.nodup_append] at hOthers
  constructor
  · intro hAll d hd hMem
    exact hOthers.2.2 _ (of_decide_eq_true (hAll d hd)) _ hMem rfl
  · intro hNone d hd
    apply decide_eq_true
    have hReported := ruleId_of_mem_reports ((hSorted _).perm.mem_iff.1 hd)
    rw [List.map_append, List.mem_append] at hReported
    exact hReported.resolve_right (hNone d hd)

/-- A rule that is stopped by the loop that cannot be read. -/
def stopped : RuleEntry := ⟨.noCloneInLoop, { frameLoopApis := .ofTexts ["onTick"] }, .error⟩

/-- A rule that has something to report about the other loop. -/
def silenced : RuleEntry := ⟨.noNewInLoop, {}, .error⟩

theorem heard_stopped :
    (stopped.heard none .halfReadable).result = .error ⟨.badValue, "fault"⟩ := by
  decide +kernel

/-- Alone, the second rule reports. -/
theorem lintTree_silenced : ∃ kept,
    (((Linter.mk [silenced]).lintTree .halfReadable none).run ()).result = .ok kept ∧
      kept ≠ [] := by
  have hHeard : (silenced.heard none .halfReadable).result = .ok () ∧
      (silenced.heard none .halfReadable).state ≠ [] :=
    Listener.hotPath_reports rfl (by decide +kernel) _ _
  have hLint : (((Linter.mk [silenced]).lintTree .halfReadable none).run ()).result = .ok _ :=
    lintTree_of_heard (by decide +kernel) (by simpa using hHeard.1)
  refine ⟨_, hLint, fun hNil => hHeard.2 ?_⟩
  have hPerm := (Diagnostic.arranged_sorted
    ([silenced].map fun e => (e.heard none .halfReadable).state).flatten).perm
  rw [hNil] at hPerm
  simpa using hPerm.symm.eq_nil

/-- The rule that reports alone reports nothing after one that is stopped. -/
theorem lintTree_silenced_by_stopped :
    (∃ fault, (stopped.heard none .halfReadable).result = .error fault ∧
      fault.absorbed = true) ∧
    (((Linter.mk [stopped, silenced]).lintTree .halfReadable none).run ()).result = .ok [] ∧
    ∃ kept, (((Linter.mk [silenced]).lintTree .halfReadable none).run ()).result = .ok kept ∧
      kept ≠ [] := by
  refine ⟨⟨_, heard_stopped, rfl⟩, ?_, lintTree_silenced⟩
  have hState : (stopped.heard none .halfReadable).state = [] := by decide +kernel
  apply (lintTree_ok_iff _ (by decide +kernel)).2
  rw [round_cons_of_error _ heard_stopped, reports_cons_of_error _ heard_stopped, hState]
  constructor
  · intro fault hFault
    cases hFault
    rfl
  · simp [Diagnostic.sorted]

theorem lintTree_of_stopped_rule_halfReadable : ∃ kept ds,
    (((Linter.mk [silenced]).lintTree .halfReadable none).run ()).result = .ok kept ∧
      kept ≠ [] ∧
      (((Linter.mk [stopped, silenced]).lintTree .halfReadable none).run ()).result = .ok ds ∧
      ds.filter (·.ruleId ≠ stopped.rule.id) = [] ∧
      (ds.filter (·.ruleId ≠ stopped.rule.id) = kept ↔
        ∀ d ∈ kept, d.ruleId ∉ [silenced].map (·.rule.id)) := by
  obtain ⟨kept, hKept, hSome⟩ := lintTree_silenced
  have hIds : (([] ++ stopped :: [silenced] : List RuleEntry).map (·.rule.id)).Nodup := by
    decide +kernel
  rw [← List.nil_append [silenced]] at hKept
  obtain ⟨ds, hDs, hOthers, hSame⟩ :=
    lintTree_of_stopped_rule none (by decide +kernel) hIds heard_stopped rfl hKept
  rw [List.nil_append] at hKept hDs
  exact ⟨kept, ds, hKept, hSome, hDs, by simpa using hOthers, hSame⟩

end Linter

end HotPath
