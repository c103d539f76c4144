import HotPath.Proofs.Linter.Arrange
import HotPath.Proofs.Linter.Dispatch
import HotPath.Proofs.Reading

/-! Several rules at once. If no rule is stopped, linting with all of them is arranging what they
find one by one, and the order in which the rules are listed does not show. -/

namespace HotPath

namespace Linter

variable {filePath : Option String} {c root : Cursor}

/-- Diagnostics of two rules never share a place. -/
theorem filter_heard_eq_nil {e f : RuleEntry} (h : e.rule.id ≠ f.rule.id)
    (k : String ×ₗ Int ×ₗ Int ×ₗ String ×ₗ String) :
    (e.heard filePath c).state.filter (·.place = k) = [] ∨
      (f.heard filePath c).state.filter (·.place = k) = [] := by
  by_contra hBoth
  simp only [not_or, List.filter_eq_nil_iff, decide_eq_true_eq, not_forall, not_not,
    exists_prop] at hBoth
  obtain ⟨⟨a, ha, haPlace⟩, b, hb, hbPlace⟩ := hBoth
  apply h
  rw [← RuleEntry.ruleId_of_mem_heard ha, ← RuleEntry.ruleId_of_mem_heard hb]
  exact Diagnostic.ruleId_of_place_eq (haPlace.trans hbPlace.symm)

/-- So what stands at a place does not depend on the order of the rules. -/
theorem filter_place_of_perm {xs ys : List RuleEntry} (hPerm : xs.Perm ys)
    (hIds : (xs.map (·.rule.id)).Nodup) (k : String ×ₗ Int ×ₗ Int ×ₗ String ×ₗ String) :
    (xs.map fun e => (e.heard filePath c).state).flatten.filter (·.place = k) =
      (ys.map fun e => (e.heard filePath c).state).flatten.filter (·.place = k) := by
  induction hPerm with
  | nil => rfl
  | cons e _ ih =>
      simp only [List.map_cons, List.flatten_cons, List.filter_append, List.nodup_cons] at hIds ⊢
      rw [ih hIds.2]
  | swap e f rest =>
      simp only [List.map_cons, List.nodup_cons, List.mem_cons, not_or] at hIds
      simp only [List.map_cons, List.flatten_cons, List.filter_append]
      rcases filter_heard_eq_nil hIds.1.1 k with hNil | hNil
      · rw [hNil, List.nil_append, List.nil_append]
      · rw [hNil, List.nil_append, List.nil_append]
  | trans hFirst _ ihFirst ihSecond =>
      rw [ihFirst hIds]
      apply ihSecond
      exact ((hFirst.map _).nodup_iff).1 hIds

/-- Linting with several rules is the merge of linting with each: what the rules find one by one is
put together and arranged, and listing the rules in another order changes nothing. -/
theorem lintTree_merge (l : Linter) (filePath : Option String) (hRoot : root.SoleProgram)
    (hIds : l.ruleIds.Nodup) (hHeard : ∀ e ∈ l.entries, (e.heard filePath root).result = .ok ()) :
    ∃ parts ds,
      List.Forall₂ (fun e part =>
        (((Linter.mk [e]).lintTree root filePath).run ()).result = .ok part) l.entries parts ∧
      ((l.lintTree root filePath).run ()).result = .ok ds ∧
      Diagnostic.Arranged parts.flatten ds ∧
      ∀ entries : List RuleEntry, entries.Perm l.entries →
        (((Linter.mk entries).lintTree root filePath).run ()).result = .ok ds := by
  refine ⟨(l.entries.map fun e => (e.heard filePath root).state).map Diagnostic.sorted, _, ?_,
    lintTree_of_heard hRoot hHeard, Diagnostic.arranged_flatten_sorted _, ?_⟩
  · rw [List.map_map, List.forall₂_map_right_iff, List.forall₂_same]
    intro e he
    rw [lintTree_of_heard hRoot (by simpa using hHeard e he)]
    simp
  · intro entries hPerm
    rw [lintTree_of_heard hRoot fun e he => hHeard e (hPerm.mem_iff.1 he)]
    congr 1
    apply (Diagnostic.arranged_sorted _).unique (Diagnostic.arranged_sorted _)
    exact filter_place_of_perm hPerm (((hPerm.map _).nodup_iff).2 hIds)

/-- Two rules that object to the same call. -/
def pair : Linter := ⟨[⟨.noNewInLoop, {}, .error⟩, ⟨.noCloneInLoop, {}, .warning⟩]⟩

/-- On the sample neither is stopped, and both report. -/
theorem heard_pair : ∀ e ∈ pair.entries,
    (e.heard none (.sample (.text "helper"))).result = .ok () ∧
      (e.heard none (.sample (.text "helper"))).state ≠ [] := by
  intro e he
  simp only [pair, List.mem_cons, List.not_mem_nil, or_false] at he
  rcases he with rfl | rfl
  · exact Listener.hotPath_reports rfl (by decide +kernel) _ _
  · exact Listener.hotPath_reports rfl (by decide +kernel) _ _

theorem lintTree_merge_pair :
    let root := Cursor.sample (.text "helper")
    (∀ e ∈ pair.entries, (e.heard none root).state ≠ []) ∧
      ∃ parts ds,
        List.Forall₂ (fun e part =>
          (((Linter.mk [e]).lintTree root none).run ()).result = .ok part) pair.entries parts ∧
        ((pair.lintTree root none).run ()).result = .ok ds ∧
        Diagnostic.Arranged parts.flatten ds ∧
        ∀ entries : List RuleEntry, entries.Perm pair.entries →
          (((Linter.mk entries).lintTree root none).run ()).result = .ok ds :=
  ⟨fun e he => (heard_pair e he).2, lintTree_merge pair none (by decide +kernel) (by decide +kernel)
    fun e he => (heard_pair e he).1⟩

end Linter

end HotPath
