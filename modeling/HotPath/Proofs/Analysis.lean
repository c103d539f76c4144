import HotPath.Analysis
import HotPath.Proofs.Marks
import HotPath.Proofs.Task

/-! What a successful analysis consists of. Hazards are the hot nodes on which the predicate finds
something, and an analysis succeeds if and only if each of its stages does. -/

namespace HotPath

namespace Hazard

variable {h : Heat} {predicate : Cursor → Except Fault (Option (HazardKind × String))}

/-- The hazard at a mark. Where the predicate fails there is none. -/
def ofMark (h : Heat) (predicate : Cursor → Except Fault (Option (HazardKind × String)))
    (mark : Mark) : Option Hazard :=
  ((predicate mark.node).toOption.getD none).map fun found =>
    ⟨mark.node, found.2, found.1, mark.depth, mark.region, h.graph.chain (.function mark.region)⟩

theorem eq_ofMark_of_check_ok {mark : Mark} {found : Option Hazard}
    (hOk : ((check h predicate mark).run ()).result = .ok found) :
    found = ofMark h predicate mark := by
  obtain ⟨kind, hRead, hOk, -⟩ := Task.exists_of_bind_ok hOk
  cases hOk
  rw [Task.eq_of_absorb_read_ok hRead]
  rfl

theorem eq_of_collect_ok {hazards : List Hazard}
    (hOk : ((collect h predicate).run ()).result = .ok hazards) :
    hazards = h.nodes.inOrder.filterMap (ofMark h predicate) := by
  obtain ⟨found, hFound, hOk, -⟩ := Task.exists_of_bind_ok hOk
  cases hOk
  rw [Task.eq_map_of_collect_ok (fun mark _ _ _ => eq_ofMark_of_check_ok) hFound,
    List.filterMap_map]
  rfl

/-- A hazard stands at a mark and takes its place from it. -/
theorem mem_filterMap_ofMark {marks : List Mark} {hz : Hazard} :
    hz ∈ marks.filterMap (ofMark h predicate) ↔
      ∃ mark ∈ marks, ∃ found, predicate mark.node = .ok (some found) ∧
        hz = ⟨mark.node, found.2, found.1, mark.depth, mark.region,
          h.graph.chain (.function mark.region)⟩ := by
  simp only [List.mem_filterMap, ofMark, Option.map_eq_some_iff, getD_toOption_eq_some_iff]
  simp only [eq_comm]

/-- Collecting succeeds if and only if every fault of the predicate on a hot node is absorbed. -/
theorem collect_ok_iff : (∃ hazards, ((collect h predicate).run ()).result = .ok hazards) ↔
    ∀ mark ∈ h.nodes.inOrder,
      FailsOnly (fun fault => fault.absorbed = true) (predicate mark.node) := by
  constructor
  · rintro ⟨hazards, hOk⟩ mark hMark
    obtain ⟨found, hFound, -⟩ := Task.exists_of_bind_ok hOk
    obtain ⟨s, b, hCheck⟩ := Task.exists_ok_of_collect_ok hFound hMark
    obtain ⟨kind, hRead, -⟩ := Task.exists_of_bind_ok hCheck
    exact Task.absorb_read_ok_iff.1 ⟨kind, hRead⟩
  · intro hFaults
    refine Task.Keeps.exists_ok (R := Anywhere) (Task.Keeps.bind ?_
      fun found => Task.Keeps.pure _) ()
    refine Task.Keeps.collect fun mark hMark => ?_
    exact Task.Keeps.bind
      (Task.Keeps.absorb_read (hFaults mark hMark) none _)
      fun found => Task.Keeps.pure _

end Hazard

/-- Whether a matcher reports a hazard: a literal counts only in the body of a root itself. -/
def Hazard.counts (hz : Hazard) : Bool := hz.kind ≠ .literal || hz.depth = 0

/-- What a matcher reports, as a function of the marks in order. -/
def Matcher.found (m : Matcher) (h : Heat) : List Hazard :=
  (h.nodes.inOrder.filterMap (Hazard.ofMark h m.classify)).filter Hazard.counts

theorem Matcher.hazards_eq {m : Matcher} {h : Heat} {hazards : List Hazard}
    (hOk : ((m.hazards h).run ()).result = .ok hazards) : hazards = m.found h := by
  obtain ⟨all, hAll, hOk, -⟩ := Task.exists_of_bind_ok hOk
  cases hOk
  rw [Hazard.eq_of_collect_ok hAll]
  rfl

theorem Matcher.hazards_ok_iff {m : Matcher} {h : Heat} :
    (∃ hazards, ((m.hazards h).run ()).result = .ok hazards) ↔
      ∀ mark ∈ h.nodes.inOrder,
        FailsOnly (fun fault => fault.absorbed = true) (m.classify mark.node) := by
  rw [← Hazard.collect_ok_iff]
  constructor
  · rintro ⟨hazards, hOk⟩
    obtain ⟨all, hAll, -⟩ := Task.exists_of_bind_ok hOk
    exact ⟨all, hAll⟩
  · rintro ⟨all, hAll⟩
    unfold Matcher.hazards
    rw [Task.result_bind_of_ok hAll]
    exact ⟨_, rfl⟩

namespace Engine

variable {e : Engine} {root : Cursor} {a : Analysis}

/-- The stages of an analysis without hazards, each with its result. -/
structure Propagated (e : Engine) (root : Cursor) (a : Analysis) : Prop where
  built : ((ScopeTable.build root).run ScopeTable.empty).result = .ok ()
  scopes : a.scopes = ((ScopeTable.build root).run ScopeTable.empty).state
  roots : ((Root.detectAll a.scopes e.detectors root).run ()).result = .ok a.roots
  heat : ((Heat.propagate a.scopes e.maxCallDepth a.roots).run ()).result = .ok a.heat
  hazards : a.hazards = []

theorem propagated_of_ok (hOk : ((e.propagate root).run ()).result = .ok a) :
    Propagated e root a := by
  obtain ⟨p, hBuild, hOk, -⟩ := Task.exists_of_bind_ok hOk
  obtain ⟨hBuilt, hScopes⟩ := Task.of_withState_ok hBuild
  obtain ⟨roots, hRoots, hOk, -⟩ := Task.exists_of_bind_ok hOk
  obtain ⟨heat, hHeat, hOk, -⟩ := Task.exists_of_bind_ok hOk
  rw [Task.result_note_bind] at hOk
  obtain ⟨-, -, hOk, -⟩ := Task.exists_of_bind_ok hOk
  cases hOk
  exact ⟨hBuilt, hScopes, hRoots, hHeat, rfl⟩

theorem Propagated.ok (h : Propagated e root a) :
    ((e.propagate root).run ()).result = .ok a := by
  unfold propagate
  rw [Task.result_bind_of_ok (Task.result_withState_of_ok h.built ())]
  simp only
  rw [← h.scopes, Task.result_bind_of_ok h.roots, Task.result_bind_of_ok h.heat,
    Task.result_note_bind, Task.result_bind_of_ok (Task.result_each_note _ ()), ← h.hazards]
  rfl

/-- The hazards that are sought; none without a matcher. -/
def seek (e : Engine) (h : Heat) : Task Unit (List Hazard) :=
  match e.matcher with
  | none => pure []
  | some m => m.hazards h

theorem analyze_ok_iff :
    ((e.analyze root).run ()).result = .ok a ↔
      Propagated e root { a with hazards := [] } ∧
        ((e.seek a.heat).run ()).result = .ok a.hazards := by
  unfold analyze seek
  constructor
  · intro hOk
    obtain ⟨found, hFound, hOk, -⟩ := Task.exists_of_bind_ok hOk
    have hStages := propagated_of_ok hFound
    have hSame : found = { found with hazards := [] } := by rw [← hStages.hazards]
    cases hMatcher : e.matcher with
    | none =>
        simp only [hMatcher] at hOk
        cases hOk
        exact ⟨hSame ▸ hStages, congrArg Except.ok hStages.hazards.symm⟩
    | some m =>
        simp only [hMatcher] at hOk
        obtain ⟨hazards, hHazards, hOk, -⟩ := Task.exists_of_bind_ok hOk
        cases hOk
        exact ⟨hSame ▸ hStages, hHazards⟩
  · rintro ⟨hStages, hSeek⟩
    rw [Task.result_bind_of_ok hStages.ok]
    cases hMatcher : e.matcher with
    | none =>
        simp only [hMatcher] at hSeek
        cases a
        cases hSeek
        rfl
    | some m =>
        simp only [hMatcher] at hSeek
        simp only
        rw [Task.result_bind_of_ok hSeek]
        rfl

end Engine

end HotPath
