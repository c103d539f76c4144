import HotPath.Proofs.Success
import Mathlib.Data.List.Sort

/-! Lowering the limit. A run with a smaller limit goes along with one with a larger limit: it takes
the same steps on functions within the smaller limit and rests on the others, and its tables are
those of the larger run without the deeper marks. -/

namespace HotPath

namespace MarkTable

variable {bound depth : Int} {wide narrow : MarkTable}

/-- One table holds the marks of another one that are no deeper than a bound. -/
def Restricts (bound : Int) (wide narrow : MarkTable) : Prop :=
  ∀ k, narrow.get? k = (wide.get? k).filter fun m => m.depth ≤ bound

theorem Restricts.get?_of_le (h : Restricts bound wide narrow) {k : Key} {m : Mark}
    (hm : wide.get? k = some m) (hLe : m.depth ≤ bound) : narrow.get? k = some m := by
  simp [h k, hm, hLe]

/-- Deeper marks are no obstacle to a mark within the bound. -/
theorem Restricts.improves_eq (h : Restricts bound wide narrow) (c : Cursor)
    (hLe : depth ≤ bound) : narrow.improves c depth = wide.improves c depth := by
  unfold improves
  rw [h c.key]
  cases hOld : wide.get? c.key with
  | none => rfl
  | some m =>
      by_cases hm : m.depth ≤ bound
      · simp [Option.filter_some, hm]
      · have : depth < m.depth := by omega
        simp [Option.filter_some, hm, this]

theorem Restricts.mark (h : Restricts bound wide narrow) (c : Cursor) (hLe : depth ≤ bound)
    (region : Key) : Restricts bound (wide.mark c depth region) (narrow.mark c depth region) := by
  intro k
  rw [get?_mark, get?_mark, h.improves_eq c hLe]
  split
  · simp [Option.filter_some, hLe]
  · exact h k

/-- A mark beyond the bound changes nothing within it. -/
theorem Restricts.mark_deep (h : Restricts bound wide narrow) (c : Cursor) (hLt : bound < depth)
    (region : Key) : Restricts bound (wide.mark c depth region) narrow := by
  intro k
  rw [get?_mark, h k]
  split
  · next hSame =>
      obtain ⟨rfl, hImproves⟩ := hSame
      have hDeep : ¬ depth ≤ bound := by omega
      cases hOld : wide.get? c.key with
      | none => simp [Option.filter_some, hDeep]
      | some m =>
          have := (wide.improves_iff c depth).1 hImproves m hOld
          have hDeep' : ¬ m.depth ≤ bound := by omega
          simp [Option.filter_some, hDeep, hDeep']
  · rfl

theorem Restricts.markAll (h : Restricts bound wide narrow) (cs : List Cursor)
    (hLe : depth ≤ bound) (region : Key) :
    Restricts bound (wide.markAll cs depth region) (narrow.markAll cs depth region) := by
  induction cs generalizing wide narrow with
  | nil => exact h
  | cons c rest ih => exact ih (h.mark c hLe region)

theorem Restricts.markAll_deep (h : Restricts bound wide narrow) (cs : List Cursor)
    (hLt : bound < depth) (region : Key) :
    Restricts bound (wide.markAll cs depth region) narrow := by
  induction cs generalizing wide with
  | nil => exact h
  | cons c rest ih => exact ih (h.mark_deep c hLt region)

/-- Both tables list the marks that they share in the same order. -/
theorem Restricts.inOrder_eq (h : Restricts bound wide narrow) (hWide : wide.Keyed)
    (hNarrow : narrow.Keyed) : narrow.inOrder = wide.inOrder.filter fun m => m.depth ≤ bound := by
  have hSame : narrow.inOrder.Perm (wide.inOrder.filter fun m => m.depth ≤ bound) := by
    refine (List.perm_ext_iff_of_nodup hNarrow.nodup_inOrder (hWide.nodup_inOrder.filter _)).2 ?_
    intro m
    rw [mem_inOrder_iff hNarrow, List.mem_filter, mem_inOrder_iff hWide, h m.node.key,
      Option.filter_eq_some_iff]
  refine hSame.eq_of_pairwise ?_ hNarrow.pairwise_inOrder (hWide.pairwise_inOrder.filter _)
  intro a b _ _ hab hba
  rw [← rank_lt_iff] at hab hba
  exact (lt_asymm hab hba).elim

end MarkTable

namespace Heat

open MarkTable

variable {t : ScopeTable} {limit bound depth : Int} {wide narrow : MarkTable}

/-- The entries of a queue within a bound. -/
def within (bound : Int) (queue : Queue) : Queue := queue.filter fun e => e.2 ≤ bound

/-- Following a call within both limits marks and queues the same, and where only the larger one
allows it, nothing within the bound changes. -/
theorem restricts_queueCall (h : Restricts bound wide narrow) (hBound : bound ≤ limit)
    (depth : Int) (queue : Queue) (call : LocalCall) :
    Restricts bound (queueCall limit depth (wide, queue) call).1
        (queueCall bound depth (narrow, within bound queue) call).1 ∧
      (queueCall bound depth (narrow, within bound queue) call).2 =
        within bound (queueCall limit depth (wide, queue) call).2 := by
  unfold queueCall within
  by_cases hDeep : depth + 1 > bound
  · rw [if_pos hDeep]
    split
    · exact ⟨h, rfl⟩
    · refine ⟨h.mark_deep _ hDeep _, ?_⟩
      have hOut : ¬ depth + 1 ≤ bound := by omega
      split
      · simp [hOut]
      · rfl
  · have hLimit : ¬ depth + 1 > limit := by omega
    have hLe : depth + 1 ≤ bound := by omega
    rw [if_neg hDeep, if_neg hLimit]
    refine ⟨h.mark _ hLe _, ?_⟩
    simp only [h.improves_eq call.target hLe]
    split
    · simp [hLe]
    · rfl

theorem restricts_queueCall_foldl (h : Restricts bound wide narrow) (hBound : bound ≤ limit)
    (depth : Int) (queue : Queue) (calls : List LocalCall) :
    Restricts bound (calls.foldl (queueCall limit depth) (wide, queue)).1
        (calls.foldl (queueCall bound depth) (narrow, within bound queue)).1 ∧
      (calls.foldl (queueCall bound depth) (narrow, within bound queue)).2 =
        within bound (calls.foldl (queueCall limit depth) (wide, queue)).2 := by
  induction calls generalizing wide narrow queue with
  | nil => exact ⟨h, rfl⟩
  | cons call rest ih =>
      obtain ⟨hTable, hQueue⟩ := restricts_queueCall h hBound depth queue call
      have hNext := ih hTable (queueCall limit depth (wide, queue) call).2
      rw [← hQueue] at hNext
      exact hNext

/-- Calls beyond the limit are not followed. -/
theorem queueCall_foldl_of_lt (hLt : bound < depth + 1) (calls : List LocalCall)
    (s : MarkTable × Queue) : calls.foldl (queueCall bound depth) s = s := by
  induction calls with
  | nil => rfl
  | cons call rest ih =>
      rw [List.foldl_cons, queueCall, if_pos hLt]
      exact ih

/-- Scanning a function within the bound does the same in both runs, up to what lies deeper. -/
theorem restricts_reached {h h' : Heat} (hs : Restricts bound h.functions h'.functions)
    (hBound : bound ≤ limit) (f : Cursor) (hLe : depth ≤ bound) :
    Restricts bound (reached t limit h f depth).1 (reached t bound h' f depth).1 ∧
      (reached t bound h' f depth).2 = within bound (reached t limit h f depth).2 :=
  restricts_queueCall_foldl (hs.markAll _ hLe f.key) hBound depth [] (callsIn t f)

/-- Scanning a function beyond the bound changes nothing within it. -/
theorem restricts_reached_deep {h : Heat} (hs : Restricts bound h.functions narrow)
    (hBound : bound ≤ limit) (f : Cursor) (hLt : bound < depth) :
    Restricts bound (reached t limit h f depth).1 narrow ∧
      within bound (reached t limit h f depth).2 = [] := by
  obtain ⟨hTable, hQueue⟩ := restricts_queueCall_foldl
    (hs.markAll_deep (f.bodyNodes.filter (·.isFunction)) hLt f.key) hBound depth [] (callsIn t f)
  have hNone := queueCall_foldl_of_lt (show bound < depth + 1 by omega) (callsIn t f)
    (narrow, within bound [])
  rw [hNone] at hTable hQueue
  exact ⟨hTable, hQueue.symm⟩

/-- A run with the smaller limit has come as far as one with the larger limit. -/
structure Narrowed (bound : Int) (w n : Stage) : Prop where
  functions : Restricts bound w.heat.functions n.heat.functions
  queue : n.queue = within bound w.queue
  scanned : n.scanned = within bound w.scanned

theorem within_append (bound : Int) (xs ys : Queue) :
    within bound (xs ++ ys) = within bound xs ++ within bound ys :=
  List.filter_append xs ys

theorem within_cons_of_le {e : Cursor × Int} (h : e.2 ≤ bound) (rest : Queue) :
    within bound (e :: rest) = e :: within bound rest :=
  List.filter_cons_of_pos (by simpa using h)

theorem within_cons_of_lt {e : Cursor × Int} (h : bound < e.2) (rest : Queue) :
    within bound (e :: rest) = within bound rest :=
  List.filter_cons_of_neg (by simpa using h)

/-- A function within the bound is passed over in both runs or in neither. -/
theorem Narrowed.skips_eq {roots : List Root} {h : Heat} {f : Cursor} {rest scanned : Queue}
    {n : Stage} (hs : Narrowed bound ⟨h, (f, depth) :: rest, scanned⟩ n)
    (hExplored : Explored t limit roots ⟨h, (f, depth) :: rest, scanned⟩) (hLe : depth ≤ bound) :
    n.heat.skips f depth = h.skips f depth := by
  obtain ⟨m, hm, hDepth⟩ := hExplored.marked (f, depth) (List.mem_append_right _ List.mem_cons_self)
  have hn := hs.functions.get?_of_le hm (hDepth.trans hLe)
  simp only at hm
  simp only [skips, markOf?, hm, hn]

/-- Every step with the larger limit is matched by one step with the smaller limit, or by none. -/
theorem Narrowed.step {roots : List Root} {w w' n : Stage} (hs : Narrowed bound w n)
    (hBound : bound ≤ limit) (hExplored : Explored t limit roots w)
    (step : Stage.Step t limit w w') :
    ∃ n', Stage.Runs t bound n n' ∧ Narrowed bound w' n' := by
  cases step with
  | @skip h f depth rest scanned hSkip =>
      by_cases hLe : depth ≤ bound
      · rw [← hs.skips_eq hExplored hLe] at hSkip
        obtain ⟨hn, queue, scanned'⟩ := n
        obtain ⟨hFunctions, rfl, hScanned⟩ := hs
        refine ⟨⟨hn, within bound rest, scanned'⟩, .single ?_, hFunctions, rfl, hScanned⟩
        rw [within_cons_of_le hLe]
        exact .skip hSkip
      · refine ⟨n, .refl, hs.functions, ?_, hs.scanned⟩
        rw [hs.queue, within_cons_of_lt (Int.not_le.1 hLe)]
  | @visit h f depth rest scanned hVisit hScan =>
      by_cases hLe : depth ≤ bound
      · rw [← hs.skips_eq hExplored hLe] at hVisit
        obtain ⟨hn, queue, scanned'⟩ := n
        obtain ⟨hFunctions, rfl, rfl⟩ := hs
        obtain ⟨hTable, hQueued⟩ := restricts_reached (t := t) hFunctions hBound f hLe
        refine ⟨⟨visited t bound hn f depth, within bound rest ++ (reached t bound hn f depth).2,
          within bound scanned ++ [(f, depth)]⟩, .single ?_, hTable, ?_, ?_⟩
        · rw [within_cons_of_le hLe]
          exact .visit hVisit hScan
        · rw [hQueued, within_append]
        · rw [within_append, within_cons_of_le hLe]
          rfl
      · have hLt := Int.not_le.1 hLe
        obtain ⟨hTable, hQueued⟩ := restricts_reached_deep (t := t) hs.functions hBound f hLt
        refine ⟨n, .refl, hTable, ?_, ?_⟩
        · rw [hs.queue, within_append, hQueued, List.append_nil, within_cons_of_lt hLt]
        · rw [hs.scanned, within_append, within_cons_of_lt hLt]
          exact (List.append_nil _).symm

/-- Entering the roots does not depend on the limit. -/
theorem narrowed_opening (roots : List Root) (hBound : 0 ≤ bound) :
    Narrowed bound (Stage.opening roots) (Stage.opening roots) := by
  have hs := entered_opening roots
  refine ⟨?_, ?_, rfl⟩
  · intro k
    cases hMark : (Stage.opening roots).heat.functions.get? k with
    | none => rfl
    | some m => simp [Option.filter_some, (hs.reason k m hMark).1, hBound]
  · refine (List.filter_eq_self.2 fun e he => ?_).symm
    simpa [hs.depth_eq e he] using hBound

theorem Narrowed.run {roots : List Root} {w : Stage} (hNonneg : 0 ≤ bound) (hBound : bound ≤ limit)
    (run : Stage.Runs t limit (Stage.opening roots) w) :
    ∃ n, Stage.Runs t bound (Stage.opening roots) n ∧ Narrowed bound w n := by
  induction run with
  | refl => exact ⟨_, .refl, narrowed_opening roots hNonneg⟩
  | tail before last ih =>
      obtain ⟨n, run, hs⟩ := ih
      have hExplored := Stage.Runs.keeps Explored.step before (explored_opening t limit roots)
      obtain ⟨n', more, hs'⟩ := hs.step hBound hExplored last
      exact ⟨n', run.trans more, hs'⟩

/-- The marks on nodes within a bound come from the functions scanned within it. -/
theorem restricts_spread (bound : Int) (scanned : Queue) :
    Restricts bound (spread scanned) (spread (within bound scanned)) := by
  induction scanned using List.reverseRecOn with
  | nil =>
      intro k
      rfl
  | append_singleton scanned e ih =>
      rw [within_append, spread_concat]
      by_cases hLe : e.2 ≤ bound
      · rw [within_cons_of_le hLe]
        change Restricts bound _ (spread (within bound scanned ++ [e]))
        rw [spread_concat]
        exact ih.markAll _ hLe _
      · have hLt := Int.not_le.1 hLe
        rw [within_cons_of_lt hLt]
        change Restricts bound _ (spread (within bound scanned ++ []))
        rw [List.append_nil]
        exact ih.markAll_deep _ hLt _

end Heat

/-- A hazard without the wording of its chain. -/
def Hazard.unchained (hz : Hazard) : Hazard := { hz with chain := [] }

namespace Hazard

variable {predicate : Cursor → Except Fault (Option (HazardKind × String))}

/-- Hazards at the marks within a bound are the hazards within the bound, whatever the chains. -/
theorem unchained_filter (wide narrow : Heat) (bound : Int) (marks : List Mark) :
    (((marks.filter fun m => m.depth ≤ bound).filterMap (ofMark narrow predicate)).filter
        counts).map unchained =
      (((marks.filterMap (ofMark wide predicate)).filter counts).filter
        fun hz => hz.depth ≤ bound).map unchained := by
  simp only [List.filter_filterMap, List.map_filterMap, List.filterMap_filter]
  apply List.filterMap_congr
  intro m _
  unfold ofMark
  cases (predicate m.node).toOption.getD none with
  | none => simp
  | some found =>
      by_cases hCounts : ¬ found.1 = .literal ∨ m.depth = 0
      · by_cases hLe : m.depth ≤ bound
        · simp [hLe, hCounts, Option.filter_some, counts, unchained]
        · simp [hLe, hCounts, Option.filter_some, counts]
      · rw [not_or, not_not] at hCounts
        simp [hCounts, Option.filter_some, counts]

end Hazard

/-- If the marks are those within a bound, then so are the hazards. -/
theorem Engine.seek_restricted {e : Engine} {wide narrow : Heat} {bound : Int}
    {hazards : List Hazard}
    (hMarks : narrow.nodes.inOrder = wide.nodes.inOrder.filter fun m => m.depth ≤ bound)
    (hOk : ((e.seek wide).run ()).result = .ok hazards) :
    ∃ hazards', ((e.seek narrow).run ()).result = .ok hazards' ∧
      hazards'.map Hazard.unchained =
        (hazards.filter fun hz => hz.depth ≤ bound).map Hazard.unchained := by
  unfold Engine.seek at hOk ⊢
  cases hMatcher : e.matcher with
  | none =>
      simp only [hMatcher] at hOk
      cases hOk
      exact ⟨[], rfl, rfl⟩
  | some m =>
      simp only [hMatcher] at hOk
      obtain ⟨hazards', hOk'⟩ : ∃ hazards', ((m.hazards narrow).run ()).result = .ok hazards' := by
        rw [Matcher.hazards_ok_iff, hMarks]
        intro mark hMark
        exact Matcher.hazards_ok_iff.1 ⟨hazards, hOk⟩ mark (List.mem_filter.1 hMark).1
      refine ⟨hazards', hOk', ?_⟩
      rw [Matcher.hazards_eq hOk', Matcher.hazards_eq hOk, Matcher.found, hMarks,
        Hazard.unchained_filter]
      rfl

/-- No hazard lies deeper than the limit. -/
theorem Heat.Settled.depth_le_of_seek_ok {t : ScopeTable} {limit : Int} {roots : List Root}
    {h : Heat} {scanned : Heat.Queue} (hs : Heat.Settled t limit roots h scanned)
    (hLimit : 0 ≤ limit) {e : Engine} {hazards : List Hazard}
    (hOk : ((e.seek h).run ()).result = .ok hazards) {hz : Hazard} (hMem : hz ∈ hazards) :
    hz.depth ≤ limit := by
  unfold Engine.seek at hOk
  cases hMatcher : e.matcher with
  | none =>
      simp only [hMatcher] at hOk
      cases hOk
      cases hMem
  | some m =>
      simp only [hMatcher] at hOk
      rw [Matcher.hazards_eq hOk] at hMem
      obtain ⟨mark, hMark, found, -, rfl⟩ :=
        Hazard.mem_filterMap_ofMark.1 (List.mem_filter.1 hMem).1
      obtain ⟨entry, hEntry, -, hDepth, -⟩ := hs.exists_of_mem_inOrder hMark
      exact hDepth ▸ hs.depth_le hLimit hEntry

/-- Lowering the limit drops exactly the hazards beyond the new one. The analysis with the lower
limit succeeds too, and it reports the others in the same order, each with its node, operation,
kind, depth and region. -/
theorem Engine.hazards_of_lower_limit (e : Engine) (root : Cursor) (a : Analysis) (bound : Int)
    (hNonneg : 0 ≤ bound) (hBound : bound ≤ e.maxCallDepth)
    (hOk : ((e.analyze root).run ()).result = .ok a) :
    ∃ lower, (({ e with maxCallDepth := bound }.analyze root).run ()).result = .ok lower ∧
      lower.hazards.map Hazard.unchained =
        (a.hazards.filter fun hz => hz.depth ≤ bound).map Hazard.unchained ∧
      (bound = e.maxCallDepth - 1 → lower.hazards.map Hazard.unchained =
        (a.hazards.filter fun hz => hz.depth ≠ e.maxCallDepth).map Hazard.unchained) := by
  obtain ⟨hStages, hSeek⟩ := analyze_ok_iff.1 hOk
  obtain ⟨scanned, run⟩ := Heat.exists_runs_of_propagate_ok hStages.heat
  obtain ⟨⟨narrow, queue, scanned'⟩, run', hNarrowed⟩ := Heat.Narrowed.run hNonneg hBound run
  obtain rfl : queue = [] := hNarrowed.queue
  obtain rfl : scanned' = Heat.within bound scanned := hNarrowed.scanned
  have hMarks : narrow.nodes.inOrder = a.heat.nodes.inOrder.filter fun m => m.depth ≤ bound := by
    rw [run'.settled.nodes_eq, run.settled.nodes_eq]
    exact (Heat.restricts_spread bound scanned).inOrder_eq (Heat.keyed_spread _)
      (Heat.keyed_spread _)
  obtain ⟨hazards', hSeek', hSame⟩ := seek_restricted hMarks hSeek
  refine ⟨⟨a.scopes, a.roots, narrow, hazards'⟩, analyze_ok_iff.2 ⟨?_, hSeek'⟩, hSame, ?_⟩
  · exact ⟨hStages.built, hStages.scopes, hStages.roots, Heat.propagate_of_runs run', rfl⟩
  · intro hBelow
    rw [hSame]
    refine congrArg _ (List.filter_congr fun hz hMem => ?_)
    have hLimit := run.settled.depth_le_of_seek_ok (by omega) hSeek hMem
    simp only [decide_eq_decide]
    omega

theorem Engine.hazards_of_lower_limit_sample :
    ∃ a, ((sample.analyze (.sample (.text "helper"))).run ()).result = .ok a ∧
      (∃ hz ∈ a.hazards, hz.depth = 1) ∧
      ∃ lower, (({ sample with maxCallDepth := 0 }.analyze
          (.sample (.text "helper"))).run ()).result = .ok lower ∧
        lower.hazards.map Hazard.unchained =
          (a.hazards.filter fun hz => hz.depth ≠ 1).map Hazard.unchained := by
  obtain ⟨a, hOk, -⟩ := exists_analyze_ok sample
    (show (Cursor.sample (.text "helper")).FaultFree by decide +kernel) (by decide +kernel)
  obtain ⟨hStages, hSeek⟩ := analyze_ok_iff.1 hOk
  obtain ⟨mark, hMark, hDepth, hClassify⟩ := exists_mark_sample hStages.ok
  have hMem := (Hazard.mem_filterMap_ofMark (h := a.heat)).2 ⟨mark, hMark, _, hClassify, rfl⟩
  obtain ⟨lower, hLower, -, hBelow⟩ :=
    hazards_of_lower_limit sample _ a 0 (by decide) (by decide) hOk
  refine ⟨a, hOk, ?_, lower, hLower, hBelow rfl⟩
  rw [Matcher.hazards_eq hSeek]
  exact ⟨_, List.mem_filter.2 ⟨hMem, rfl⟩, hDepth⟩

end HotPath
