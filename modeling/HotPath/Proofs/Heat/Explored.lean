import HotPath.Proofs.Heat.Run
import Mathlib.Data.List.Induction

/-! What is known about the functions while the queue is worked through. Every function that was
ever queued has an origin, every mark on a function has a reason, and whatever a scanned function
calls is marked one call deeper. -/

namespace HotPath.Heat

variable {t : ScopeTable} {limit : Int} {roots : List Root}

/-- The functions that have been scanned, then those that wait. -/
def Stage.entries (s : Stage) : Queue := s.scanned ++ s.queue

/-- A scanned function calls a function that is then one call deeper, which the limit allows. -/
structure Leads (t : ScopeTable) (limit : Int) (caller callee : Cursor × Int) : Prop where
  depth_eq : callee.2 = caller.2 + 1
  limited : callee.2 ≤ limit
  called : ∃ call ∈ callsIn t caller.1, call.target = callee.1

/-- What holds between visits. -/
structure Explored (t : ScopeTable) (limit : Int) (roots : List Root) (s : Stage) : Prop where
  level : Level s.heat s.queue
  passed : ∀ e ∈ s.scanned, ∀ e' ∈ s.queue, e.2 ≤ e'.2
  nonneg : ∀ e ∈ s.entries, 0 ≤ e.2
  marked : ∀ e ∈ s.entries, s.heat.functions.Within e.1.key e.2
  origin : ∀ e ∈ s.entries,
    (e.2 = 0 ∧ ∃ r ∈ roots, r.function = e.1) ∨ ∃ caller ∈ s.scanned, Leads t limit caller e
  reason : ∀ k m, s.heat.functions.get? k = some m → m.node.key = k ∧
    ((m.node, m.depth) ∈ s.entries ∨
      ∃ e ∈ s.scanned, m.node ∈ e.1.innerFunctions ∧ m.depth = e.2)
  root_marked : ∀ r ∈ roots, s.heat.functions.Within r.function.key 0
  root_depth : ∀ r ∈ roots, ∀ e ∈ s.entries, e.1.key = r.function.key → e.2 = 0
  call_marked : ∀ e ∈ s.scanned, e.2 + 1 ≤ limit → ∀ call ∈ callsIn t e.1,
    s.heat.functions.Within call.target.key (e.2 + 1)
  call_depth : ∀ e ∈ s.scanned, ∀ call ∈ callsIn t e.1, ∀ e' ∈ s.entries,
    e'.1.key = call.target.key → e'.2 ≤ e.2 + 1

namespace Explored

variable {h : Heat} {f : Cursor} {depth : Int} {rest scanned : Queue}

/-- The mark of a function that is passed over has another reason than its waiting. -/
theorem skip (hs : Explored t limit roots ⟨h, (f, depth) :: rest, scanned⟩)
    (hSkip : h.skips f depth = true) : Explored t limit roots ⟨h, rest, scanned⟩ := by
  have hEntries : ∀ e ∈ (⟨h, rest, scanned⟩ : Stage).entries,
      e ∈ (⟨h, (f, depth) :: rest, scanned⟩ : Stage).entries := by
    intro e he
    exact List.Sublist.mem he ((List.sublist_cons_self _ rest).append_left scanned)
  refine
    { level := hs.level.tail
      passed := fun e he e' he' => hs.passed e he e' (List.mem_cons_of_mem _ he')
      nonneg := fun e he => hs.nonneg e (hEntries e he)
      marked := fun e he => hs.marked e (hEntries e he)
      origin := fun e he => hs.origin e (hEntries e he)
      reason := ?_
      root_marked := hs.root_marked
      root_depth := fun r hr e he => hs.root_depth r hr e (hEntries e he)
      call_marked := hs.call_marked
      call_depth := fun e he call hCall e' he' =>
        hs.call_depth e he call hCall e' (hEntries e' he') }
  intro k m hm
  obtain ⟨hKey, hReason⟩ := hs.reason k m hm
  refine ⟨hKey, hReason.imp_left fun hEntry => ?_⟩
  -- The mark of the function that is passed over is smaller than the depth at which it waited.
  have hOther : (m.node, m.depth) ≠ (f, depth) := by
    intro hSame
    obtain ⟨rfl, rfl⟩ := Prod.mk.inj hSame
    have hMark : h.functions.markOf? m.node = some m := by
      unfold MarkTable.markOf?
      rw [hKey]
      exact hm
    simp [skips, hMark] at hSkip
  rcases List.mem_append.1 hEntry with hScanned | hQueue
  · exact List.mem_append_left _ hScanned
  · rcases List.mem_cons.1 hQueue with hSame | hRest
    · exact (hOther hSame).elim
    · exact List.mem_append_right _ hRest

/-- After a scan the entries are those from before and those that its calls queued. -/
theorem mem_entries_visited {e : Cursor × Int} {new : Queue} :
    e ∈ scanned ++ [(f, depth)] ++ (rest ++ new) ↔
      e ∈ scanned ++ (f, depth) :: rest ∨ e ∈ new := by
  simp only [List.mem_append, List.mem_cons, List.not_mem_nil, or_false, or_assoc]

/-- No mark is lost by a visit. -/
theorem within_reached (hLevel : Level h ((f, depth) :: rest)) {k : Key} {d : Int}
    (hk : h.functions.Within k d) : (reached t limit h f depth).1.Within k d := by
  obtain ⟨m, hm, hDepth⟩ := hk.markAll (f.bodyNodes.filter (·.isFunction)) depth f.key
  exact ⟨m, (queued_reached t limit hLevel).kept k m hm, hDepth⟩

/-- What a visit queues had no mark. -/
theorem not_within_of_mem_reached (hLevel : Level h ((f, depth) :: rest)) {e : Cursor × Int}
    (he : e ∈ (reached t limit h f depth).2) (d : Int) : ¬ h.functions.Within e.1.key d := by
  intro hWithin
  obtain ⟨m, hm, -⟩ := hWithin.markAll (f.bodyNodes.filter (·.isFunction)) depth f.key
  rw [(queued_reached t limit hLevel).fresh e he] at hm
  cases hm

theorem reason_visit (hs : Explored t limit roots ⟨h, (f, depth) :: rest, scanned⟩) {k : Key}
    {m : Mark} (hm : (reached t limit h f depth).1.get? k = some m) :
    m.node.key = k ∧
      ((m.node, m.depth) ∈ scanned ++ [(f, depth)] ++ (rest ++ (reached t limit h f depth).2) ∨
        ∃ e ∈ scanned ++ [(f, depth)], m.node ∈ e.1.innerFunctions ∧ m.depth = e.2) := by
  rcases (queued_reached t limit hs.level).source k m hm with hScan | ⟨e, he, rfl, hKey⟩
  · rcases MarkTable.get?_markAll hScan with hOld | ⟨⟨c, hc, hKey, rfl⟩, -⟩
    · obtain ⟨hKey, hEntry | ⟨e, he, hReason⟩⟩ := hs.reason k m hOld
      · exact ⟨hKey, .inl (mem_entries_visited.2 (.inl hEntry))⟩
      · exact ⟨hKey, .inr ⟨e, List.mem_append_left _ he, hReason⟩⟩
    · exact ⟨hKey, .inr ⟨(f, depth), by simp, hc, rfl⟩⟩
  · refine ⟨hKey, .inl (mem_entries_visited.2 (.inr ?_))⟩
    rw [← (queued_reached t limit hs.level).depth_eq e he]
    exact he

/-- A function that is called from a scanned one is never queued more than one call deeper, also
where the limit keeps the call itself from being followed. -/
theorem call_depth_visit (hs : Explored t limit roots ⟨h, (f, depth) :: rest, scanned⟩)
    {e e' : Cursor × Int} (he : e ∈ scanned ++ [(f, depth)]) {call : LocalCall}
    (hCall : call ∈ callsIn t e.1)
    (he' : e' ∈ scanned ++ (f, depth) :: rest ∨ e' ∈ (reached t limit h f depth).2)
    (hKey : e'.1.key = call.target.key) :
    e'.2 ≤ e.2 + 1 := by
  rcases List.mem_append.1 he with he | he
  · rcases he' with hOld | hNew
    · exact hs.call_depth e he call hCall e' hOld hKey
    · by_contra hDeep
      have hLimit := (queued_reached t limit hs.level).limited e' hNew
      have hWithin := hs.call_marked e he (by omega) call hCall
      rw [← hKey] at hWithin
      exact not_within_of_mem_reached hs.level hNew _ hWithin
  · obtain rfl := List.mem_singleton.1 he
    rcases he' with hOld | hNew
    · rcases List.mem_append.1 hOld with hScanned | hQueue
      · have := hs.passed e' hScanned _ List.mem_cons_self
        omega
      · exact hs.level.close _ List.mem_cons_self e' hQueue
    · exact Int.le_of_eq ((queued_reached t limit hs.level).depth_eq e' hNew)

theorem visit (hs : Explored t limit roots ⟨h, (f, depth) :: rest, scanned⟩) :
    Explored t limit roots ⟨visited t limit h f depth, rest ++ (reached t limit h f depth).2,
      scanned ++ [(f, depth)]⟩ := by
  have hQueued := queued_reached t limit hs.level
  have hSelf := hs.nonneg (f, depth) (List.mem_append_right _ List.mem_cons_self)
  constructor
  case level => exact hs.level.visited
  case passed =>
    have hHead := (List.pairwise_cons.1 hs.level.sorted).1
    intro e he e' he'
    have hBefore : e.2 ≤ depth := by
      rcases List.mem_append.1 he with he | he
      · exact hs.passed e he _ List.mem_cons_self
      · rw [List.mem_singleton.1 he]
    rcases List.mem_append.1 he' with hRest | hNew
    · exact hBefore.trans (hHead e' hRest)
    · have := hQueued.depth_eq e' hNew
      omega
  case nonneg =>
    intro e he
    rcases mem_entries_visited.1 he with hOld | hNew
    · exact hs.nonneg e hOld
    · have := hQueued.depth_eq e hNew
      simp only at hSelf
      omega
  case marked =>
    intro e he
    rcases mem_entries_visited.1 he with hOld | hNew
    · exact within_reached hs.level (hs.marked e hOld)
    · exact ⟨_, hQueued.marked e hNew, Int.le_of_eq (hQueued.depth_eq e hNew).symm⟩
  case origin =>
    intro e he
    rcases mem_entries_visited.1 he with hOld | hNew
    · refine (hs.origin e hOld).imp_right ?_
      rintro ⟨caller, hCaller, hLeads⟩
      exact ⟨caller, List.mem_append_left _ hCaller, hLeads⟩
    · exact .inr ⟨(f, depth), by simp,
        hQueued.depth_eq e hNew, hQueued.limited e hNew, hQueued.called e hNew⟩
  case reason => exact fun k m hm => hs.reason_visit hm
  case root_marked => exact fun r hr => within_reached hs.level (hs.root_marked r hr)
  case root_depth =>
    intro r hr e he hKey
    rcases mem_entries_visited.1 he with hOld | hNew
    · exact hs.root_depth r hr e hOld hKey
    · exact (not_within_of_mem_reached hs.level hNew 0 (hKey ▸ hs.root_marked r hr)).elim
  case call_marked =>
    intro e he hLimit call hCall
    rcases List.mem_append.1 he with he | he
    · exact within_reached hs.level (hs.call_marked e he hLimit call hCall)
    · obtain rfl := List.mem_singleton.1 he
      exact hQueued.complete hLimit call hCall
  case call_depth =>
    intro e he call hCall e' he' hKey
    exact hs.call_depth_visit he hCall (mem_entries_visited.1 he') hKey

theorem step {s s' : Stage} (step : Stage.Step t limit s s') (hs : Explored t limit roots s) :
    Explored t limit roots s' := by
  cases step with
  | skip hSkip => exact hs.skip hSkip
  | visit hVisit hScan => exact hs.visit

end Explored

/-- What entering roots leaves: every mark is that of a root at depth zero, and its function waits.
-/
structure Entered (roots : List Root) (h : Heat) (queue : Queue) : Prop where
  depth_eq : ∀ e ∈ queue, e.2 = 0
  root : ∀ e ∈ queue, ∃ r ∈ roots, r.function = e.1
  marked : ∀ e ∈ queue, h.functions.Within e.1.key 0
  root_marked : ∀ r ∈ roots, h.functions.Within r.function.key 0
  reason : ∀ k m, h.functions.get? k = some m →
    m.depth = 0 ∧ m.node.key = k ∧ (m.node, 0) ∈ queue
  length_le : queue.length ≤ roots.length

theorem enterRoot_eq (h : Heat) (queue : Queue) (r : Root) :
    enterRoot (h, queue) r =
      (⟨h.graph.enter r, h.functions.mark r.function 0 r.function.key, h.nodes⟩,
        queue ++ if h.functions.improves r.function 0 then [(r.function, 0)] else []) := by
  unfold enterRoot
  simp only
  split
  · rfl
  · rw [List.append_nil]
    rfl

theorem Entered.enterRoot {h : Heat} {queue : Queue} (hs : Entered roots h queue) (r : Root) :
    Entered (roots ++ [r]) (Heat.enterRoot (h, queue) r).1 (Heat.enterRoot (h, queue) r).2 := by
  rw [enterRoot_eq]
  have hNew : ∀ e ∈ (if h.functions.improves r.function 0 then [(r.function, (0 : Int))] else []),
      e = (r.function, 0) := by
    intro e he
    split at he
    · exact List.mem_singleton.1 he
    · cases he
  have hSelf := h.functions.within_mark r.function 0 r.function.key
  constructor
  case depth_eq =>
    intro e he
    rcases List.mem_append.1 he with he | he
    · exact hs.depth_eq e he
    · rw [hNew e he]
  case root =>
    intro e he
    rcases List.mem_append.1 he with he | he
    · obtain ⟨r', hr', hFunction⟩ := hs.root e he
      exact ⟨r', List.mem_append_left _ hr', hFunction⟩
    · exact ⟨r, by simp, by rw [hNew e he]⟩
  case marked =>
    intro e he
    rcases List.mem_append.1 he with he | he
    · exact (hs.marked e he).mark _ _ _
    · rw [hNew e he]
      exact hSelf
  case root_marked =>
    intro r' hr'
    rcases List.mem_append.1 hr' with hr' | hr'
    · exact (hs.root_marked r' hr').mark _ _ _
    · rw [List.mem_singleton.1 hr']
      exact hSelf
  case reason =>
    intro k m hm
    rw [MarkTable.get?_mark] at hm
    split at hm
    · next hMark =>
        cases hm
        exact ⟨rfl, hMark.1.symm, List.mem_append_right _ (by simp [hMark.2])⟩
    · obtain ⟨hDepth, hKey, hQueue⟩ := hs.reason k m hm
      exact ⟨hDepth, hKey, List.mem_append_left _ hQueue⟩
  case length_le =>
    have := hs.length_le
    rw [List.length_append, List.length_append, List.length_singleton]
    split
    · rw [List.length_singleton]
      omega
    · rw [List.length_nil]
      omega

/-- The roots have been entered and nothing has been scanned. -/
def Stage.opening (roots : List Root) : Stage :=
  ⟨(roots.foldl enterRoot (start, [])).1, (roots.foldl enterRoot (start, [])).2, []⟩

theorem entered_opening (roots : List Root) :
    Entered roots (Stage.opening roots).heat (Stage.opening roots).queue := by
  unfold Stage.opening
  induction roots using List.reverseRecOn with
  | nil =>
      refine ⟨by simp, by simp, by simp, by simp, ?_, by simp⟩
      intro k m hm
      cases hm
  | append_singleton rs r ih =>
      rw [List.foldl_append]
      exact ih.enterRoot r

theorem level_opening (roots : List Root) :
    Level (Stage.opening roots).heat (Stage.opening roots).queue := by
  have hs := entered_opening roots
  constructor
  · apply List.pairwise_of_forall_mem_list
    intro a ha b hb
    rw [hs.depth_eq a ha, hs.depth_eq b hb]
  · intro a ha b hb
    rw [hs.depth_eq a ha, hs.depth_eq b hb]
    decide
  · intro e he k m hm
    rw [hs.depth_eq e he, (hs.reason k m hm).1]
    decide

theorem explored_opening (t : ScopeTable) (limit : Int) (roots : List Root) :
    Explored t limit roots (Stage.opening roots) := by
  have hs := entered_opening roots
  constructor
  case level => exact level_opening roots
  case passed => exact fun e he => by cases he
  case nonneg => exact fun e he => Int.le_of_eq (hs.depth_eq e he).symm
  case marked => exact fun e he => (hs.depth_eq e he).symm ▸ hs.marked e he
  case origin => exact fun e he => .inl ⟨hs.depth_eq e he, hs.root e he⟩
  case reason =>
    intro k m hm
    obtain ⟨hDepth, hKey, hQueue⟩ := hs.reason k m hm
    exact ⟨hKey, .inl (hDepth ▸ hQueue)⟩
  case root_marked => exact hs.root_marked
  case root_depth => exact fun r hr e he hKey => hs.depth_eq e he
  case call_marked => exact fun e he => by cases he
  case call_depth => exact fun e he => by cases he

theorem vacant_le_length (t : ScopeTable) (table : MarkTable) :
    vacant t table ≤ t.bindings.length :=
  Nat.le_trans List.countP_le_length (List.length_filterMap_le _ _)

theorem length_add_vacant_opening (t : ScopeTable) (roots : List Root) :
    (Stage.opening roots).queue.length + vacant t (Stage.opening roots).heat.functions ≤
      roots.length + t.bindings.length :=
  Nat.add_le_add (entered_opening roots).length_le (vacant_le_length t _)

theorem propagate_eq (t : ScopeTable) (limit : Int) (roots : List Root) :
    propagate t limit roots = Task.withState (Stage.opening roots).heat
      (drain t limit (roots.length + t.bindings.length) (Stage.opening roots).queue) >>=
        fun p => pure p.2 := rfl

/-- Heat spreads along a run from the entered roots to an empty queue. -/
theorem exists_runs_of_propagate_ok {h : Heat}
    (hOk : ((propagate t limit roots).run ()).result = .ok h) :
    ∃ scanned, Stage.Runs t limit (Stage.opening roots) ⟨h, [], scanned⟩ := by
  rw [propagate_eq] at hOk
  obtain ⟨p, hDrain, hLast, -⟩ := Task.exists_of_bind_ok hOk
  obtain ⟨hDrain, hState⟩ := Task.of_withState_ok hDrain
  cases hLast
  rw [hState]
  exact exists_runs_of_drain_ok (level_opening roots) (length_add_vacant_opening t roots) hDrain []

/-- Such a run is all that spreading heat needs to succeed. -/
theorem propagate_of_runs {h : Heat} {scanned : Queue}
    (run : Stage.Runs t limit (Stage.opening roots) ⟨h, [], scanned⟩) :
    ((propagate t limit roots).run ()).result = .ok h := by
  obtain ⟨hDrain, hState⟩ :=
    drain_of_runs (level_opening roots) (length_add_vacant_opening t roots) run
  rw [propagate_eq, Task.run_bind_of_ok (Task.result_withState_of_ok hDrain ())]
  exact congrArg Except.ok hState

theorem exists_propagate_ok (limit : Int) {Q : Cursor → Prop}
    (hScan : ∀ f, Q f → Scannable t f)
    (hCalls : ∀ f, Q f → ∀ call ∈ callsIn t f, Q call.target)
    (hRoots : ∀ r ∈ roots, Q r.function) :
    ∃ h, ((propagate t limit roots).run ()).result = .ok h := by
  have hQueue : ∀ e ∈ (Stage.opening roots).queue, Q e.1 := by
    intro e he
    obtain ⟨r, hr, hFunction⟩ := (entered_opening roots).root e he
    exact hFunction ▸ hRoots r hr
  have hDrain := drain_ok_of_scannable hScan hCalls limit (roots.length + t.bindings.length)
    (Stage.opening roots).heat hQueue
  rw [propagate_eq, Task.run_bind_of_ok (Task.result_withState_of_ok hDrain ())]
  exact ⟨_, rfl⟩

end HotPath.Heat
