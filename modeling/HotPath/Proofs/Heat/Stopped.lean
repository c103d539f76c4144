import HotPath.Proofs.Heat.Reach

/-! Which functions are scanned, and where a fault stops the work. A function within the limit is
scanned on its own unless it is written inside the body of a function at a smaller distance. The
body of a scanned function has to be read, and a fault of that read is not absorbed. -/

namespace HotPath.Heat

variable {t : ScopeTable} {limit : Int} {roots : List Root}

/-- The body of a function is scanned on its own: the function is at a distance within the limit,
and it is not written inside the body of a function at a smaller distance. Roots are scanned
whatever the limit. -/
def Visits (t : ScopeTable) (roots : List Root) (limit : Int) (f : Cursor) : Prop :=
  ∃ n : Nat, Distance t roots f n ∧ (n : Int) ≤ max limit 0 ∧
    ∀ g m, Distance t roots g m → m < n → f ∉ g.innerFunctions

theorem scan_of_body_error {f : Cursor} {fault : Fault} (hBody : f.body = .error fault)
    (depth : Int) (h : Heat) : ((scan t f depth).run h).result = .error fault := by
  have hRead : ((liftM f.body : Task Heat (Option Cursor)).run h).result = .error fault := by
    rw [← hBody]
    exact Task.result_ofExcept f.body h
  rw [scan, Task.run_bind_of_error hRead]

/-- Where calls can be resolved, only the body of the function itself can stop a visit. -/
theorem body_of_visit_error {f : Cursor} {depth : Int} {h : Heat} {fault : Fault}
    (hError : ((visit t limit f depth).run h).result = .error fault)
    (hNodes : ∀ c ∈ f.bodyNodes, Resolvable t c) :
    h.skips f depth = false ∧ f.body = .error fault := by
  have hVisit : h.skips f depth = false := by
    by_contra hSkip
    rw [(run_visit_of_skips t limit (by simpa using hSkip)).1] at hError
    cases hError
  refine ⟨hVisit, ?_⟩
  cases hBody : f.body with
  | ok body =>
      rw [(run_visit_of_scannable limit hVisit ⟨⟨body, hBody⟩, hNodes⟩).1] at hError
      cases hError
  | error other =>
      rw [visit, Task.result_state_bind] at hError
      unfold skips at hVisit
      cases hMark : h.functions.markOf? f with
      | none => simp [hMark] at hVisit
      | some mark =>
          simp only [hMark, decide_eq_false_iff_not] at hVisit
          simp only [hMark] at hError
          rw [if_neg hVisit, Task.run_bind_of_error (scan_of_body_error hBody depth h)] at hError
          cases hError
          rfl

/-- Working through the queue is stopped after some steps by the function at the front. -/
theorem exists_runs_of_drain_error {visits : Nat} {queue : Queue} {h : Heat} {fault : Fault}
    (hError : ((drain t limit visits queue).run h).result = .error fault) (scanned : Queue) :
    ∃ last f depth rest all,
      Stage.Runs t limit ⟨h, queue, scanned⟩ ⟨last, (f, depth) :: rest, all⟩ ∧
        ((visit t limit f depth).run last).result = .error fault := by
  induction visits generalizing queue h scanned with
  | zero => cases hError
  | succ visits ih =>
      cases queue with
      | nil => cases hError
      | cons e rest =>
          obtain ⟨f, depth⟩ := e
          cases hVisit : ((visit t limit f depth).run h).result with
          | error first =>
              rw [drain, Task.run_bind_of_error hVisit] at hError
              cases hError
              exact ⟨h, f, depth, rest, scanned, .refl, hVisit⟩
          | ok queued =>
              rw [drain, Task.run_bind_of_ok hVisit] at hError
              rcases visit_ok hVisit with ⟨hSkip, rfl, hSame⟩ | ⟨hScan, hScannable, rfl, hNext⟩
              · rw [hSame, List.append_nil] at hError
                obtain ⟨last, f, depth, rest, all, run, hStop⟩ := ih hError scanned
                exact ⟨last, f, depth, rest, all, .head (.skip hSkip) run, hStop⟩
              · rw [hNext] at hError
                obtain ⟨last, g, depth', rest, all, run, hStop⟩ :=
                  ih hError (scanned ++ [(f, depth)])
                exact ⟨last, g, depth', rest, all, .head (.visit hScan hScannable) run, hStop⟩

theorem exists_runs_of_propagate_error {fault : Fault}
    (hError : ((propagate t limit roots).run ()).result = .error fault) :
    ∃ last f depth rest scanned,
      Stage.Runs t limit (Stage.opening roots) ⟨last, (f, depth) :: rest, scanned⟩ ∧
        ((visit t limit f depth).run last).result = .error fault := by
  cases hDrain : ((drain t limit (roots.length + t.bindings.length)
      (Stage.opening roots).queue).run (Stage.opening roots).heat).result with
  | error first =>
      rw [propagate_eq, Task.run_bind_of_error (Task.result_withState_of_error hDrain ())] at hError
      cases hError
      exact exists_runs_of_drain_error hDrain []
  | ok _ =>
      rw [propagate_eq, Task.run_bind_of_ok (Task.result_withState_of_ok hDrain ())] at hError
      cases hError

namespace Explored

variable {s : Stage}

/-- Only roots are entered beyond a limit. -/
theorem depth_le (hs : Explored t limit roots s) {e : Cursor × Int} (he : e ∈ s.entries) :
    e.2 ≤ max limit 0 := by
  rcases hs.origin e he with ⟨hZero, -⟩ | ⟨caller, -, hLeads⟩
  · omega
  · have := hLeads.limited
    omega

theorem mark_nonneg (hs : Explored t limit roots s) {k : Key} {m : Mark}
    (hm : s.heat.functions.get? k = some m) : 0 ≤ m.depth := by
  obtain ⟨-, hEntry | ⟨e, he, -, hDepth⟩⟩ := hs.reason k m hm
  · exact hs.nonneg _ hEntry
  · rw [hDepth]
    exact hs.nonneg e (List.mem_append_left _ he)

/-- A function is passed over only if its mark is smaller than the depth at which it waited. -/
theorem within_of_skips {h : Heat} {f : Cursor} {depth : Int} {rest scanned : Queue}
    (hs : Explored t limit roots ⟨h, (f, depth) :: rest, scanned⟩)
    (hSkip : h.skips f depth = true) : h.functions.Within f.key (depth - 1) := by
  obtain ⟨m, hm, -⟩ := hs.marked (f, depth) (List.mem_append_right _ List.mem_cons_self)
  have hMark : h.functions.markOf? f = some m := hm
  simp only [skips, hMark, decide_eq_true_eq] at hSkip
  exact ⟨m, hm, by omega⟩

end Explored

/-- What else is kept between visits: roots and called functions are entered unless a body that was
scanned no later marks them, the functions inside a scanned body are marked, and every scanned body
could be read. -/
structure Tracked (t : ScopeTable) (limit : Int) (roots : List Root) (s : Stage) : Prop where
  explored : Explored t limit roots s
  root_entered : ∀ r ∈ roots, ∃ e ∈ s.entries, e.1.key = r.function.key
  call_entered : ∀ e ∈ s.scanned, e.2 + 1 ≤ limit → ∀ call ∈ callsIn t e.1,
    (∃ e' ∈ s.entries, e'.1.key = call.target.key) ∨
      s.heat.functions.Within call.target.key e.2
  inner_marked : ∀ e ∈ s.scanned, ∀ g ∈ e.1.innerFunctions, s.heat.functions.Within g.key e.2
  scannable : ∀ e ∈ s.scanned, Scannable t e.1

namespace Tracked

variable {h : Heat} {f : Cursor} {depth : Int} {rest scanned : Queue}

theorem skip (hs : Tracked t limit roots ⟨h, (f, depth) :: rest, scanned⟩)
    (hSkip : h.skips f depth = true) : Tracked t limit roots ⟨h, rest, scanned⟩ := by
  have hMark := hs.explored.within_of_skips hSkip
  have hKept : ∀ e ∈ (⟨h, (f, depth) :: rest, scanned⟩ : Stage).entries,
      e ∈ (⟨h, rest, scanned⟩ : Stage).entries ∨ e = (f, depth) := by
    intro e he
    simp only [Stage.entries, List.mem_append, List.mem_cons] at he ⊢
    tauto
  constructor
  case explored => exact hs.explored.skip hSkip
  case root_entered =>
    intro r hr
    obtain ⟨e, he, hKey⟩ := hs.root_entered r hr
    rcases hKept e he with hKept | rfl
    · exact ⟨e, hKept, hKey⟩
    · -- No mark lies below zero, so a root is never passed over.
      have hZero := hs.explored.root_depth r hr _ he hKey
      obtain ⟨m, hm, hDepth⟩ := hMark
      have := hs.explored.mark_nonneg hm
      simp only at hZero
      omega
  case call_entered =>
    intro e he hLimit call hCall
    rcases hs.call_entered e he hLimit call hCall with ⟨e', he', hKey⟩ | hWithin
    · rcases hKept e' he' with hKept | rfl
      · exact .inl ⟨e', hKept, hKey⟩
      · have := hs.explored.call_depth e he call hCall _ he' hKey
        simp only at this hKey
        exact .inr (hKey ▸ hMark.mono (by omega))
    · exact .inr hWithin
  case inner_marked => exact hs.inner_marked
  case scannable => exact hs.scannable

/-- A call that a visit follows leads to a function that it enters, or that was entered before, or
that a body marks which was scanned no later than the calling one. -/
theorem call_entered_visit (hs : Explored t limit roots ⟨h, (f, depth) :: rest, scanned⟩)
    (hLimit : depth + 1 ≤ limit) {call : LocalCall} (hCall : call ∈ callsIn t f) :
    (∃ e ∈ scanned ++ [(f, depth)] ++ (rest ++ (reached t limit h f depth).2),
        e.1.key = call.target.key) ∨
      (reached t limit h f depth).1.Within call.target.key depth := by
  have hQueued := queued_reached t limit hs.level
  obtain ⟨m, hm, -⟩ := hQueued.complete hLimit call hCall
  obtain ⟨hKey, hEntry | ⟨e, he, -, hDepth⟩⟩ := hs.reason_visit hm
  · exact .inl ⟨_, hEntry, hKey⟩
  · have hPassed : e.2 ≤ depth := by
      rcases List.mem_append.1 he with he | he
      · exact hs.passed e he _ List.mem_cons_self
      · rw [List.mem_singleton.1 he]
    exact .inr ⟨m, hm, hDepth ▸ hPassed⟩

theorem visit (hs : Tracked t limit roots ⟨h, (f, depth) :: rest, scanned⟩)
    (hScan : Scannable t f) :
    Tracked t limit roots ⟨visited t limit h f depth, rest ++ (reached t limit h f depth).2,
      scanned ++ [(f, depth)]⟩ := by
  have hKept : ∀ e ∈ scanned ++ (f, depth) :: rest,
      e ∈ scanned ++ [(f, depth)] ++ (rest ++ (reached t limit h f depth).2) :=
    fun e he => Explored.mem_entries_visited.2 (.inl he)
  have hWithin : ∀ {k : Key} {d : Int}, h.functions.Within k d →
      (reached t limit h f depth).1.Within k d :=
    fun hk => Explored.within_reached hs.explored.level hk
  constructor
  case explored => exact hs.explored.visit
  case root_entered =>
    intro r hr
    obtain ⟨e, he, hKey⟩ := hs.root_entered r hr
    exact ⟨e, hKept e he, hKey⟩
  case call_entered =>
    intro e he hLimit call hCall
    rcases List.mem_append.1 he with he | he
    · rcases hs.call_entered e he hLimit call hCall with ⟨e', he', hKey⟩ | hMark
      · exact .inl ⟨e', hKept e' he', hKey⟩
      · exact .inr (hWithin hMark)
    · obtain rfl := List.mem_singleton.1 he
      exact call_entered_visit hs.explored hLimit hCall
  case inner_marked =>
    intro e he g hg
    rcases List.mem_append.1 he with he | he
    · exact hWithin (hs.inner_marked e he g hg)
    · obtain rfl := List.mem_singleton.1 he
      obtain ⟨m, hm, hDepth⟩ := h.functions.within_markAll hg depth f.key
      exact ⟨m, (queued_reached t limit hs.explored.level).kept _ m hm, hDepth⟩
  case scannable =>
    intro e he
    rcases List.mem_append.1 he with he | he
    · exact hs.scannable e he
    · rw [List.mem_singleton.1 he]
      exact hScan

theorem step {s s' : Stage} (step : Stage.Step t limit s s') (hs : Tracked t limit roots s) :
    Tracked t limit roots s' := by
  cases step with
  | skip hSkip => exact hs.skip hSkip
  | visit hVisit hScan => exact hs.visit hScan

end Tracked

theorem tracked_opening (t : ScopeTable) (limit : Int) (roots : List Root) :
    Tracked t limit roots (Stage.opening roots) := by
  constructor
  case explored => exact explored_opening t limit roots
  case root_entered =>
    intro r hr
    obtain ⟨m, hm, -⟩ := (entered_opening roots).root_marked r hr
    obtain ⟨-, hKey, hQueue⟩ := (entered_opening roots).reason _ m hm
    exact ⟨_, hQueue, hKey⟩
  case call_entered => exact fun e he => by cases he
  case inner_marked => exact fun e he => by cases he
  case scannable => exact fun e he => by cases he

theorem Stage.Runs.tracked {s : Stage} (run : Runs t limit (opening roots) s) :
    Tracked t limit roots s :=
  run.keeps Tracked.step (tracked_opening t limit roots)

namespace Tracked

variable {root : Cursor} {h : Heat} {f : Cursor} {depth : Int} {rest scanned : Queue}

/-- A function at the front of the queue that is not passed over is one of those that are scanned on
their own: at its distance nothing has marked it but its waiting. -/
theorem visits_front (hs : Tracked t limit roots ⟨h, (f, depth) :: rest, scanned⟩)
    (hTree : Confined root t roots) (hVisit : h.skips f depth = false) :
    Visits t roots limit f := by
  have hFront : (f, depth) ∈ (⟨h, (f, depth) :: rest, scanned⟩ : Stage).entries :=
    List.mem_append_right _ List.mem_cons_self
  obtain ⟨n, hn⟩ := Int.eq_ofNat_of_zero_le (hs.explored.nonneg _ hFront)
  simp only at hn
  subst hn
  have hLimit := hs.explored.depth_le hFront
  have hWaits : ∀ e ∈ (f, (n : Int)) :: rest, (n : Int) ≤ e.2 := by
    intro e he
    rcases List.mem_cons.1 he with rfl | he
    · exact le_refl _
    · exact (List.pairwise_cons.1 hs.explored.level.sorted).1 e he
  -- A smaller mark would have the function passed over.
  have hMark : ∀ m : Nat, m < n → ¬ h.functions.Within f.key m := by
    rintro m hm ⟨mark, hMark, hDepth⟩
    have hMark : h.functions.markOf? f = some mark := hMark
    simp only [skips, hMark, decide_eq_false_iff_not] at hVisit
    omega
  refine ⟨n, ⟨hs.explored.reached hFront rfl, ?_⟩, hLimit, ?_⟩
  · intro m hReached
    by_contra hLess
    apply hMark m (by omega)
    apply hs.explored.within_of_reached hTree hReached (by omega)
    intro e he
    have := hWaits e he
    omega
  · intro g m hDistance hLess hInner
    obtain ⟨e, he, hDepth, hBody⟩ := hs.explored.exists_scanned_of_reached hTree hDistance.1
      (by omega) fun e he => by
        have := hWaits e he
        omega
    have hIn : f ∈ e.1.innerFunctions :=
      List.mem_filter.2 ⟨hBody (List.mem_filter.1 hInner).1, (List.mem_filter.1 hInner).2⟩
    exact hMark m hLess ((hs.inner_marked e he f hIn).mono hDepth)

/-- When nothing waits any more, all functions that are to be scanned on their own have been. -/
theorem mem_scanned_of_visits (hs : Tracked t limit roots ⟨h, [], scanned⟩)
    (hTree : Confined root t roots) (hVisits : Visits t roots limit f) :
    ∃ e ∈ scanned, e.1 = f := by
  obtain ⟨n, hDistance, hLimit, hOuter⟩ := hVisits
  have hf := hDistance.1.mem_preorder hTree.targets hTree.roots
  have hSame : ∀ e ∈ (⟨h, [], scanned⟩ : Stage).entries, e.1.key = f.key →
      ∃ e ∈ scanned, e.1 = f := by
    intro e he hKey
    refine ⟨e, by simpa [Stage.entries] using he, ?_⟩
    exact hTree.keys.eq_of_key_eq (hs.explored.mem_preorder hTree he) hf hKey
  have hReached := hDistance.1
  cases hReached with
  | root hr =>
      obtain ⟨e, he, hKey⟩ := hs.root_entered _ hr
      exact hSame e he hKey
  | @call n' g _ hg hCall =>
      obtain ⟨e, he, hDepth, hBody⟩ :=
        hs.explored.exists_scanned_of_reached hTree hg (by omega) (by simp)
      obtain ⟨c, hc, hResolved⟩ := hCall
      obtain ⟨call, hMem, rfl⟩ := exists_mem_callsIn_iff.2 ⟨c, hBody hc, hResolved⟩
      rcases hs.call_entered e he (by omega) call hMem with ⟨e', he', hKey⟩ | ⟨m, hm, hLess⟩
      · exact hSame e' he' hKey
      · obtain ⟨hKey, hEntry | ⟨outer, hOuterMem, hInner, hDepth'⟩⟩ :=
          hs.explored.reason _ m hm
        · exact hSame _ hEntry hKey
        · -- The mark comes from a body at a smaller distance, inside which the function lies.
          have hEntry := List.mem_append_left [] hOuterMem
          obtain ⟨k, hk⟩ := Int.eq_ofNat_of_zero_le (hs.explored.nonneg outer hEntry)
          obtain ⟨d, hd, hNear⟩ := (hs.explored.reached hEntry hk).exists_distance
          rw [hs.explored.node_eq hTree hf hm] at hInner
          exact (hOuter outer.1 d hNear (by omega) hInner).elim

end Tracked

end HotPath.Heat
