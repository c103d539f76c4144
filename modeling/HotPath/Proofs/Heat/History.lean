import HotPath.Proofs.Heat.Stopped
import HotPath.Proofs.Scope.Walk
import Mathlib.Data.List.Dedup

/-! The work as a whole. A history keeps everything that was ever put into the queue, and counts the
functions that were taken from it. No key is put into the queue a second time, so the queue runs
empty after at most as many steps as there are keys of functions, whatever the functions call. -/

namespace HotPath.Heat

variable {t : ScopeTable} {limit : Int} {roots : List Root}

/-- The histories of the work: how many functions have been taken from the queue, all that were ever
put into it, and the moment that has been reached. A step takes one function from the front, and
what it adds stands at the back. -/
inductive History (t : ScopeTable) (limit : Int) (roots : List Root) :
    Nat → Queue → Stage → Prop
  | opening : History t limit roots 0 (Stage.opening roots).queue (Stage.opening roots)
  | step {n : Nat} {queued added : Queue} {s s' : Stage}
      (prior : History t limit roots n queued s) (step : Stage.Step t limit s s')
      (hAdded : s'.queue = s.queue.tail ++ added) :
      History t limit roots (n + 1) (queued ++ added) s'

theorem History.runs {n : Nat} {queued : Queue} {s : Stage}
    (hist : History t limit roots n queued s) : Stage.Runs t limit (Stage.opening roots) s := by
  induction hist with
  | opening => exact .refl
  | step prior step hAdded ih => exact .tail ih step

/-- Every run from the entered roots has a history. -/
theorem Stage.Runs.exists_history {s : Stage} (run : Runs t limit (opening roots) s) :
    ∃ n queued, History t limit roots n queued s := by
  induction run with
  | refl => exact ⟨0, _, .opening⟩
  | tail _ last ih =>
      obtain ⟨n, queued, hist⟩ := ih
      cases last with
      | skip hSkip => exact ⟨_, _, .step hist (.skip hSkip) (List.append_nil _).symm⟩
      | visit hVisit hScan => exact ⟨_, _, .step hist (.visit hVisit hScan) rfl⟩

/-- The calls of one function put no key into the queue twice: the first of them marks it. -/
theorem nodup_queueCall_foldl {depth : Int} {table : MarkTable} (hShallow : Shallow depth table)
    (calls : List LocalCall) :
    ((calls.foldl (queueCall limit depth) (table, [])).2.map (·.1.key)).Nodup := by
  induction calls generalizing table with
  | nil => exact List.nodup_nil
  | cons call rest ih =>
      rw [List.foldl_cons]
      rcases queueCall_cases limit hShallow call with ⟨hStep, -⟩ | ⟨-, -, hStep⟩
      · rw [hStep]
        exact ih hShallow
      · have hMarked := hShallow.insert call.target.key
          ⟨call.target, depth + 1, call.target.key⟩ (Int.le_refl _)
        rw [hStep, queueCall_foldl_queue]
        refine List.nodup_cons.2 ⟨?_, ih hMarked⟩
        intro hAgain
        obtain ⟨e, he, hKey⟩ := List.mem_map.1 hAgain
        have hRest : Queued limit depth rest _ _ _ := queued_foldl hMarked rest
        have hFresh := hRest.fresh e he
        simp [hKey] at hFresh

/-- A root whose function waits already is not queued again. -/
theorem nodup_opening (roots : List Root) :
    ((Stage.opening roots).queue.map (·.1.key)).Nodup := by
  induction roots using List.reverseRecOn with
  | nil => exact List.nodup_nil
  | append_singleton rs r ih =>
      have hs := entered_opening rs
      have hQueue : (Stage.opening (rs ++ [r])).queue = (Stage.opening rs).queue ++
          if (Stage.opening rs).heat.functions.improves r.function 0 then [(r.function, 0)]
          else [] := by
        unfold Stage.opening
        rw [List.foldl_append]
        exact congrArg Prod.snd (enterRoot_eq _ _ r)
      rw [hQueue]
      split
      · next hImproves =>
          rw [List.map_append, List.nodup_append']
          refine ⟨ih, List.nodup_singleton _, ?_⟩
          intro k hOld hNew
          obtain ⟨e, he, rfl⟩ := List.mem_map.1 hOld
          obtain ⟨m, hm, hDepth⟩ := hs.marked e he
          rw [List.mem_singleton.1 hNew] at hm
          have := (MarkTable.improves_iff _ _ _).1 hImproves m hm
          omega
      · rw [List.append_nil]
        exact ih

/-- The functions that can come into the queue: those of the roots, and those that a name stands
for. -/
def candidates (t : ScopeTable) (roots : List Root) : List Cursor :=
  roots.map (·.function) ++ t.bindings.filterMap (·.target?)

/-- What a history gives account of: every function that was ever queued has been taken from the
queue or waits, its key was queued once and has a mark, and it is one of those that can be queued.
-/
structure Accounted (t : ScopeTable) (roots : List Root) (n : Nat) (queued : Queue) (s : Stage) :
    Prop where
  taken : ∃ taken, queued = taken ++ s.queue ∧ taken.length = n ∧ s.scanned.Sublist taken
  once : (queued.map (·.1.key)).Nodup
  marked : ∀ e ∈ queued, s.heat.functions.Within e.1.key e.2
  candidate : ∀ e ∈ queued, e.1 ∈ candidates t roots

namespace Accounted

variable {n : Nat} {queued : Queue} {h : Heat} {f : Cursor} {depth : Int} {rest scanned : Queue}

theorem opening (t : ScopeTable) (roots : List Root) :
    Accounted t roots 0 (Stage.opening roots).queue (Stage.opening roots) := by
  have hs := entered_opening roots
  refine ⟨⟨[], rfl, rfl, List.Sublist.refl _⟩, nodup_opening roots, ?_, ?_⟩
  · intro e he
    rw [hs.depth_eq e he]
    exact hs.marked e he
  · intro e he
    obtain ⟨r, hr, hFunction⟩ := hs.root e he
    exact List.mem_append_left _ (List.mem_map.2 ⟨r, hr, hFunction⟩)

theorem skip (hs : Accounted t roots n queued ⟨h, (f, depth) :: rest, scanned⟩) :
    Accounted t roots (n + 1) queued ⟨h, rest, scanned⟩ := by
  obtain ⟨taken, hQueued, hLength, hScanned⟩ := hs.taken
  refine ⟨⟨taken ++ [(f, depth)], ?_, ?_, ?_⟩, hs.once, hs.marked, hs.candidate⟩
  · simpa using hQueued
  · simpa using hLength
  · exact hScanned.trans (List.sublist_append_left _ _)

/-- What a scan queues had no mark before, and so it was never queued. -/
theorem visit (hs : Accounted t roots n queued ⟨h, (f, depth) :: rest, scanned⟩)
    (hLevel : Level h ((f, depth) :: rest)) :
    Accounted t roots (n + 1) (queued ++ (reached t limit h f depth).2)
      ⟨visited t limit h f depth, rest ++ (reached t limit h f depth).2,
        scanned ++ [(f, depth)]⟩ := by
  have hNew := queued_reached t limit hLevel
  constructor
  case taken =>
    obtain ⟨taken, hQueued, hLength, hScanned⟩ := hs.taken
    refine ⟨taken ++ [(f, depth)], ?_, ?_, hScanned.append_right _⟩
    · simp [hQueued]
    · simpa using hLength
  case once =>
    rw [List.map_append, List.nodup_append']
    refine ⟨hs.once, nodup_queueCall_foldl (hLevel.shallow_scan _) (callsIn t f), ?_⟩
    intro k hOld hAgain
    obtain ⟨e, he, rfl⟩ := List.mem_map.1 hOld
    obtain ⟨e', he', hKey⟩ := List.mem_map.1 hAgain
    exact Explored.not_within_of_mem_reached hLevel he' _ (hKey ▸ hs.marked e he)
  case marked =>
    intro e he
    rcases List.mem_append.1 he with hOld | hAdded
    · exact Explored.within_reached hLevel (hs.marked e hOld)
    · exact ⟨_, hNew.marked e hAdded, Int.le_of_eq (hNew.depth_eq e hAdded).symm⟩
  case candidate =>
    intro e he
    rcases List.mem_append.1 he with hOld | hAdded
    · exact hs.candidate e hOld
    · obtain ⟨call, hCall, hTarget⟩ := hNew.called e hAdded
      obtain ⟨b, hb, hFunction⟩ := exists_binding_of_mem_callsIn hCall
      exact List.mem_append_right _ (List.mem_filterMap.2 ⟨b, hb, hTarget ▸ hFunction⟩)

end Accounted

theorem History.accounted {n : Nat} {queued : Queue} {s : Stage}
    (hist : History t limit roots n queued s) : Accounted t roots n queued s := by
  induction hist with
  | opening => exact .opening t roots
  | step prior step hAdded ih =>
      have hLevel := prior.runs.tracked.explored.level
      cases step with
      | skip hSkip =>
          obtain rfl := List.self_eq_append_right.1 hAdded
          rw [List.append_nil]
          exact ih.skip
      | visit hVisit hScan =>
          obtain rfl := List.append_cancel_left hAdded
          exact ih.visit hLevel

/-- Each step takes a key from the queue that no other step takes. -/
theorem Accounted.steps_le {n : Nat} {queued : Queue} {s : Stage}
    (hs : Accounted t roots n queued s) {fs : List Cursor} (hAll : candidates t roots ⊆ fs) :
    n + s.queue.length ≤ (fs.map (·.key)).dedup.length := by
  obtain ⟨taken, rfl, rfl, -⟩ := hs.taken
  have hSubset : (taken ++ s.queue).map (·.1.key) ⊆ (fs.map (·.key)).dedup := by
    intro k hk
    obtain ⟨e, he, rfl⟩ := List.mem_map.1 hk
    exact List.mem_dedup.2 (List.mem_map_of_mem (hAll (hs.candidate e he)))
  simpa using (hs.once.subperm hSubset).length_le

/-- What holds at every moment: the depths in the queue never fall and differ by one at most, no key
was queued twice, and none was scanned twice or without having been queued. -/
structure Orderly (queued : Queue) (s : Stage) : Prop where
  sorted : s.queue.Pairwise fun a b => a.2 ≤ b.2
  close : ∀ a ∈ s.queue, ∀ b ∈ s.queue, b.2 ≤ a.2 + 1
  queued_once : (queued.map (·.1.key)).Nodup
  scanned_once : (s.scanned.map (·.1.key)).Nodup
  scanned_queued : ∀ e ∈ s.scanned, e ∈ queued

theorem History.orderly {n : Nat} {queued : Queue} {s : Stage}
    (hist : History t limit roots n queued s) : Orderly queued s := by
  have hLevel := hist.runs.tracked.explored.level
  obtain ⟨taken, hQueued, -, hScanned⟩ := hist.accounted.taken
  have hSublist : s.scanned.Sublist queued :=
    hScanned.trans (hQueued ▸ List.sublist_append_left taken s.queue)
  exact ⟨hLevel.sorted, hLevel.close, hist.accounted.once,
    hist.accounted.once.sublist (hSublist.map _), fun e he => hSublist.mem he⟩

/-- The moment at which the work ends: nothing waits, or a fault stops the visit of the function at
the front. -/
def Stage.Ends (t : ScopeTable) (limit : Int) (roots : List Root) (s : Stage) : Prop :=
  (s.queue = [] ∧ ((propagate t limit roots).run ()).result = .ok s.heat) ∨
    ∃ f depth rest fault, s.queue = (f, depth) :: rest ∧
      ((visit t limit f depth).run s.heat).result = .error fault ∧
      ((propagate t limit roots).run ()).result = .error fault

theorem exists_history_ends (t : ScopeTable) (limit : Int) (roots : List Root) :
    ∃ n queued s, History t limit roots n queued s ∧ s.Ends t limit roots := by
  cases hResult : ((propagate t limit roots).run ()).result with
  | ok h =>
      obtain ⟨scanned, run⟩ := exists_runs_of_propagate_ok hResult
      obtain ⟨n, queued, hist⟩ := run.exists_history
      exact ⟨n, queued, _, hist, .inl ⟨rfl, hResult⟩⟩
  | error fault =>
      obtain ⟨last, f, depth, rest, scanned, run, hVisit⟩ := exists_runs_of_propagate_error hResult
      obtain ⟨n, queued, hist⟩ := run.exists_history
      exact ⟨n, queued, _, hist, .inr ⟨f, depth, rest, fault, rfl, hVisit, hResult⟩⟩

/-- Whatever the tree, the roots, the limit and the calls, the work is orderly at every moment, no
moment lies more steps from the beginning than the roots and the tree have keys of functions, and
spreading heat comes to the end of its work. -/
theorem propagate_once (root : Cursor) (roots : List Root) (limit : Int) :
    let t := ((ScopeTable.build root).run ScopeTable.empty).state
    (∀ n queued s, History t limit roots n queued s → Orderly queued s ∧
      n + s.queue.length ≤ ((roots.map (·.function) ++ root.functions).map (·.key)).dedup.length) ∧
    ∃ n queued s, History t limit roots n queued s ∧ s.Ends t limit roots := by
  intro t
  refine ⟨fun n queued s hist => ⟨hist.orderly, hist.accounted.steps_le ?_⟩,
    exists_history_ends t limit roots⟩
  intro f hf
  rcases List.mem_append.1 hf with hRoot | hNamed
  · exact List.mem_append_left _ hRoot
  · obtain ⟨b, hb, hTarget⟩ := List.mem_filterMap.1 hNamed
    exact List.mem_append_right _ (ScopeTable.target_mem_functions hb hTarget)

/-- Every function of the sample twice as a root, although one calls the other: two functions are
taken from the queue. -/
theorem propagate_once_sample :
    let root := Cursor.sample (.text "helper")
    let roots := (root.functions ++ root.functions).map (⟨·, "useFrame", root, .frame⟩)
    let t := ((ScopeTable.build root).run ScopeTable.empty).state
    roots.length = 4 ∧ (Stage.opening roots).queue.length = 2 ∧
      ∃ n queued s, History t 3 roots n queued s ∧ s.Ends t 3 roots ∧ Orderly queued s ∧
        n + s.queue.length ≤ 2 := by
  intro root roots t
  obtain ⟨hAll, n, queued, s, hist, hEnds⟩ := propagate_once root roots 3
  obtain ⟨hOrderly, hSteps⟩ := hAll n queued s hist
  have hKeys : ((roots.map (·.function) ++ root.functions).map (·.key)).dedup.length = 2 := by
    decide +kernel
  exact ⟨by decide +kernel, by decide +kernel, n, queued, s, hist, hEnds, hOrderly,
    hKeys ▸ hSteps⟩

end HotPath.Heat
