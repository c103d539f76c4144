import HotPath.Proofs.Heat.Visit
import Mathlib.Logic.Relation

/-! Working through the queue. The depths in the queue never fall and differ by one at most, and
no mark lies deeper than one call below any function that waits. So a function is queued only if it
was not marked at all, which bounds the number of visits by the number of functions that can be
queued. -/

namespace HotPath.Heat

variable {t : ScopeTable} {limit depth : Int}

/-- No mark of a table is deeper than the functions that calls at a depth invoke. -/
def Shallow (depth : Int) (table : MarkTable) : Prop :=
  ∀ k m, table.get? k = some m → m.depth ≤ depth + 1

/-- In a table without deeper marks a call adds nothing, or a mark where none was and one function
to the queue. -/
theorem queueCall_cases (limit : Int) {table : MarkTable} (hShallow : Shallow depth table)
    (call : LocalCall) :
    (queueCall limit depth (table, []) call = (table, []) ∧
        (depth + 1 ≤ limit → table.Within call.target.key (depth + 1))) ∨
      (depth + 1 ≤ limit ∧ table.get? call.target.key = none ∧
        queueCall limit depth (table, []) call =
          (table.insert call.target.key ⟨call.target, depth + 1, call.target.key⟩,
            [(call.target, depth + 1)])) := by
  unfold queueCall
  by_cases hDeep : depth + 1 > limit
  · exact .inl ⟨if_pos hDeep, fun hLe => by omega⟩
  · rw [if_neg hDeep]
    cases hOld : table.get? call.target.key with
    | none =>
        have hImproves : table.improves call.target (depth + 1) = true := by
          simp [MarkTable.improves, hOld]
        refine .inr ⟨by omega, rfl, ?_⟩
        simp [MarkTable.mark, hImproves]
    | some m =>
        have hImproves : table.improves call.target (depth + 1) = false := by
          have := hShallow _ m hOld
          simp only [MarkTable.improves, hOld, decide_eq_false_iff_not]
          omega
        refine .inl ⟨?_, fun _ => ⟨m, hOld, hShallow _ m hOld⟩⟩
        simp [MarkTable.mark, hImproves]

theorem Shallow.insert {table : MarkTable} (h : Shallow depth table) (k : Key) (m : Mark)
    (hm : m.depth ≤ depth + 1) : Shallow depth (table.insert k m) := by
  intro k' m' hk'
  rw [OrderedMap.get?_insert] at hk'
  split at hk'
  · cases hk'
    exact hm
  · exact h k' m' hk'

/-- What following calls at a depth does to the table of functions and to the queue. -/
structure Queued (limit depth : Int) (calls : List LocalCall) (before after : MarkTable)
    (queue : Queue) : Prop where
  depth_eq : ∀ e ∈ queue, e.2 = depth + 1
  limited : ∀ e ∈ queue, e.2 ≤ limit
  fresh : ∀ e ∈ queue, before.get? e.1.key = none
  called : ∀ e ∈ queue, ∃ call ∈ calls, call.target = e.1
  kept : ∀ k m, before.get? k = some m → after.get? k = some m
  marked : ∀ e ∈ queue, after.get? e.1.key = some ⟨e.1, depth + 1, e.1.key⟩
  source : ∀ k m, after.get? k = some m → before.get? k = some m ∨
    ∃ e ∈ queue, m = ⟨e.1, depth + 1, e.1.key⟩ ∧ e.1.key = k
  complete : depth + 1 ≤ limit → ∀ call ∈ calls, after.Within call.target.key (depth + 1)

theorem Queued.cons {call : LocalCall} {rest : List LocalCall} {before after : MarkTable}
    {queue : Queue} (hLe : depth + 1 ≤ limit) (hNone : before.get? call.target.key = none)
    (h : Queued limit depth rest
      (before.insert call.target.key ⟨call.target, depth + 1, call.target.key⟩) after queue) :
    Queued limit depth (call :: rest) before after ([(call.target, depth + 1)] ++ queue) := by
  have hFresh : ∀ e ∈ queue, before.get? e.1.key = none := by
    intro e he
    have hAbsent := h.fresh e he
    rw [OrderedMap.get?_insert] at hAbsent
    split at hAbsent
    · cases hAbsent
    · exact hAbsent
  have hSelf := h.kept call.target.key _ (OrderedMap.get?_insert_self before _ _)
  constructor
  · rintro e (_ | ⟨_, he⟩)
    · rfl
    · exact h.depth_eq e he
  · rintro e (_ | ⟨_, he⟩)
    · exact hLe
    · exact h.limited e he
  · rintro e (_ | ⟨_, he⟩)
    · exact hNone
    · exact hFresh e he
  · rintro e (_ | ⟨_, he⟩)
    · exact ⟨call, List.mem_cons_self, rfl⟩
    · obtain ⟨later, hLater, hTarget⟩ := h.called e he
      exact ⟨later, List.mem_cons_of_mem call hLater, hTarget⟩
  · intro k m hm
    apply h.kept
    rw [OrderedMap.get?_insert_of_ne before _ _]
    · exact hm
    · rintro rfl
      rw [hNone] at hm
      cases hm
  · rintro e (_ | ⟨_, he⟩)
    · exact hSelf
    · exact h.marked e he
  · intro k m hm
    rcases h.source k m hm with hOld | ⟨e, he, hMark⟩
    · rw [OrderedMap.get?_insert] at hOld
      split at hOld
      · next hk =>
          cases hOld
          exact .inr ⟨_, List.mem_cons_self, rfl, hk.symm⟩
      · exact .inl hOld
    · exact .inr ⟨e, List.mem_cons_of_mem _ he, hMark⟩
  · intro _ later hLater
    rcases List.mem_cons.1 hLater with rfl | hLater
    · exact ⟨_, hSelf, Int.le_refl _⟩
    · exact h.complete hLe later hLater

theorem queued_foldl {table : MarkTable} (hShallow : Shallow depth table)
    (calls : List LocalCall) :
    Queued limit depth calls table (calls.foldl (queueCall limit depth) (table, [])).1
      (calls.foldl (queueCall limit depth) (table, [])).2 := by
  induction calls generalizing table with
  | nil =>
      exact ⟨by simp, by simp, by simp, by simp, fun _ _ h => h, by simp, fun _ _ h => .inl h,
        by simp⟩
  | cons call rest ih =>
      rw [List.foldl_cons]
      rcases queueCall_cases limit hShallow call with ⟨hStep, hThere⟩ | ⟨hLe, hNone, hStep⟩
      · rw [hStep]
        have hRest := ih hShallow
        refine { hRest with called := ?_, complete := ?_ }
        · intro e he
          obtain ⟨later, hLater, hTarget⟩ := hRest.called e he
          exact ⟨later, List.mem_cons_of_mem call hLater, hTarget⟩
        · intro hLe later hLater
          rcases List.mem_cons.1 hLater with rfl | hLater
          · obtain ⟨m, hm, hDepth⟩ := hThere hLe
            exact ⟨m, hRest.kept _ m hm, hDepth⟩
          · exact hRest.complete hLe later hLater
      · rw [hStep, queueCall_foldl_queue]
        exact (ih (hShallow.insert _ _ (Int.le_refl _))).cons hLe hNone

/-- The number of functions with a name that have no mark yet. -/
def vacant (t : ScopeTable) (table : MarkTable) : Nat :=
  (t.bindings.filterMap (·.target?)).countP fun f => (table.get? f.key).isNone

theorem vacant_le_of_kept {before after : MarkTable}
    (h : ∀ k m, before.get? k = some m → ∃ m', after.get? k = some m') :
    vacant t after ≤ vacant t before := by
  apply List.countP_mono_left
  intro f _ hNone
  cases hBefore : before.get? f.key with
  | none => rfl
  | some m =>
      obtain ⟨m', hAfter⟩ := h _ m hBefore
      simp [hAfter] at hNone

/-- A first mark on a function with a name leaves fewer without one. -/
theorem vacant_insert_lt {table : MarkTable} {b : Binding} {f : Cursor} (hb : b ∈ t.bindings)
    (hf : b.target? = some f) (hNone : table.get? f.key = none) (m : Mark) :
    vacant t (table.insert f.key m) < vacant t table := by
  have hMem : f ∈ t.bindings.filterMap (·.target?) := List.mem_filterMap.2 ⟨b, hb, hf⟩
  unfold vacant
  obtain ⟨before, after, hSplit⟩ := List.append_of_mem hMem
  have hPart : ∀ l : List Cursor,
      l.countP (fun f' => ((table.insert f.key m).get? f'.key).isNone) ≤
        l.countP fun f' => (table.get? f'.key).isNone := by
    intro l
    apply List.countP_mono_left
    intro f' _ hNone'
    rw [OrderedMap.get?_insert] at hNone'
    split at hNone'
    · cases hNone'
    · exact hNone'
  rw [hSplit, List.countP_append, List.countP_append, List.countP_cons, List.countP_cons]
  have hBefore := hPart before
  have hAfter := hPart after
  simp only [OrderedMap.get?_insert_self, hNone, Option.isNone_some, Option.isNone_none,
    Bool.false_eq_true, if_false, if_true]
  omega

/-- Every function that calls put into the queue had no mark before and has one afterwards. -/
theorem length_add_vacant_le {table : MarkTable} (hShallow : Shallow depth table)
    {calls : List LocalCall}
    (hCalls : ∀ call ∈ calls, ∃ b ∈ t.bindings, b.target? = some call.target) :
    (calls.foldl (queueCall limit depth) (table, [])).2.length +
        vacant t (calls.foldl (queueCall limit depth) (table, [])).1 ≤ vacant t table := by
  induction calls generalizing table with
  | nil => simp
  | cons call rest ih =>
      have hRest : ∀ later ∈ rest, ∃ b ∈ t.bindings, b.target? = some later.target :=
        fun later hLater => hCalls later (List.mem_cons_of_mem call hLater)
      rw [List.foldl_cons]
      rcases queueCall_cases limit hShallow call with ⟨hStep, -⟩ | ⟨-, hNone, hStep⟩
      · rw [hStep]
        exact ih hShallow hRest
      · obtain ⟨b, hb, hTarget⟩ := hCalls call List.mem_cons_self
        have hFewer := vacant_insert_lt hb hTarget hNone
          ⟨call.target, depth + 1, call.target.key⟩
        have hLater := ih (hShallow.insert call.target.key
          ⟨call.target, depth + 1, call.target.key⟩ (Int.le_refl _)) hRest
        rw [hStep, queueCall_foldl_queue]
        simp only [List.length_append, List.length_singleton]
        omega

theorem exists_binding_of_mem_callsIn {f : Cursor} {call : LocalCall} (h : call ∈ callsIn t f) :
    ∃ b ∈ t.bindings, b.target? = some call.target := by
  obtain ⟨c, -, hc⟩ := List.mem_filterMap.1 h
  obtain ⟨-, b, g, hResolve, hTarget, rfl⟩ := callAt_eq_some_iff.1 hc
  exact ⟨b, ScopeTable.resolveCallee_mem hResolve, hTarget⟩

/-- The queue is in order of depth, its depths differ by one at most, and no mark is deeper than
one call below a function that waits. -/
structure Level (h : Heat) (queue : Queue) : Prop where
  sorted : queue.Pairwise fun a b => a.2 ≤ b.2
  close : ∀ a ∈ queue, ∀ b ∈ queue, b.2 ≤ a.2 + 1
  shallow : ∀ e ∈ queue, Shallow e.2 h.functions

theorem Level.tail {h : Heat} {e : Cursor × Int} {rest : Queue} (hLevel : Level h (e :: rest)) :
    Level h rest :=
  ⟨hLevel.sorted.of_cons,
    fun a ha b hb => hLevel.close a (List.mem_cons_of_mem e ha) b (List.mem_cons_of_mem e hb),
    fun a ha => hLevel.shallow a (List.mem_cons_of_mem e ha)⟩

/-- The functions marked by a scan are marked at its own depth. -/
theorem Level.shallow_scan {h : Heat} {f : Cursor} {rest : Queue}
    (hLevel : Level h ((f, depth) :: rest)) (cs : List Cursor) :
    Shallow depth (h.functions.markAll cs depth f.key) := by
  intro k m hm
  rcases MarkTable.get?_markAll hm with hOld | ⟨⟨c, -, -, rfl⟩, -⟩
  · exact hLevel.shallow _ List.mem_cons_self k m hOld
  · exact Int.le_add_one (Int.le_refl depth)

theorem queued_reached (t : ScopeTable) (limit : Int) {h : Heat} {f : Cursor} {rest : Queue}
    (hLevel : Level h ((f, depth) :: rest)) :
    Queued limit depth (callsIn t f)
      (h.functions.markAll (f.bodyNodes.filter (·.isFunction)) depth f.key)
      (reached t limit h f depth).1 (reached t limit h f depth).2 :=
  queued_foldl (hLevel.shallow_scan _) (callsIn t f)

/-- A visit uses up as many functions without a mark as it queues. -/
theorem length_add_vacant_reached (t : ScopeTable) (limit : Int) {h : Heat} {f : Cursor}
    {rest : Queue} (hLevel : Level h ((f, depth) :: rest)) :
    (reached t limit h f depth).2.length + vacant t (reached t limit h f depth).1 ≤
      vacant t h.functions := by
  refine Nat.le_trans (length_add_vacant_le (hLevel.shallow_scan _)
    fun call => exists_binding_of_mem_callsIn) ?_
  apply vacant_le_of_kept
  intro k m hm
  obtain ⟨m', hm', -⟩ := MarkTable.Within.markAll ⟨m, hm, Int.le_refl _⟩
    (f.bodyNodes.filter (·.isFunction)) depth f.key
  exact ⟨m', hm'⟩

theorem Level.visited {h : Heat} {f : Cursor} {rest : Queue}
    (hLevel : Level h ((f, depth) :: rest)) :
    Level (visited t limit h f depth) (rest ++ (reached t limit h f depth).2) := by
  have hQueued := queued_reached t limit hLevel
  have hHead : ∀ e ∈ rest, depth ≤ e.2 := (List.pairwise_cons.1 hLevel.sorted).1
  have hRest : ∀ e ∈ rest, e.2 ≤ depth + 1 := fun e he =>
    hLevel.close _ List.mem_cons_self e (List.mem_cons_of_mem _ he)
  have hAll : ∀ e ∈ rest ++ (reached t limit h f depth).2, depth ≤ e.2 ∧ e.2 ≤ depth + 1 := by
    intro e he
    rcases List.mem_append.1 he with he | he
    · exact ⟨hHead e he, hRest e he⟩
    · have := hQueued.depth_eq e he
      omega
  constructor
  · rw [List.pairwise_append]
    refine ⟨hLevel.tail.sorted, ?_, ?_⟩
    · apply List.pairwise_of_forall_mem_list
      intro a ha b hb
      rw [hQueued.depth_eq a ha, hQueued.depth_eq b hb]
    · intro a ha b hb
      have := hRest a ha
      have := hQueued.depth_eq b hb
      omega
  · intro a ha b hb
    have := hAll a ha
    have := hAll b hb
    omega
  · intro e he k m hm
    have hDepth := (hAll e he).1
    rcases hQueued.source k m hm with hOld | ⟨e', -, rfl, -⟩
    · have := hLevel.shallow_scan _ k m hOld
      omega
    · simp only
      omega

/-- A moment of the work: what is known, which functions wait, and which ones have been scanned. -/
structure Stage where
  heat : Heat
  queue : Queue
  scanned : Queue

/-- The function at the front of the queue is passed over, or it is scanned and what its calls
queue goes to the back. -/
inductive Stage.Step (t : ScopeTable) (limit : Int) : Stage → Stage → Prop
  | skip {h : Heat} {f : Cursor} {depth : Int} {rest scanned : Queue}
      (hSkip : h.skips f depth = true) :
      Step t limit ⟨h, (f, depth) :: rest, scanned⟩ ⟨h, rest, scanned⟩
  | visit {h : Heat} {f : Cursor} {depth : Int} {rest scanned : Queue}
      (hVisit : h.skips f depth = false) (hScan : Scannable t f) :
      Step t limit ⟨h, (f, depth) :: rest, scanned⟩
        ⟨Heat.visited t limit h f depth, rest ++ (reached t limit h f depth).2,
          scanned ++ [(f, depth)]⟩

/-- Any number of steps. -/
abbrev Stage.Runs (t : ScopeTable) (limit : Int) : Stage → Stage → Prop :=
  Relation.ReflTransGen (Stage.Step t limit)

/-- What every step keeps is kept by a run. -/
theorem Stage.Runs.keeps {P : Stage → Prop} (hStep : ∀ {s s'}, Step t limit s s' → P s → P s')
    {s s' : Stage} (run : Runs t limit s s') (h : P s) : P s' := by
  induction run with
  | refl => exact h
  | tail _ last ih => exact hStep last ih

/-- Nothing happens once the queue is empty. -/
theorem Stage.Runs.eq_of_queue_nil {h : Heat} {scanned : Queue} {s : Stage}
    (run : Runs t limit ⟨h, [], scanned⟩ s) : s = ⟨h, [], scanned⟩ := by
  rcases Relation.ReflTransGen.cases_head run with rfl | ⟨next, step, -⟩
  · rfl
  · cases step

/-- The visits that remain after a scan cover what waits then. -/
theorem length_add_vacant_visited {visits : Nat} {h : Heat} {f : Cursor} {rest : Queue}
    (hLevel : Level h ((f, depth) :: rest))
    (hVisits : ((f, depth) :: rest).length + vacant t h.functions ≤ visits + 1) :
    (rest ++ (reached t limit h f depth).2).length +
      vacant t (visited t limit h f depth).functions ≤ visits := by
  have hFewer := length_add_vacant_reached t limit hLevel
  change (rest ++ (reached t limit h f depth).2).length +
    vacant t (reached t limit h f depth).1 ≤ visits
  rw [List.length_cons] at hVisits
  rw [List.length_append]
  omega

/-- The given number of visits is enough if it covers the queue and the functions that can still be
queued: when they are done without a fault, nothing waits. -/
theorem exists_runs_of_drain_ok {visits : Nat} {queue : Queue} {h : Heat} (hLevel : Level h queue)
    (hVisits : queue.length + vacant t h.functions ≤ visits)
    (hOk : ((drain t limit visits queue).run h).result = .ok ()) (scanned : Queue) :
    ∃ all, Stage.Runs t limit ⟨h, queue, scanned⟩
      ⟨((drain t limit visits queue).run h).state, [], all⟩ := by
  induction visits generalizing queue h scanned with
  | zero =>
      obtain rfl : queue = [] := List.eq_nil_of_length_eq_zero (by omega)
      exact ⟨scanned, .refl⟩
  | succ visits ih =>
      cases queue with
      | nil => exact ⟨scanned, .refl⟩
      | cons e rest =>
          obtain ⟨f, depth⟩ := e
          obtain ⟨queued, hQueued, hOk, hState⟩ := Task.exists_of_bind_ok hOk
          rw [drain, hState]
          rcases visit_ok hQueued with ⟨hSkip, rfl, hSame⟩ | ⟨hVisit, hScan, rfl, hNext⟩
          · rw [hSame, List.append_nil] at hOk ⊢
            rw [List.length_cons] at hVisits
            obtain ⟨all, run⟩ := ih hLevel.tail (by omega) hOk scanned
            exact ⟨all, .head (.skip hSkip) run⟩
          · rw [hNext] at hOk ⊢
            obtain ⟨all, run⟩ := ih hLevel.visited (length_add_vacant_visited hLevel hVisits) hOk
              (scanned ++ [(f, depth)])
            exact ⟨all, .head (.visit hVisit hScan) run⟩

/-- A run to its end is what working through the queue does. -/
theorem drain_of_runs {visits : Nat} {queue scanned all : Queue} {h last : Heat}
    (hLevel : Level h queue) (hVisits : queue.length + vacant t h.functions ≤ visits)
    (run : Stage.Runs t limit ⟨h, queue, scanned⟩ ⟨last, [], all⟩) :
    ((drain t limit visits queue).run h).result = .ok () ∧
      ((drain t limit visits queue).run h).state = last := by
  induction visits generalizing queue h scanned with
  | zero =>
      obtain rfl : queue = [] := List.eq_nil_of_length_eq_zero (by omega)
      cases run.eq_of_queue_nil
      exact ⟨rfl, rfl⟩
  | succ visits ih =>
      rcases Relation.ReflTransGen.cases_head run with hEnd | ⟨next, step, run⟩
      · cases hEnd
        exact ⟨rfl, rfl⟩
      · cases step with
        | @skip _ f depth rest _ hSkip =>
            obtain ⟨hOk, hState⟩ := run_visit_of_skips t limit hSkip
            rw [List.length_cons] at hVisits
            rw [drain, Task.run_bind_of_ok hOk, hState, List.append_nil]
            exact ih hLevel.tail (by omega) run
        | @visit _ f depth rest _ hVisit hScan =>
            obtain ⟨hOk, hState⟩ := run_visit_of_scannable limit hVisit hScan
            rw [drain, Task.run_bind_of_ok hOk, hState]
            exact ih hLevel.visited (length_add_vacant_visited hLevel hVisits) run

/-- Only targets of calls are queued. -/
theorem exists_call_of_mem_foldl {calls : List LocalCall} {s : MarkTable × Queue}
    {e : Cursor × Int} (he : e ∈ (calls.foldl (queueCall limit depth) s).2) :
    e ∈ s.2 ∨ ∃ call ∈ calls, call.target = e.1 := by
  induction calls generalizing s with
  | nil => exact .inl he
  | cons call rest ih =>
      rcases ih he with hOld | ⟨later, hLater, hTarget⟩
      · unfold queueCall at hOld
        split at hOld
        · exact .inl hOld
        · split at hOld
          · rcases List.mem_append.1 hOld with hOld | hNew
            · exact .inl hOld
            · exact .inr ⟨call, List.mem_cons_self, by rw [List.mem_singleton.1 hNew]⟩
          · exact .inl hOld
      · exact .inr ⟨later, List.mem_cons_of_mem call hLater, hTarget⟩

/-- Working through the queue succeeds if every function that can come into it can be scanned. -/
theorem drain_ok_of_scannable {Q : Cursor → Prop} (hScan : ∀ f, Q f → Scannable t f)
    (hCalls : ∀ f, Q f → ∀ call ∈ callsIn t f, Q call.target) (limit : Int) (visits : Nat)
    {queue : Queue} (h : Heat) (hQueue : ∀ e ∈ queue, Q e.1) :
    ((drain t limit visits queue).run h).result = .ok () := by
  induction visits generalizing queue h with
  | zero => rfl
  | succ visits ih =>
      cases queue with
      | nil => rfl
      | cons e rest =>
          obtain ⟨f, depth⟩ := e
          obtain ⟨hf, hRest⟩ := List.forall_mem_cons.1 hQueue
          obtain ⟨queued, hOk⟩ := exists_visit_ok t limit (.inr (hScan f hf))
          rw [drain, Task.run_bind_of_ok hOk]
          refine ih _ fun e he => ?_
          rcases List.mem_append.1 he with he | he
          · exact hRest e he
          · rcases visit_ok hOk with ⟨-, rfl, -⟩ | ⟨-, -, rfl, -⟩
            · cases he
            · rcases exists_call_of_mem_foldl he with he | ⟨call, hCall, hTarget⟩
              · cases he
              · exact hTarget ▸ hCalls f hf call hCall

end HotPath.Heat
