import HotPath.Proofs.Reachability
import HotPath.Rule.Listener

/-! State that is set too often. Two analyses of one tree are put together: calls that set state in
loops count unless a condition guards them, calls that set state in fast events count in any case,
and what the first analysis has reported the second one leaves out. So every such call is reported
once. -/

namespace HotPath

namespace Cursor

/-- The ancestors of a node of a whole tree are nodes of the tree. -/
theorem mem_preorder_of_mem_above {tree : Node} {c a : Cursor} (hc : c ∈ (root tree).preorder)
    (ha : a ∈ c.above) : a ∈ (root tree).preorder := by
  revert ha
  refine preorder_induction (P := fun c => a ∈ c.above → a ∈ (root tree).preorder)
    (fun ha => ?_) (fun c hc ih d hd ha => ?_) hc
  · have hNone : (root tree).above = [] := by
      unfold above
      cases (root tree).info.tellsParent <;> rfl
    rw [hNone] at ha
    cases ha
  · obtain ⟨n, -, rfl⟩ := List.mem_map.1 hd
    unfold above at ha
    cases hTells : n.info.tellsParent with
    | false =>
        simp only [info, hTells] at ha
        cases ha
    | true =>
        simp only [info, hTells, above.go, List.mem_cons] at ha
        rcases ha with rfl | ha
        · exact hc
        · exact ih ha

namespace ReadsFailOnly

variable {P : Fault → Prop} {root c : Cursor}

theorem guards (h : root.ReadsFailOnly P) (hc : c ∈ root.preorder) (child : Cursor) :
    FailsOnly P (c.guards child) := by
  unfold Cursor.guards
  split
  · refine (h.field hc "condition").bind fun found _ => ?_
    cases found with
    | none => exact FailsOnly.ok true
    | some condition => exact FailsOnly.ok _
  · split
    · refine (h.fieldText hc "operator").bind fun operator _ => ?_
      refine (h.field hc "right").bind fun found _ => ?_
      cases found with
      | none => exact FailsOnly.ok false
      | some right => exact FailsOnly.ok _
    · exact FailsOnly.ok false

theorem guardedUnder (h : root.ReadsFailOnly P) {nodes : List Cursor}
    (hNodes : ∀ a ∈ nodes, a ∈ root.preorder) (child : Cursor) :
    FailsOnly P (child.guardedUnder nodes) := by
  induction nodes generalizing child with
  | nil => exact FailsOnly.ok false
  | cons a above ih =>
      obtain ⟨ha, hAbove⟩ := List.forall_mem_cons.1 hNodes
      unfold Cursor.guardedUnder
      split
      · exact FailsOnly.ok false
      · refine (h.guards ha child).bind fun guarded _ => ?_
        split
        · exact FailsOnly.ok true
        · exact ih hAbove a

theorem setterName (h : root.ReadsFailOnly P) (hc : c ∈ root.preorder) (o : RuleOptions)
    (t : ScopeTable) : FailsOnly P (o.setterName t c) := by
  unfold RuleOptions.setterName
  split
  · exact FailsOnly.ok none
  · refine (h.field hc "function").bind fun found hFound => ?_
    cases found with
    | none => exact FailsOnly.ok none
    | some callee =>
        have hCallee := mem_preorder_of_field hc hFound
        simp only
        split
        · exact FailsOnly.ok none
        · refine (h.text hCallee).bind fun name _ => ?_
          refine (h.resolveIdentifier hCallee t).bind fun binding _ => ?_
          cases binding with
          | some b => exact FailsOnly.ok _
          | none =>
              simp only
              split
              · exact FailsOnly.ok _
              · exact FailsOnly.ok none

end ReadsFailOnly

/-- In a whole tree without faults it can be told whether a node is guarded. -/
theorem FaultFree.isGuarded {tree : Node} {c : Cursor} (h : (root tree).FaultFree)
    (hc : c ∈ (root tree).preorder) : ∃ guarded, c.isGuarded = .ok guarded :=
  ((h.reads _).guardedUnder (fun _ ha => mem_preorder_of_mem_above hc ha) c).exists_ok

end Cursor

/-- What is sought on hot nodes has been found: once at each hot node on which the predicate finds
something, at the least depth at which the node is hot, and nowhere else. -/
structure Hazard.Collected (root : Cursor) (t : ScopeTable) (roots : List Root) (limit : Int)
    (predicate : Cursor → Except Fault (Option (HazardKind × String))) (hazards : List Hazard) :
    Prop where
  once : (hazards.map (·.node.key)).Nodup
  mem_iff : ∀ c ∈ root.preorder, c.key ∈ hazards.map (·.node.key) ↔
    (∃ found, predicate c = .ok (some found)) ∧ ∃ n, Heat.Hot t roots limit c n
  found : ∀ hz ∈ hazards, hz.node ∈ root.preorder ∧
    predicate hz.node = .ok (some (hz.kind, hz.operation)) ∧
    ∃ n : Nat, hz.depth = n ∧ IsLeast {n | Heat.Hot t roots limit hz.node n} n

theorem Heat.Settled.collected {root : Cursor} {t : ScopeTable} {limit : Int} {roots : List Root}
    {h : Heat} {scanned : Queue} (hs : Settled t limit roots h scanned)
    (hTree : Confined root t roots) (hLimit : 0 ≤ limit)
    {predicate : Cursor → Except Fault (Option (HazardKind × String))} {hazards : List Hazard}
    (hCollect : ((Hazard.collect h predicate).run ()).result = .ok hazards) :
    Hazard.Collected root t roots limit predicate hazards := by
  have hOrdered := hs.pairwise_ofMark predicate
  rw [← Hazard.eq_of_collect_ok hCollect] at hOrdered
  have hFound : ∀ hz ∈ hazards, hz.node ∈ root.preorder ∧
      predicate hz.node = .ok (some (hz.kind, hz.operation)) ∧
      ∃ n : Nat, hz.depth = n ∧ IsLeast {n | Hot t roots limit hz.node n} n := by
    intro hz hMem
    rw [Hazard.eq_of_collect_ok hCollect] at hMem
    obtain ⟨mark, hMark, found, hFound, rfl⟩ := Hazard.mem_filterMap_ofMark.1 hMem
    have hMark := hs.mem_inOrder_iff.1 hMark
    have hc := (hs.inside hTree hMark).1
    exact ⟨hc, hFound, hs.isLeast_hot hTree hLimit hc hMark⟩
  refine ⟨List.pairwise_map.2 (hOrdered.imp Cursor.Before.key_ne), ?_, hFound⟩
  intro c hc
  rw [List.mem_map]
  constructor
  · rintro ⟨hz, hMem, hKey⟩
    obtain ⟨hNode, hPredicate, n, -, hHot, -⟩ := hFound hz hMem
    rw [hTree.keys.eq_of_key_eq hNode hc hKey] at hPredicate hHot
    exact ⟨⟨_, hPredicate⟩, n, hHot⟩
  · rintro ⟨⟨found, hPredicate⟩, hHot⟩
    obtain ⟨mark, hMark⟩ := (hs.exists_markOf?_iff hTree hLimit hc).2 hHot
    obtain rfl := hs.node_eq_of_markOf? hTree hc hMark
    have hMem := (Hazard.mem_filterMap_ofMark (h := h)).2
      ⟨mark, hs.mem_inOrder_iff.2 hMark, found, hPredicate, rfl⟩
    rw [← Hazard.eq_of_collect_ok hCollect] at hMem
    exact ⟨_, hMem, rfl⟩

/-- Seeking something on the hot nodes of a tree without faults succeeds where nothing stops the
predicate. -/
theorem Engine.exists_collected (e : Engine) {root : Cursor} (hFree : root.FaultFree)
    (hKeys : root.DistinctKeys) (hLimit : 0 ≤ e.maxCallDepth)
    {predicate : ScopeTable → Cursor → Except Fault (Option (HazardKind × String))}
    (hReads : ∀ t, ∀ c ∈ root.preorder, FailsOnly (fun _ => False) (predicate t c)) :
    ∃ a hazards, Propagated e root a ∧
      ((Hazard.collect a.heat (predicate a.scopes)).run ()).result = .ok hazards ∧
      Hazard.Collected root a.scopes a.roots e.maxCallDepth (predicate a.scopes) hazards := by
  obtain ⟨a, hStages, hTree⟩ := exists_propagated e hFree hKeys
  obtain ⟨scanned, run⟩ := Heat.exists_runs_of_propagate_ok hStages.heat
  have hs := run.settled
  obtain ⟨hazards, hCollect⟩ := Hazard.collect_ok_iff.2 fun mark hMark fault hFault =>
    (hReads a.scopes _ (hs.inside hTree (hs.mem_inOrder_iff.1 hMark)).1 fault hFault).elim
  exact ⟨a, hazards, hStages, hCollect, hs.collected hTree hLimit hCollect⟩

namespace RuleOptions

variable {o : RuleOptions} {t : ScopeTable} {c : Cursor}

/-- The analysis that looks for loops. -/
def loopEngine (o : RuleOptions) : Engine :=
  { detectors := [.frameLoop o.frameLoopApis.texts, .timerLoop o.timerApis.texts]
    maxCallDepth := o.maxCallDepth }

/-- The analysis that looks for fast events. -/
def eventEngine (o : RuleOptions) : Engine :=
  { detectors := [.fastEvent o.fastEvents.texts], maxCallDepth := o.maxCallDepth }

/-- A call sets state in a loop, and no condition guards it. -/
structure SetsInLoop (o : RuleOptions) (t : ScopeTable) (loops : List Root) (c : Cursor) :
    Prop where
  setter : ∃ name, o.setterName t c = .ok (some name)
  hot : ∃ n, Heat.Hot t loops o.maxCallDepth c n
  unguarded : c.isGuarded = .ok false

/-- A call sets state in a fast event. -/
structure SetsInEvent (o : RuleOptions) (t : ScopeTable) (events : List Root) (c : Cursor) :
    Prop where
  setter : ∃ name, o.setterName t c = .ok (some name)
  hot : ∃ n, Heat.Hot t events o.maxCallDepth c n

theorem stateSet_eq_some_iff {found : HazardKind × String} :
    Listener.stateSet o t c = .ok (some found) ↔
      found.1 = .state ∧ o.setterName t c = .ok (some found.2) := by
  obtain ⟨kind, name⟩ := found
  unfold Listener.stateSet
  cases o.setterName t c with
  | error fault => simp [bind, Except.bind]
  | ok setter => cases setter <;> simp [bind, Except.bind, pure, Except.pure, eq_comm]

theorem unconditionalSet_eq_some_iff {guarded : Bool} (hGuarded : c.isGuarded = .ok guarded)
    {found : HazardKind × String} :
    Listener.unconditionalSet o t c = .ok (some found) ↔
      Listener.stateSet o t c = .ok (some found) ∧ c.isGuarded = .ok false := by
  unfold Listener.unconditionalSet
  rw [hGuarded]
  cases Listener.stateSet o t c with
  | error fault => simp [bind, Except.bind]
  | ok setter =>
      cases setter with
      | none => simp [bind, Except.bind, pure, Except.pure]
      | some first => cases guarded <;> simp [bind, Except.bind, pure, Except.pure]

end RuleOptions

/-- What the rule on fast state reports: each call that sets state in a loop without a guard, once,
and each other call that sets state in a fast event, once. -/
structure Listener.FastStateExact (o : RuleOptions) (root : Cursor) (t : ScopeTable)
    (loops events : List Root) (inLoops inEvents : List Hazard) : Prop where
  loop_once : ∀ c ∈ root.preorder,
    (inLoops.map (·.node.key)).count c.key = 1 ↔ o.SetsInLoop t loops c
  loop_never : ∀ c ∈ root.preorder,
    (inLoops.map (·.node.key)).count c.key = 0 ↔ ¬ o.SetsInLoop t loops c
  event_once : ∀ c ∈ root.preorder,
    (inEvents.map (·.node.key)).count c.key = 1 ↔
      o.SetsInEvent t events c ∧ ¬ o.SetsInLoop t loops c
  event_never : ∀ c ∈ root.preorder,
    (inEvents.map (·.node.key)).count c.key = 0 ↔
      ¬ (o.SetsInEvent t events c ∧ ¬ o.SetsInLoop t loops c)
  once : ∀ c ∈ root.preorder,
    ((inLoops ++ inEvents).map (·.node.key)).count c.key = 1 ↔
      o.SetsInLoop t loops c ∨ o.SetsInEvent t events c
  setter : ∀ hz ∈ inLoops ++ inEvents,
    hz.node ∈ root.preorder ∧ o.setterName t hz.node = .ok (some hz.operation)

/-- In lists without repetition an element is counted once if and only if it is there. -/
theorem count_iff_of_nodup {keys : List Key} (hOnce : keys.Nodup) {k : Key} {p : Prop}
    (hMem : k ∈ keys ↔ p) : (keys.count k = 1 ↔ p) ∧ (keys.count k = 0 ↔ ¬ p) := by
  rw [← hMem, List.count_eq_zero]
  exact ⟨⟨fun hCount => List.count_pos_iff.1 (by omega), List.count_eq_one_of_mem hOnce⟩, Iff.rfl⟩

namespace Listener

variable {o : RuleOptions} {root : Cursor} {t : ScopeTable} {loops events : List Root}
  {inLoops inEvents : List Hazard}

/-- Hazards at nodes that have not been reported. -/
def unreported (reported hazards : List Hazard) : List Hazard :=
  hazards.filter fun hz => !(reported.map (·.node.key)).contains hz.node.key

theorem mem_keys_unreported {reported hazards : List Hazard} {k : Key} :
    k ∈ (unreported reported hazards).map (·.node.key) ↔
      k ∈ hazards.map (·.node.key) ∧ k ∉ reported.map (·.node.key) := by
  unfold unreported
  rw [List.mem_map, List.mem_map]
  constructor
  · rintro ⟨hz, hMem, rfl⟩
    obtain ⟨hMem, hNew⟩ := List.mem_filter.1 hMem
    exact ⟨⟨hz, hMem, rfl⟩, by simpa using hNew⟩
  · rintro ⟨⟨hz, hMem, rfl⟩, hNew⟩
    exact ⟨hz, List.mem_filter.2 ⟨hMem, by simpa using hNew⟩, rfl⟩

theorem nodup_unreported {hazards : List Hazard} (hOnce : (hazards.map (·.node.key)).Nodup)
    (reported : List Hazard) : ((unreported reported hazards).map (·.node.key)).Nodup :=
  hOnce.sublist (List.filter_sublist.map _)

theorem exists_stateSet_iff {c : Cursor} :
    (∃ found, stateSet o t c = .ok (some found)) ↔ ∃ name, o.setterName t c = .ok (some name) := by
  simp only [RuleOptions.stateSet_eq_some_iff]
  constructor
  · rintro ⟨found, -, hName⟩
    exact ⟨found.2, hName⟩
  · rintro ⟨name, hName⟩
    exact ⟨(.state, name), rfl, hName⟩

theorem mem_keys_iff_setsInLoop
    (hLoops : Hazard.Collected root t loops o.maxCallDepth (unconditionalSet o t) inLoops)
    {c : Cursor} (hc : c ∈ root.preorder) {guarded : Bool} (hGuarded : c.isGuarded = .ok guarded) :
    c.key ∈ inLoops.map (·.node.key) ↔ o.SetsInLoop t loops c := by
  simp only [hLoops.mem_iff c hc, RuleOptions.unconditionalSet_eq_some_iff hGuarded,
    exists_and_right, exists_stateSet_iff]
  constructor
  · rintro ⟨⟨hName, hFree⟩, hHot⟩
    exact ⟨hName, hHot, hFree⟩
  · rintro ⟨hName, hHot, hFree⟩
    exact ⟨⟨hName, hFree⟩, hHot⟩

theorem mem_keys_iff_setsInEvent
    (hEvents : Hazard.Collected root t events o.maxCallDepth (stateSet o t) inEvents)
    {c : Cursor} (hc : c ∈ root.preorder) :
    c.key ∈ inEvents.map (·.node.key) ↔ o.SetsInEvent t events c := by
  rw [hEvents.mem_iff c hc, exists_stateSet_iff]
  constructor
  · rintro ⟨hName, hHot⟩
    exact ⟨hName, hHot⟩
  · rintro ⟨hName, hHot⟩
    exact ⟨hName, hHot⟩

theorem fastStateExact_of_mem_iff (hLoopsOnce : (inLoops.map (·.node.key)).Nodup)
    (hEventsOnce : (inEvents.map (·.node.key)).Nodup)
    (hInLoops : ∀ c ∈ root.preorder,
      c.key ∈ inLoops.map (·.node.key) ↔ o.SetsInLoop t loops c)
    (hInEvents : ∀ c ∈ root.preorder, c.key ∈ inEvents.map (·.node.key) ↔
      o.SetsInEvent t events c ∧ ¬ o.SetsInLoop t loops c)
    (hSetter : ∀ hz ∈ inLoops ++ inEvents,
      hz.node ∈ root.preorder ∧ o.setterName t hz.node = .ok (some hz.operation)) :
    FastStateExact o root t loops events inLoops inEvents := by
  have hLoopCount := fun c hc => count_iff_of_nodup hLoopsOnce (hInLoops c hc)
  have hEventCount := fun c hc => count_iff_of_nodup hEventsOnce (hInEvents c hc)
  refine ⟨fun c hc => (hLoopCount c hc).1, fun c hc => (hLoopCount c hc).2,
    fun c hc => (hEventCount c hc).1, fun c hc => (hEventCount c hc).2, fun c hc => ?_, hSetter⟩
  obtain ⟨hLoopOnce, hLoopNever⟩ := hLoopCount c hc
  obtain ⟨hEventOnce, hEventNever⟩ := hEventCount c hc
  rw [List.map_append, List.count_append]
  by_cases hLoop : o.SetsInLoop t loops c
  · rw [hLoopOnce.2 hLoop, hEventNever.2 fun hEvent => hEvent.2 hLoop]
    simp [hLoop]
  · rw [hLoopNever.2 hLoop, Nat.zero_add, hEventOnce]
    simp [hLoop]

theorem fastStateExact_of_collected
    (hLoops : Hazard.Collected root t loops o.maxCallDepth (unconditionalSet o t) inLoops)
    (hEvents : Hazard.Collected root t events o.maxCallDepth (stateSet o t) inEvents)
    (hGuards : ∀ c ∈ root.preorder, ∃ guarded, c.isGuarded = .ok guarded) :
    FastStateExact o root t loops events inLoops (unreported inLoops inEvents) := by
  have hInLoops : ∀ c ∈ root.preorder,
      c.key ∈ inLoops.map (·.node.key) ↔ o.SetsInLoop t loops c := by
    intro c hc
    obtain ⟨guarded, hGuarded⟩ := hGuards c hc
    exact mem_keys_iff_setsInLoop hLoops hc hGuarded
  refine fastStateExact_of_mem_iff hLoops.once (nodup_unreported hEvents.once inLoops) hInLoops
    (fun c hc => ?_) fun hz hMem => ?_
  · rw [mem_keys_unreported, mem_keys_iff_setsInEvent hEvents hc, hInLoops c hc]
  · rcases List.mem_append.1 hMem with hLoop | hEvent
    · obtain ⟨hc, hFound, -⟩ := hLoops.found hz hLoop
      obtain ⟨guarded, hGuarded⟩ := hGuards hz.node hc
      have hSet := ((RuleOptions.unconditionalSet_eq_some_iff hGuarded).1 hFound).1
      exact ⟨hc, (RuleOptions.stateSet_eq_some_iff.1 hSet).2⟩
    · obtain ⟨hc, hFound, -⟩ := hEvents.found hz (List.mem_filter.1 hEvent).1
      exact ⟨hc, (RuleOptions.stateSet_eq_some_iff.1 hFound).2⟩

/-- The rule adds the hazards in loops to what was reported, then the other ones in fast events. -/
theorem yields_fastState {a b : Analysis} (ctx : ReportContext)
    (hLoop : ((o.loopEngine.propagate root).run ()).result = .ok a)
    (hInLoops : ((Hazard.collect a.heat (unconditionalSet o a.scopes)).run ()).result =
      .ok inLoops)
    (hEvent : ((o.eventEngine.propagate root).run ()).result = .ok b)
    (hInEvents : ((Hazard.collect b.heat (stateSet o b.scopes)).run ()).result = .ok inEvents)
    (before : List Diagnostic) :
    Task.Yields (fastState o ctx root) before () (before ++
      inLoops.map ((Rule.noFastState.reporter "noUnconditionalSet"
        "a frame or interval callback").diagnostic ctx) ++
      (unreported inLoops inEvents).map
        ((Rule.noFastState.reporter "noFastEventSet"
          "a fast pointer event handler").diagnostic ctx)) := by
  have hFirst : ((do
      let found ← o.loopEngine.propagate root
      Hazard.collect found.heat (unconditionalSet o found.scopes) :
        Task Unit (List Hazard)).run ()).result = .ok inLoops := by
    rw [Task.result_bind_of_ok hLoop]
    exact hInLoops
  have hSecond : ((do
      let found ← o.eventEngine.propagate root
      Hazard.collect found.heat (stateSet o found.scopes) :
        Task Unit (List Hazard)).run ()).result = .ok inEvents := by
    rw [Task.result_bind_of_ok hEvent]
    exact hInEvents
  refine Task.Yields.bind ⟨Task.result_withState_of_ok hFirst before, rfl⟩ ?_
  refine Task.Yields.bind (Task.Yields.update _ _) ?_
  refine Task.Yields.bind ⟨Task.result_withState_of_ok hSecond _, rfl⟩ ?_
  exact Task.Yields.update _ _

end Listener

/-- On a whole tree without faults the rule on fast state succeeds. What it adds to the reports is
exact: calls that set state in loops without a guard, then the other ones that set state in fast
events, each under its own message. -/
theorem Rule.listen_fastState (o : RuleOptions) (ctx : ReportContext) (tree : Node)
    (before : List Diagnostic) (hFree : (Cursor.root tree).FaultFree)
    (hKeys : (Cursor.root tree).DistinctKeys) (hLimit : 0 ≤ o.maxCallDepth) :
    ∃ t loops events inLoops inEvents,
      ((ScopeTable.build (.root tree)).run ScopeTable.empty).state = t ∧
      ((Root.detectAll t [.frameLoop o.frameLoopApis.texts, .timerLoop o.timerApis.texts]
        (.root tree)).run ()).result = .ok loops ∧
      ((Root.detectAll t [.fastEvent o.fastEvents.texts] (.root tree)).run ()).result = .ok events ∧
      Listener.FastStateExact o (.root tree) t loops events inLoops inEvents ∧
      ((noFastState.listen o ctx (.root tree)).run before).result = .ok () ∧
      ((noFastState.listen o ctx (.root tree)).run before).state = before ++
        inLoops.map ((noFastState.reporter "noUnconditionalSet"
          "a frame or interval callback").diagnostic ctx) ++
        inEvents.map ((noFastState.reporter "noFastEventSet"
          "a fast pointer event handler").diagnostic ctx) := by
  have hGuards : ∀ c ∈ (Cursor.root tree).preorder, ∃ guarded, c.isGuarded = .ok guarded :=
    fun c hc => hFree.isGuarded hc
  have hStateSet : ∀ t, ∀ c ∈ (Cursor.root tree).preorder,
      FailsOnly (fun _ => False) (Listener.stateSet o t c) := fun t c hc =>
    (hFree.setterName hc o t).bind fun _ _ => FailsOnly.ok _
  have hUnconditional : ∀ t, ∀ c ∈ (Cursor.root tree).preorder,
      FailsOnly (fun _ => False) (Listener.unconditionalSet o t c) := by
    intro t c hc
    obtain ⟨guarded, hGuarded⟩ := hGuards c hc
    refine (hStateSet t c hc).bind fun found _ => ?_
    cases found with
    | none => exact FailsOnly.ok none
    | some found =>
        simp only [hGuarded]
        exact FailsOnly.ok _
  obtain ⟨a, inLoops, hLoop, hInLoops, hLoops⟩ :=
    o.loopEngine.exists_collected hFree hKeys hLimit hUnconditional
  obtain ⟨b, inEvents, hEvent, hInEvents, hEvents⟩ :=
    o.eventEngine.exists_collected hFree hKeys hLimit hStateSet
  -- Both analyses build the scopes of the tree anew, and so they have the same ones.
  have hScopes : b.scopes = a.scopes := hEvent.scopes.trans hLoop.scopes.symm
  have hRoots := hEvent.roots
  rw [hScopes] at hEvents hRoots
  obtain ⟨hResult, hState⟩ :=
    Listener.yields_fastState ctx hLoop.ok hInLoops hEvent.ok hInEvents before
  exact ⟨a.scopes, a.roots, b.roots, inLoops, _, hLoop.scopes.symm, hLoop.roots, hRoots,
    Listener.fastStateExact_of_collected hLoops hEvents hGuards, hResult, hState⟩

open Node in
/-- State that is set in a loop and, under a condition, in a fast event:
`useFrame(() => setA()); onPointerMove={() => on && setB()}`. -/
def Node.fastSetters : Node :=
  inner "program" "" 0 58 [
    inner "call_expression" "" 0 22 [
      word "function" 0 8 (.text "useFrame"),
      inner "arguments" "arguments" 8 22 [
        inner "arrow_function" "" 9 21 [
          inner "call_expression" "body" 15 21 [word "function" 15 19 (.text "setA")]]]],
    inner "jsx_attribute" "" 24 58 [
      word "" 24 37 (.text "onPointerMove"),
      inner "jsx_expression" "" 38 58 [
        inner "arrow_function" "" 39 57 [
          inner "binary_expression" "body" 45 57 [
            word "left" 45 47 (.text "on"),
            word "operator" 48 50 (.text "&&"),
            inner "call_expression" "right" 51 57 [word "function" 51 55 (.text "setB")]]]]]]

theorem Rule.listen_fastState_setters :
    (Cursor.root .fastSetters).FaultFree ∧ (Cursor.root .fastSetters).DistinctKeys ∧
      ∃ t loops events inLoops inEvents, loops.length = 1 ∧ events.length = 1 ∧
        Listener.FastStateExact {} (.root .fastSetters) t loops events inLoops inEvents ∧
        ((noFastState.listen {} ⟨.error, none⟩ (.root .fastSetters)).run []).state =
          inLoops.map ((noFastState.reporter "noUnconditionalSet"
            "a frame or interval callback").diagnostic ⟨.error, none⟩) ++
          inEvents.map ((noFastState.reporter "noFastEventSet"
            "a fast pointer event handler").diagnostic ⟨.error, none⟩) := by
  have hFree : (Cursor.root .fastSetters).FaultFree := by decide +kernel
  have hKeys : (Cursor.root .fastSetters).DistinctKeys := by decide +kernel
  have hRoots : ∀ ds ∈ [[Detector.frameLoop ({} : RuleOptions).frameLoopApis.texts,
      .timerLoop ({} : RuleOptions).timerApis.texts],
      [.fastEvent ({} : RuleOptions).fastEvents.texts]],
      (((Root.detectAll ((ScopeTable.build (.root .fastSetters)).run .empty).state ds
        (.root .fastSetters)).run ()).result.toOption.any (·.length = 1)) = true := by
    decide +kernel
  obtain ⟨t, loops, events, inLoops, inEvents, rfl, hLoops, hEvents, hExact, -, hState⟩ :=
    listen_fastState {} ⟨.error, none⟩ .fastSetters [] hFree hKeys (by decide)
  have hLoop := hRoots _ List.mem_cons_self
  have hEvent := hRoots _ (List.mem_cons_of_mem _ List.mem_cons_self)
  rw [hLoops] at hLoop
  rw [hEvents] at hEvent
  exact ⟨hFree, hKeys, _, loops, events, inLoops, inEvents, of_decide_eq_true hLoop,
    of_decide_eq_true hEvent, hExact, hState⟩

end HotPath
