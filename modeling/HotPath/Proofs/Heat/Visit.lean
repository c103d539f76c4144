import HotPath.Heat.Propagate
import HotPath.Proofs.Marks
import HotPath.Proofs.Resolve

/-! One visit. What a visit does when no fault stops it is a function of the state: it marks the
body of the function, enters its calls into the graph, and queues the functions that were not
marked before. -/

namespace HotPath

/-- Enter a root into the graph. -/
def CallGraph.enter (g : CallGraph) (r : Root) : CallGraph :=
  (g.addVertex (.function r.function.key) ⟨r.label, some r.function.line⟩).addRoot r.function.key

/-- Enter a call into the graph. -/
def CallGraph.record (caller : Key) (g : CallGraph) (call : Heat.LocalCall) : CallGraph :=
  let callee := call.target.key
  (if g.vertices.contains (.function callee) then g
    else g.addVertex (.function callee) ⟨call.name, some call.target.line⟩).addCall
    caller callee call.call.line

theorem Cursor.isFunction_eq_false_of_isCall {c : Cursor} (h : c.isCall = true) :
    c.isFunction = false := by
  have hKind : c.kind = callKind := by simpa [Cursor.isCall] using h
  unfold Cursor.isFunction
  rw [hKind]
  decide

namespace Heat

/-- The local function that a node of a hot body invokes. A call that cannot be resolved invokes
none. -/
def callAt (t : ScopeTable) (c : Cursor) : Option LocalCall :=
  if c.isCall then (localCall t c).toOption.getD none else none

theorem callAt_eq_some_iff {t : ScopeTable} {c : Cursor} {call : LocalCall} :
    callAt t c = some call ↔ c.isCall = true ∧ ∃ b f,
      t.resolveCallee c = .ok (some b) ∧ b.target? = some f ∧ call = ⟨c, b.name, f⟩ := by
  unfold callAt
  split
  · next hCall =>
      rw [getD_toOption_eq_some_iff]
      constructor
      · intro hRead
        obtain ⟨b, hResolve, hRead⟩ := exists_of_bind_eq_ok hRead
        cases b with
        | none => cases hRead
        | some b =>
            obtain ⟨f, hf, rfl⟩ := Option.map_eq_some_iff.1 (Except.ok.inj hRead)
            exact ⟨hCall, b, f, hResolve, hf, rfl⟩
      · rintro ⟨-, b, f, hResolve, hf, rfl⟩
        unfold localCall
        rw [hResolve]
        simp [hf, bind, Except.bind, pure, Except.pure]
  · next hCall => simp [hCall]

/-- The calls of local functions in the body of a function. -/
def callsIn (t : ScopeTable) (f : Cursor) : List LocalCall := f.bodyNodes.filterMap (callAt t)

/-- Mark a node of a hot body; a function is marked as such too. -/
def markNode (depth : Int) (region : Key) (h : Heat) (c : Cursor) : Heat :=
  { h with
    nodes := h.nodes.mark c depth region
    functions := if c.isFunction then h.functions.mark c depth region else h.functions }

theorem state_inspect (t : ScopeTable) (depth : Int) (region : Key) (c : Cursor) (h : Heat) :
    ((inspect t depth region c).run h).state = h.markNode depth region c := by
  unfold inspect markNode
  rw [Task.state_update_bind]
  by_cases hFunction : c.isFunction = true
  · simp [hFunction]
  · by_cases hCall : c.isCall = true
    · simp [hFunction, hCall]
    · simp [hFunction, hCall]

/-- A fault that is absorbed counts as a call of nothing local. -/
theorem result_inspect {t : ScopeTable} {depth : Int} {region : Key} {c : Cursor} {h : Heat}
    {found : Option LocalCall} (hOk : ((inspect t depth region c).run h).result = .ok found) :
    found = callAt t c := by
  unfold inspect at hOk
  unfold callAt
  rw [Task.result_update_bind] at hOk
  by_cases hCall : c.isCall = true
  · have hFunction := Cursor.isFunction_eq_false_of_isCall hCall
    simp only [hFunction, hCall, Bool.false_eq_true, if_false, if_true] at hOk ⊢
    exact Task.eq_of_absorb_read_ok hOk
  · by_cases hFunction : c.isFunction = true
    · simpa [hFunction, hCall, eq_comm] using hOk
    · simpa [hFunction, hCall, eq_comm] using hOk

/-- Whether a node can be inspected: a call whose resolution fails must fail in a way that is
absorbed. -/
def Resolvable (t : ScopeTable) (c : Cursor) : Prop :=
  c.isCall = true → FailsOnly (fun fault => fault.absorbed = true) (localCall t c)

theorem resolvable_of_inspect_ok {t : ScopeTable} {depth : Int} {region : Key} {c : Cursor}
    {h : Heat} {found : Option LocalCall}
    (hOk : ((inspect t depth region c).run h).result = .ok found) : Resolvable t c := by
  intro hCall fault hFault
  unfold inspect at hOk
  have hFunction := Cursor.isFunction_eq_false_of_isCall hCall
  rw [Task.result_update_bind] at hOk
  simp only [hFunction, hCall, Bool.false_eq_true, if_false, if_true] at hOk
  exact Task.absorb_read_ok_iff.1 ⟨found, hOk⟩ fault hFault

theorem Resolvable.inspect {t : ScopeTable} {c : Cursor} (h : Resolvable t c) (depth : Int)
    (region : Key) : (Heat.inspect t depth region c).Keeps (fun _ => False) Anywhere := by
  refine Task.Keeps.bind (Task.Keeps.update fun _ => trivial) fun _ => ?_
  split
  · exact Task.Keeps.bind (Task.Keeps.update fun _ => trivial)
      fun _ => Task.Keeps.pure none
  · split
    · next hCall =>
        exact Task.Keeps.absorb_read (h hCall) none _
    · exact Task.Keeps.pure none

theorem markNode_foldl (depth : Int) (region : Key) (cs : List Cursor) (h : Heat) :
    cs.foldl (markNode depth region) h =
      ⟨h.graph, h.functions.markAll (cs.filter (·.isFunction)) depth region,
        h.nodes.markAll cs depth region⟩ := by
  induction cs generalizing h with
  | nil => rfl
  | cons c rest ih =>
      rw [List.foldl_cons, ih]
      by_cases hFunction : c.isFunction = true
      · simp [markNode, MarkTable.markAll, hFunction]
      · simp [markNode, MarkTable.markAll, hFunction]

theorem collect_inspect {t : ScopeTable} {depth : Int} {region : Key} {cs : List Cursor} {h : Heat}
    {found : List (Option LocalCall)}
    (hOk : ((Task.collect (inspect t depth region) cs).run h).result = .ok found) :
    found = cs.map (callAt t) ∧
      ((Task.collect (inspect t depth region) cs).run h).state =
        cs.foldl (markNode depth region) h := by
  induction cs generalizing h found with
  | nil =>
      cases hOk
      exact ⟨rfl, rfl⟩
  | cons c rest ih =>
      obtain ⟨call, hCall, hOk, hState⟩ := Task.exists_of_bind_ok hOk
      obtain ⟨calls, hCalls, hOk, hState'⟩ := Task.exists_of_bind_ok hOk
      obtain ⟨rfl, hRest⟩ := ih hCalls
      cases hOk
      refine ⟨?_, ?_⟩
      · rw [result_inspect hCall, List.map_cons]
      · rw [Task.collect, hState, hState']
        simp only [Task.run_pure]
        rw [hRest, state_inspect, List.foldl_cons]

/-- A scan marks the body, whatever it holds, and returns the local calls in it. -/
theorem scan_ok {t : ScopeTable} {f : Cursor} {depth : Int} {h : Heat} {calls : List LocalCall}
    (hOk : ((scan t f depth).run h).result = .ok calls) :
    calls = callsIn t f ∧ ((scan t f depth).run h).state =
      ⟨h.graph, h.functions.markAll (f.bodyNodes.filter (·.isFunction)) depth f.key,
        h.nodes.markAll f.bodyNodes depth f.key⟩ := by
  obtain ⟨found, hBody, hOk, hState⟩ := Task.exists_of_bind_ok hOk
  have hRead : f.body = .ok found := by
    rw [← hBody]
    exact (Task.result_ofExcept f.body h).symm
  have hStay : ((liftM f.body : Task Heat (Option Cursor)).run h).state = h :=
    Task.state_ofExcept f.body h
  rw [scan, hState]
  rw [hStay] at hOk ⊢
  unfold callsIn Cursor.bodyNodes
  rw [hRead]
  cases found with
  | none =>
      cases hOk
      exact ⟨rfl, rfl⟩
  | some body =>
      obtain ⟨nodes, hNodes, hOk, hState⟩ := Task.exists_of_bind_ok hOk
      obtain ⟨rfl, hMarked⟩ := collect_inspect hNodes
      cases hOk
      refine ⟨?_, ?_⟩
      · rw [List.filterMap_map]
        rfl
      · rw [hState, Task.run_pure, hMarked, markNode_foldl]

/-- Whether the body of a function can be scanned without a fault that ends the analysis. -/
structure Scannable (t : ScopeTable) (f : Cursor) : Prop where
  body : ∃ body, f.body = .ok body
  nodes : ∀ c ∈ f.bodyNodes, Resolvable t c

theorem scannable_of_scan_ok {t : ScopeTable} {f : Cursor} {depth : Int} {h : Heat}
    {calls : List LocalCall} (hOk : ((scan t f depth).run h).result = .ok calls) :
    Scannable t f := by
  obtain ⟨found, hBody, hOk, -⟩ := Task.exists_of_bind_ok hOk
  have hRead : f.body = .ok found := by
    rw [← hBody]
    exact (Task.result_ofExcept f.body h).symm
  refine ⟨⟨found, hRead⟩, ?_⟩
  intro c hc
  obtain ⟨body, hSome, hc⟩ := Cursor.mem_bodyNodes_iff.1 hc
  rw [hRead] at hSome
  cases hSome
  obtain ⟨nodes, hNodes, -, -⟩ := Task.exists_of_bind_ok hOk
  obtain ⟨s, call, hCall⟩ := Task.exists_ok_of_collect_ok hNodes hc
  exact resolvable_of_inspect_ok hCall

theorem Scannable.scan {t : ScopeTable} {f : Cursor} (h : Scannable t f) (depth : Int) :
    (Heat.scan t f depth).Keeps (fun _ => False) Anywhere := by
  obtain ⟨found, hFound⟩ := h.body
  refine Task.Keeps.read (hFound ▸ FailsOnly.ok found) fun body hBody => ?_
  cases body with
  | none => exact Task.Keeps.pure []
  | some body =>
      refine Task.Keeps.bind ?_ fun nodes => Task.Keeps.pure _
      refine Task.Keeps.collect fun c hc => ?_
      exact (h.nodes c (Cursor.mem_bodyNodes_iff.2 ⟨body, hBody, hc⟩)).inspect depth f.key

/-- Mark the function that a call invokes, one call deeper, and queue it if that is news. -/
def queueCall (limit depth : Int) (s : MarkTable × Queue) (call : LocalCall) : MarkTable × Queue :=
  if depth + 1 > limit then s
  else (s.1.mark call.target (depth + 1) call.target.key,
    if s.1.improves call.target (depth + 1) then s.2 ++ [(call.target, depth + 1)] else s.2)

theorem queueCall_queue (limit depth : Int) (s : MarkTable × Queue) (call : LocalCall) :
    queueCall limit depth s call =
      ((queueCall limit depth (s.1, []) call).1,
        s.2 ++ (queueCall limit depth (s.1, []) call).2) := by
  unfold queueCall
  split
  · simp
  · split <;> simp

/-- What is queued for later calls does not depend on what has been queued before. -/
theorem queueCall_foldl_queue (limit depth : Int) (calls : List LocalCall)
    (s : MarkTable × Queue) :
    calls.foldl (queueCall limit depth) s =
      ((calls.foldl (queueCall limit depth) (s.1, [])).1,
        s.2 ++ (calls.foldl (queueCall limit depth) (s.1, [])).2) := by
  induction calls generalizing s with
  | nil => simp
  | cons call rest ih =>
      rw [List.foldl_cons, List.foldl_cons, ih (queueCall limit depth s call),
        ih (queueCall limit depth (s.1, []) call), queueCall_queue limit depth s call]
      simp

theorem run_follow (limit : Int) (caller : Key) (depth : Int) (call : LocalCall) (h : Heat) :
    ((follow limit caller depth call).run h).result =
        .ok (queueCall limit depth (h.functions, []) call).2 ∧
      ((follow limit caller depth call).run h).state =
        ⟨h.graph.record caller call, (queueCall limit depth (h.functions, []) call).1,
          h.nodes⟩ := by
  unfold follow queueCall
  rw [Task.result_update_bind, Task.state_update_bind]
  by_cases hDeep : depth + 1 > limit
  · simp only [hDeep, if_true]
    exact ⟨rfl, rfl⟩
  · simp only [hDeep, if_false]
    rw [Task.result_state_bind, Task.state_state_bind, Task.result_update_bind,
      Task.state_update_bind]
    have hSame : (recordCall caller call h).functions = h.functions := rfl
    rw [hSame]
    split
    · exact ⟨rfl, rfl⟩
    · exact ⟨rfl, rfl⟩

theorem collect_follow {limit : Int} {caller : Key} {depth : Int} {calls : List LocalCall}
    {h : Heat} {queued : List Queue}
    (hOk : ((Task.collect (follow limit caller depth) calls).run h).result = .ok queued) :
    queued.flatten = (calls.foldl (queueCall limit depth) (h.functions, [])).2 ∧
      ((Task.collect (follow limit caller depth) calls).run h).state =
        ⟨calls.foldl (CallGraph.record caller) h.graph,
          (calls.foldl (queueCall limit depth) (h.functions, [])).1, h.nodes⟩ := by
  induction calls generalizing h queued with
  | nil =>
      cases hOk
      exact ⟨rfl, rfl⟩
  | cons call rest ih =>
      obtain ⟨first, hFirst, hOk, hState⟩ := Task.exists_of_bind_ok hOk
      obtain ⟨later, hLater, hOk, hState'⟩ := Task.exists_of_bind_ok hOk
      obtain ⟨hQueue, hRest⟩ := ih hLater
      obtain ⟨hResult, hAfter⟩ := run_follow limit caller depth call h
      rw [hFirst] at hResult
      cases hResult
      cases hOk
      rw [hAfter] at hQueue hRest
      refine ⟨?_, ?_⟩
      · rw [List.flatten_cons, hQueue, List.foldl_cons,
          queueCall_foldl_queue limit depth rest (queueCall limit depth _ call)]
      · rw [Task.collect, hState, hState', Task.run_pure, hAfter, hRest, List.foldl_cons,
          List.foldl_cons, queueCall_foldl_queue limit depth rest (queueCall limit depth _ call)]

/-- A function from the queue is passed over if a shorter path has reached it meanwhile. -/
def skips (h : Heat) (f : Cursor) (depth : Int) : Bool :=
  match h.functions.markOf? f with
  | none => true
  | some mark => mark.depth < depth

/-- The functions that are marked and those that are queued by a visit. -/
def reached (t : ScopeTable) (limit : Int) (h : Heat) (f : Cursor) (depth : Int) :
    MarkTable × Queue :=
  (callsIn t f).foldl (queueCall limit depth)
    (h.functions.markAll (f.bodyNodes.filter (·.isFunction)) depth f.key, [])

/-- What is known after a function from the queue has been scanned and its calls followed. -/
def visited (t : ScopeTable) (limit : Int) (h : Heat) (f : Cursor) (depth : Int) : Heat :=
  ⟨(callsIn t f).foldl (CallGraph.record f.key) h.graph, (reached t limit h f depth).1,
    h.nodes.markAll f.bodyNodes depth f.key⟩

theorem keeps_follow (limit : Int) (caller : Key) (depth : Int) (call : LocalCall) :
    (follow limit caller depth call).Keeps (fun _ => False) Anywhere := by
  refine ⟨?_, fun _ => trivial⟩
  intro h
  rw [(run_follow limit caller depth call h).1]
  exact FailsOnly.ok _

/-- A visit passes a function over or does all that is to be done for it. -/
theorem visit_ok {t : ScopeTable} {limit : Int} {f : Cursor} {depth : Int} {h : Heat}
    {queued : Queue} (hOk : ((visit t limit f depth).run h).result = .ok queued) :
    (h.skips f depth = true ∧ queued = [] ∧ ((visit t limit f depth).run h).state = h) ∨
      (h.skips f depth = false ∧ Scannable t f ∧ queued = (reached t limit h f depth).2 ∧
        ((visit t limit f depth).run h).state = visited t limit h f depth) := by
  unfold visit at hOk ⊢
  unfold skips
  rw [Task.result_state_bind] at hOk
  rw [Task.state_state_bind]
  cases hMark : h.functions.markOf? f with
  | none =>
      rw [hMark] at hOk
      cases hOk
      exact .inl ⟨rfl, rfl, rfl⟩
  | some mark =>
      rw [hMark] at hOk
      simp only at hOk ⊢
      by_cases hLess : mark.depth < depth
      · rw [if_pos hLess] at hOk ⊢
        cases hOk
        exact .inl ⟨by simpa using hLess, rfl, rfl⟩
      · rw [if_neg hLess] at hOk ⊢
        obtain ⟨calls, hCalls, hOk, hState⟩ := Task.exists_of_bind_ok hOk
        have hScannable := scannable_of_scan_ok hCalls
        obtain ⟨rfl, hScan⟩ := scan_ok hCalls
        obtain ⟨queues, hQueues, hOk, hState'⟩ := Task.exists_of_bind_ok hOk
        cases hOk
        obtain ⟨hQueue, hFollow⟩ := collect_follow hQueues
        rw [hScan] at hQueue hFollow hState'
        refine .inr ⟨by simpa using hLess, hScannable, hQueue, ?_⟩
        rw [hState, hScan, hState', Task.run_pure, hFollow]
        rfl

/-- No fault stops a visit that passes the function over or can scan it. -/
theorem exists_visit_ok (t : ScopeTable) (limit : Int) {f : Cursor} {depth : Int} {h : Heat}
    (hVisit : h.skips f depth = true ∨ Scannable t f) :
    ∃ queued, ((visit t limit f depth).run h).result = .ok queued := by
  unfold visit
  rw [Task.result_state_bind]
  unfold skips at hVisit
  cases hMark : h.functions.markOf? f with
  | none => exact ⟨[], rfl⟩
  | some mark =>
      rw [hMark] at hVisit
      simp only at hVisit ⊢
      by_cases hLess : mark.depth < depth
      · rw [if_pos hLess]
        exact ⟨[], rfl⟩
      · rw [if_neg hLess]
        have hScan : Scannable t f := by simpa [hLess] using hVisit
        refine (Task.Keeps.bind (hScan.scan depth) fun calls => ?_).exists_ok h
        exact Task.Keeps.bind
          (Task.Keeps.collect fun call _ => keeps_follow limit f.key depth call)
          fun queues => Task.Keeps.pure _

theorem run_visit_of_skips (t : ScopeTable) (limit : Int) {f : Cursor} {depth : Int} {h : Heat}
    (hSkip : h.skips f depth = true) :
    ((visit t limit f depth).run h).result = .ok [] ∧
      ((visit t limit f depth).run h).state = h := by
  obtain ⟨queued, hOk⟩ := exists_visit_ok t limit (.inl hSkip)
  rcases visit_ok hOk with ⟨-, rfl, hState⟩ | ⟨hVisit, -⟩
  · exact ⟨hOk, hState⟩
  · rw [hSkip] at hVisit
    cases hVisit

theorem run_visit_of_scannable {t : ScopeTable} (limit : Int) {f : Cursor} {depth : Int}
    {h : Heat} (hVisit : h.skips f depth = false) (hScan : Scannable t f) :
    ((visit t limit f depth).run h).result = .ok (reached t limit h f depth).2 ∧
      ((visit t limit f depth).run h).state = visited t limit h f depth := by
  obtain ⟨queued, hOk⟩ := exists_visit_ok t limit (.inr hScan)
  rcases visit_ok hOk with ⟨hSkip, -⟩ | ⟨-, -, rfl, hState⟩
  · rw [hVisit] at hSkip
    cases hSkip
  · exact ⟨hOk, hState⟩

end Heat

end HotPath
