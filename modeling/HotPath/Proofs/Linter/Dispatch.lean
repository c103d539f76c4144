import HotPath.Linter.Basic
import HotPath.Proofs.Analysis
import HotPath.Proofs.Subtree

/-! Showing a tree to the rules. On a tree whose only program is its root, linting is one round over
the rules: each is shown the root and reports what it would report alone, until a fault stops the
round. -/

namespace HotPath

/-- The root of a tree is its only program. -/
def Cursor.SoleProgram (root : Cursor) : Prop :=
  root.kind = "program" ∧ ∀ d ∈ root.children, ∀ n ∈ d.preorder, n.kind ≠ "program"

instance (root : Cursor) : Decidable root.SoleProgram :=
  inferInstanceAs (Decidable (_ ∧ _))

/-- A step after which nothing happens ends as it does alone. -/
theorem Task.bind_of_silent {σ : Type} {t next : Task σ Unit}
    (hNext : ∀ s, next.run s = ⟨.ok (), s, []⟩) (s : σ) :
    ((t >>= fun _ => next).run s).result = (t.run s).result ∧
      ((t >>= fun _ => next).run s).state = (t.run s).state := by
  cases hFirst : (t.run s).result with
  | error fault =>
      rw [run_bind_of_error hFirst]
      exact ⟨rfl, rfl⟩
  | ok _ =>
      rw [run_bind_of_ok hFirst, hNext]
      exact ⟨rfl, rfl⟩

namespace Handlers

variable {σ : Type} {hs : Handlers σ}

/-- Where there are no handlers nothing happens. -/
theorem run_each_handle_of_silent {es : List Event} (h : ∀ e ∈ es, hs.handlersAt e = []) (s : σ) :
    (Task.each hs.handle es).run s = ⟨.ok (), s, []⟩ := by
  induction es with
  | nil => rfl
  | cons e rest ih =>
      have hFirst : (hs.handle e).run s = ⟨.ok (), s, []⟩ := by
        rw [handle, h e List.mem_cons_self]
        rfl
      rw [Task.each, Task.run_bind_of_ok (congrArg Outcome.result hFirst), hFirst]
      simp [ih fun e he => h e (List.mem_cons_of_mem _ he)]

/-- A walk that meets one handler, at the root, is that handler. -/
theorem walk_of_silent_below {c : Cursor} {handler : Cursor → Task σ Unit}
    (hRoot : hs.handlersAt ⟨.enter, c⟩ = [handler])
    (hBelow : ∀ e ∈ c.children.flatMap Cursor.events ++ [⟨.leave, c⟩], hs.handlersAt e = [])
    (s : σ) :
    ((hs.walk c).run s).result = ((dispatch handler ⟨.enter, c⟩).run s).result ∧
      ((hs.walk c).run s).state = ((handler c).run s).state := by
  obtain ⟨hResult, hState⟩ := Task.bind_of_silent (t := hs.handle ⟨.enter, c⟩)
    (run_each_handle_of_silent hBelow) s
  obtain ⟨hResult', hState'⟩ := Task.bind_of_silent (t := dispatch handler ⟨.enter, c⟩)
    (Task.run_done ()) s
  have hHandle : hs.handle ⟨.enter, c⟩ =
      (dispatch handler ⟨.enter, c⟩ >>= fun _ => Task.done ()) := by
    rw [handle, hRoot]
    rfl
  rw [walk, c.events_eq, Task.each, hResult, hState, hHandle, hResult', hState']
  exact ⟨rfl, Task.state_absorb _ _ _ _⟩

end Handlers

/-- Only diagnostics of one rule have been added. -/
def Adds (id : String) (ds ds' : List Diagnostic) : Prop :=
  ∃ added, ds' = ds ++ added ∧ ∀ d ∈ added, d.ruleId = id

instance (id : String) : Composable (Adds id) where
  refl := fun ds => ⟨[], by simp, by simp⟩
  trans := by
    rintro a b c ⟨first, rfl, hFirst⟩ ⟨second, rfl, hSecond⟩
    refine ⟨first ++ second, List.append_assoc .., fun d hd => ?_⟩
    rcases List.mem_append.1 hd with hd | hd
    · exact hFirst d hd
    · exact hSecond d hd

namespace Listener

/-- Whatever stops it, a listener only adds diagnostics of one rule. -/
abbrev Signs (id : String) {α : Type} (t : Listener α) : Prop :=
  Task.Keeps (fun _ => True) (Adds id) t

theorem signs_report (r : Rule) (messageId loop : String) (ctx : ReportContext)
    (hazards : List Hazard) : Signs r.id (report (r.reporter messageId loop) ctx hazards) := by
  apply Task.Keeps.update
  intro ds
  refine ⟨hazards.map ((r.reporter messageId loop).diagnostic ctx), rfl, fun d hd => ?_⟩
  obtain ⟨hazard, -, rfl⟩ := List.mem_map.1 hd
  rfl

theorem signs_withState (id : String) {τ α : Type} (s : τ) (t : Task τ α) :
    Signs id (Task.withState s t) :=
  Task.Keeps.withState fun _ _ => trivial

/-- A listener for hot paths is not stopped if the stages before the search for hazards succeed and
every fault of the search is absorbed. It then reports what the matcher finds. -/
theorem run_hotPath {engine : Engine} {m : Matcher} (hMatcher : engine.matcher = some m)
    {c : Cursor} {a : Analysis} (hOk : ((engine.propagate c).run ()).result = .ok a)
    (hReads : ∀ mark ∈ a.heat.nodes.values,
      FailsOnly (fun fault => fault.absorbed = true) (m.classify mark.node))
    (r : Reporter) (ctx : ReportContext) (ds : List Diagnostic) :
    ((hotPath engine r ctx c).run ds).result = .ok () ∧
      ((hotPath engine r ctx c).run ds).state = ds ++ (m.found a.heat).map (r.diagnostic ctx) := by
  obtain ⟨hazards, hHazards⟩ := Matcher.hazards_ok_iff.2
    fun mark hMark => hReads mark (List.mem_mergeSort.1 hMark)
  have hAnalyze : ((engine.analyze c).run ()).result = .ok { a with hazards := hazards } := by
    rw [Engine.analyze, Task.result_bind_of_ok hOk, hMatcher]
    exact Task.result_bind_of_ok hHazards
  rw [hotPath, Task.run_bind_of_ok (Task.result_withState_of_ok hAnalyze ds),
    ← Matcher.hazards_eq hHazards]
  exact ⟨rfl, rfl⟩

/-- In that case a banned call on the hot path is reported. Both conditions can be computed. -/
theorem hotPath_reports {engine : Engine} {m : Matcher} (hMatcher : engine.matcher = some m)
    {c : Cursor} (h : ((engine.propagate c).run ()).result.toOption.any fun a =>
      (∀ mark ∈ a.heat.nodes.values,
        FailsOnly (fun fault => fault.absorbed = true) (m.classify mark.node)) ∧
      ∃ mark ∈ a.heat.nodes.values,
        ((m.classify mark.node).toOption.getD none).any (·.1 = .call) = true)
    (r : Reporter) (ctx : ReportContext) :
    ((hotPath engine r ctx c).run []).result = .ok () ∧
      ((hotPath engine r ctx c).run []).state ≠ [] := by
  cases hOk : ((engine.propagate c).run ()).result with
  | error fault =>
      rw [hOk] at h
      cases h
  | ok a =>
      rw [hOk] at h
      obtain ⟨hReads, mark, hMark, hCall⟩ := of_decide_eq_true h
      obtain ⟨hResult, hState⟩ := run_hotPath hMatcher hOk hReads r ctx []
      refine ⟨hResult, ?_⟩
      obtain ⟨found, hFound, hKind⟩ := (Option.any_eq_true _ _).1 hCall
      have hHazard : (⟨mark.node, found.2, found.1, mark.depth, mark.region,
          a.heat.graph.chain (.function mark.region)⟩ : Hazard) ∈ m.found a.heat := by
        apply List.mem_filter.2
        refine ⟨Hazard.mem_filterMap_ofMark.2 ⟨mark, List.mem_mergeSort.2 hMark, found,
          getD_toOption_eq_some_iff.1 hFound, rfl⟩, ?_⟩
        simp [Hazard.counts, of_decide_eq_true hKind]
      rw [hState, List.nil_append]
      exact List.ne_nil_of_mem (List.mem_map_of_mem hHazard)

end Listener

open Listener in
/-- A rule reports under its own name. -/
theorem Rule.signs_listen (r : Rule) (o : RuleOptions) (ctx : ReportContext) (c : Cursor) :
    Signs r.id (r.listen o ctx c) := by
  have hHotPath : ∀ (engine : Engine) (messageId : String),
      Signs r.id (hotPath engine (r.reporter messageId "the frame loop") ctx c) := by
    intro engine messageId
    apply Task.Keeps.bind (signs_withState r.id () _)
    intro found
    exact signs_report r messageId _ ctx _
  cases r with
  | noCloneInLoop => exact hHotPath _ _
  | noNewInLoop => exact hHotPath _ _
  | noFastState =>
      apply Task.Keeps.bind (signs_withState _ () _)
      intro inLoops
      apply Task.Keeps.bind (signs_report noFastState _ _ ctx _)
      intro _
      apply Task.Keeps.bind (signs_withState _ () _)
      intro inEvents
      exact signs_report noFastState _ _ ctx _

namespace RuleEntry

/-- What comes of showing a node to a rule that has reported nothing yet. -/
def heard (e : RuleEntry) (filePath : Option String) (c : Cursor) :
    Outcome (List Diagnostic) Unit :=
  (e.rule.listen e.options ⟨e.severity, filePath⟩ c).run []

theorem ruleId_of_mem_heard {e : RuleEntry} {filePath : Option String} {c : Cursor}
    {d : Diagnostic} (hd : d ∈ (e.heard filePath c).state) : d.ruleId = e.rule.id := by
  obtain ⟨added, hState, hAdded⟩ :=
    (Rule.signs_listen e.rule e.options ⟨e.severity, filePath⟩ c).state []
  apply hAdded
  rw [List.nil_append] at hState
  rwa [← hState]

end RuleEntry

namespace Linter

variable {filePath : Option String} {c root : Cursor} {entries : List RuleEntry}

/-- How a round over rules ends: with the first fault, if there is one. -/
def round (filePath : Option String) (c : Cursor) : List RuleEntry → Except Fault Unit
  | [] => .ok ()
  | e :: rest => do
    (e.heard filePath c).result
    round filePath c rest

/-- What the rules report in a round. Those after a fault report nothing. -/
def reports (filePath : Option String) (c : Cursor) : List RuleEntry → Reported
  | [] => []
  | e :: rest =>
    (e.heard filePath c).state :: match (e.heard filePath c).result with
      | .ok () => reports filePath c rest
      | .error _ => rest.map fun _ => []

theorem round_cons_of_error {e : RuleEntry} {fault : Fault} (rest : List RuleEntry)
    (h : (e.heard filePath c).result = .error fault) :
    round filePath c (e :: rest) = .error fault := by
  rw [round, h]
  rfl

theorem reports_cons_of_error {e : RuleEntry} {fault : Fault} (rest : List RuleEntry)
    (h : (e.heard filePath c).result = .error fault) :
    reports filePath c (e :: rest) = (e.heard filePath c).state :: rest.map fun _ => [] := by
  rw [reports, h]

theorem round_append (xs ys : List RuleEntry) :
    round filePath c (xs ++ ys) = (round filePath c xs).bind fun _ => round filePath c ys := by
  induction xs with
  | nil => rfl
  | cons e rest ih =>
      simp only [List.cons_append, round, ih]
      cases (e.heard filePath c).result <;> rfl

/-- Rules report the same whatever comes after them. -/
theorem reports_append (xs ys : List RuleEntry) :
    reports filePath c (xs ++ ys) = reports filePath c xs ++
      match round filePath c xs with
      | .ok () => reports filePath c ys
      | .error _ => ys.map fun _ => [] := by
  induction xs with
  | nil => rfl
  | cons e rest ih =>
      simp only [List.cons_append, round, reports, ih]
      cases (e.heard filePath c).result with
      | ok _ => rfl
      | error fault =>
          simp only [List.map_append]
          rfl

/-- Whatever is reported carries the name of one of the rules. -/
theorem ruleId_of_mem_reports {d : Diagnostic}
    (hd : d ∈ (reports filePath c entries).flatten) : d.ruleId ∈ entries.map (·.rule.id) := by
  induction entries with
  | nil => cases hd
  | cons e rest ih =>
      rw [List.map_cons]
      rw [reports, List.flatten_cons, List.mem_append] at hd
      rcases hd with hd | hd
      · rw [RuleEntry.ruleId_of_mem_heard hd]
        exact List.mem_cons_self
      · apply List.mem_cons_of_mem
        split at hd
        · exact ih hd
        · simp at hd

/-- Show a node to a rule that writes to a slot. -/
def slot (filePath : Option String) (c : Cursor) (p : RuleEntry × Nat) : Task Reported Unit :=
  (p.1.rule.listen p.1.options ⟨p.1.severity, filePath⟩ c).focus
    (fun reported => reported.getD p.2 []) (fun ds reported => reported.set p.2 ds)

/-- A rule writes to its slot only, and what it writes does not depend on the others. -/
theorem run_slot (filePath : Option String) (c : Cursor) (e : RuleEntry)
    (filled rest : Reported) :
    ((slot filePath c (e, filled.length)).run (filled ++ [] :: rest)).result =
        (e.heard filePath c).result ∧
      ((slot filePath c (e, filled.length)).run (filled ++ [] :: rest)).state =
        filled ++ (e.heard filePath c).state :: rest := by
  have hGet : (filled ++ [] :: rest).getD filled.length [] = [] := by simp
  constructor
  · show (Task.run _ ((filled ++ [] :: rest).getD filled.length [])).result = _
    rw [hGet]
    rfl
  · show (filled ++ [] :: rest).set filled.length
      (Task.run _ ((filled ++ [] :: rest).getD filled.length [])).state = _
    rw [hGet]
    simp [RuleEntry.heard]

/-- Slots before those of the rules at hand are filled, and theirs are still empty. -/
theorem run_slots (entries : List RuleEntry) (filled : Reported) :
    let slots := Task.each (slot filePath c) (entries.zipIdx filled.length)
    (slots.run (filled ++ entries.map fun _ => [])).result = round filePath c entries ∧
      (slots.run (filled ++ entries.map fun _ => [])).state =
        filled ++ reports filePath c entries := by
  induction entries generalizing filled with
  | nil => exact ⟨rfl, rfl⟩
  | cons e rest ih =>
      obtain ⟨hResult, hState⟩ := run_slot filePath c e filled (rest.map fun _ => [])
      simp only [List.map_cons, List.zipIdx_cons, Task.each, round, reports]
      cases hHeard : (e.heard filePath c).result with
      | error fault =>
          rw [hHeard] at hResult
          rw [Task.run_bind_of_error hResult, hState]
          exact ⟨rfl, rfl⟩
      | ok _ =>
          rw [hHeard] at hResult
          rw [Task.run_bind_of_ok hResult, hState]
          obtain ⟨hResult, hState⟩ := ih (filled ++ [(e.heard filePath c).state])
          rw [List.length_append, List.append_assoc] at hResult hState
          rw [List.append_assoc] at hState
          exact ⟨hResult, hState⟩

/-- Showing a node to all rules is a round. -/
theorem run_listen (l : Linter) (filePath : Option String) (c : Cursor) :
    ((l.listen filePath c).run (l.entries.map fun _ => [])).result = round filePath c l.entries ∧
      ((l.listen filePath c).run (l.entries.map fun _ => [])).state =
        reports filePath c l.entries :=
  run_slots l.entries []

/-- Below a sole program nothing is shown to the rules. -/
theorem handlersAt_of_soleProgram (l : Linter) (hRoot : root.SoleProgram) :
    ∀ e ∈ root.children.flatMap Cursor.events ++ [⟨.leave, root⟩],
      (l.handlers filePath).handlersAt e = [] := by
  rintro ⟨phase, d⟩ he
  cases phase with
  | leave => rfl
  | enter =>
      simp only [List.mem_append, List.mem_flatMap, List.mem_singleton, Event.mk.injEq,
        reduceCtorEq, false_and, or_false] at he
      obtain ⟨child, hChild, he⟩ := he
      have hMem : d ∈ child.preorder := by
        rw [← Cursor.filterMap_entered?_events]
        exact List.mem_filterMap.2 ⟨_, he, rfl⟩
      simp [Handlers.handlersAt, handlers, hRoot.2 child hChild d hMem]

/-- Linting a tree whose only program is its root fails only if the round over the rules ends with
a fault that is not absorbed. Otherwise it returns what was reported until then, in order. -/
theorem lintTree_ok_iff (l : Linter) (hRoot : root.SoleProgram) {ds : List Diagnostic} :
    ((l.lintTree root filePath).run ()).result = .ok ds ↔
      FailsOnly (fun fault => fault.absorbed = true) (round filePath root l.entries) ∧
        ds = Diagnostic.sorted (reports filePath root l.entries).flatten := by
  have hFirst : (l.handlers filePath).handlersAt ⟨.enter, root⟩ = [l.listen filePath] := by
    simp [Handlers.handlersAt, handlers, hRoot.1]
  obtain ⟨hListen, hReports⟩ := l.run_listen filePath root
  obtain ⟨hResult, hState⟩ :=
    Handlers.walk_of_silent_below hFirst (l.handlersAt_of_soleProgram hRoot)
      (l.entries.map fun _ => [])
  rw [Handlers.dispatch, Task.result_absorb, hListen] at hResult
  rw [hReports] at hState
  constructor
  · intro hOk
    obtain ⟨⟨_, reported⟩, hWalk, hOk, -⟩ := Task.exists_of_bind_ok hOk
    obtain ⟨hWalk, hReported⟩ := Task.of_withState_ok hWalk
    cases hOk
    rw [hResult] at hWalk
    rw [hState] at hReported
    subst hReported
    refine ⟨?_, rfl⟩
    intro fault hFault
    rw [hFault] at hWalk
    by_contra hPasses
    simp [hPasses] at hWalk
  · rintro ⟨hFaults, rfl⟩
    have hWalk : (((l.handlers filePath).walk root).run (l.entries.map fun _ => [])).result =
        .ok () := by
      rw [hResult]
      cases hRound : round filePath root l.entries with
      | ok _ => rfl
      | error fault => simp [hFaults fault hRound]
    rw [lintTree, Task.result_bind_of_ok (Task.result_withState_of_ok hWalk ()), hState]
    rfl

/-- A round without faults shows the node to every rule. -/
theorem round_of_heard (h : ∀ e ∈ entries, (e.heard filePath c).result = .ok ()) :
    round filePath c entries = .ok () ∧
      reports filePath c entries = entries.map fun e => (e.heard filePath c).state := by
  induction entries with
  | nil => exact ⟨rfl, rfl⟩
  | cons e rest ih =>
      obtain ⟨hRound, hReports⟩ := ih fun e he => h e (List.mem_cons_of_mem _ he)
      simp only [round, reports, h e List.mem_cons_self, hReports]
      exact ⟨hRound, rfl⟩

/-- Without faults linting returns what the rules report, in order. -/
theorem lintTree_of_heard (hRoot : root.SoleProgram)
    (h : ∀ e ∈ entries, (e.heard filePath root).result = .ok ()) :
    (((Linter.mk entries).lintTree root filePath).run ()).result =
      .ok (Diagnostic.sorted (entries.map fun e => (e.heard filePath root).state).flatten) := by
  obtain ⟨hRound, hReports⟩ := round_of_heard h
  apply ((Linter.mk entries).lintTree_ok_iff hRoot).2
  rw [hRound, hReports]
  exact ⟨FailsOnly.ok (), rfl⟩

end Linter

end HotPath
