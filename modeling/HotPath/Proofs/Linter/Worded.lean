import HotPath.Linter.Files
import HotPath.Proofs.Task

/-! How diagnostics are worded. Whatever a linter reports, every diagnostic says one of the messages
of a rule about some hazard, and calls the loop by one of a few names. -/

namespace HotPath

/-- What rules call the loop. -/
def Rule.loops : List String :=
  ["the frame loop", "a frame or interval callback", "a fast pointer event handler"]

/-- Diagnostics that a rule has worded. -/
inductive Diagnostic.Worded : Diagnostic → Prop
  | intro (r : Rule) {messageId loop : String} (hMessage : messageId ∈ r.messages.map Prod.fst)
      (hLoop : loop ∈ Rule.loops) (ctx : ReportContext) (h : Hazard) :
      Worded ((r.reporter messageId loop).diagnostic ctx h)

/-- All worded diagnostics stay worded. -/
def KeepsWorded (ds ds' : List Diagnostic) : Prop :=
  (∀ d ∈ ds, d.Worded) → ∀ d ∈ ds', d.Worded

instance : Composable KeepsWorded where
  refl := fun _ h => h
  trans := fun hab hbc h => hbc (hab h)

namespace Listener

/-- Whatever stops it, a listener only adds diagnostics that a rule has worded. -/
abbrev Words {α : Type} (t : Listener α) : Prop := Task.Keeps (fun _ => True) KeepsWorded t

theorem words_report {r : Rule} {messageId loop : String}
    (hMessage : messageId ∈ r.messages.map Prod.fst) (hLoop : loop ∈ Rule.loops)
    (ctx : ReportContext) (hazards : List Hazard) :
    Words (report (r.reporter messageId loop) ctx hazards) := by
  apply Task.Keeps.update
  intro ds hds d hd
  rcases List.mem_append.1 hd with hd | hd
  · exact hds d hd
  · obtain ⟨hazard, -, rfl⟩ := List.mem_map.1 hd
    exact .intro r hMessage hLoop ctx hazard

theorem words_withState {τ α : Type} (s : τ) (t : Task τ α) : Words (Task.withState s t) :=
  Task.Keeps.withState fun _ _ => trivial

end Listener

open Listener in
theorem Rule.words_listen (r : Rule) (o : RuleOptions) (ctx : ReportContext) (c : Cursor) :
    Words (r.listen o ctx c) := by
  have hHotPath (engine : Engine) {messageId : String}
      (hMessage : messageId ∈ r.messages.map Prod.fst) :
      Words (hotPath engine (r.reporter messageId "the frame loop") ctx c) := by
    apply Task.Keeps.bind (words_withState () _)
    intro found
    exact words_report hMessage (by decide) ctx _
  cases r with
  | noCloneInLoop => exact hHotPath _ (by decide)
  | noNewInLoop => exact hHotPath _ (by decide)
  | noFastState =>
      apply Task.Keeps.bind (words_withState () _)
      intro inLoops
      apply Task.Keeps.bind (words_report (by decide) (by decide) ctx _)
      intro _
      apply Task.Keeps.bind (words_withState () _)
      intro inEvents
      exact words_report (by decide) (by decide) ctx _

namespace Linter

/-- All slots hold worded diagnostics if they did before. -/
def SlotsKeepWorded (reported reported' : Reported) : Prop :=
  (∀ ds ∈ reported, ∀ d ∈ ds, d.Worded) → ∀ ds ∈ reported', ∀ d ∈ ds, d.Worded

instance : Composable SlotsKeepWorded where
  refl := fun _ h => h
  trans := fun hab hbc h => hbc (hab h)

theorem keeps_slot {t : Listener Unit} (h : Listener.Words t) (i : Nat) :
    Task.Keeps (fun _ => True) SlotsKeepWorded
      (t.focus (fun reported : Reported => reported.getD i [])
        (fun ds reported => reported.set i ds)) where
  fault := fun _ _ _ => trivial
  state := by
    intro reported hReported ds hds d hd
    rcases List.mem_or_eq_of_mem_set hds with hds | rfl
    · exact hReported ds hds d hd
    · apply h.state (reported.getD i []) _ d hd
      intro d hd
      rw [List.getD_eq_getElem?_getD] at hd
      cases hSlot : reported[i]? with
      | none => simp [hSlot] at hd
      | some ds =>
          rw [hSlot] at hd
          exact hReported ds (List.mem_of_getElem? hSlot) d hd

theorem keeps_walk (l : Linter) (root : Cursor) (filePath : Option String) :
    Task.Keeps (fun _ => True) SlotsKeepWorded ((l.handlers filePath).walk root) := by
  apply Task.Keeps.each
  intro e _
  apply Task.Keeps.each
  intro handler hHandler
  have hListen : handler = l.listen filePath := by
    obtain ⟨phase, c⟩ := e
    cases phase with
    | leave => cases hHandler
    | enter =>
        by_cases hProgram : c.kind = "program"
        · simpa [Handlers.handlersAt, handlers, hProgram] using hHandler
        · simp [Handlers.handlersAt, handlers, hProgram] at hHandler
  subst hListen
  apply Task.Keeps.mono (Task.Keeps.absorb _ _ _) fun _ _ => trivial
  · exact fun _ => True
  · apply Task.Keeps.each
    rintro ⟨entry, i⟩ _
    exact keeps_slot (entry.rule.words_listen entry.options _ _) i

theorem worded_of_lintTree {l : Linter} {root : Cursor} {filePath : Option String}
    {ds : List Diagnostic} (h : ((l.lintTree root filePath).run ()).result = .ok ds) :
    ∀ d ∈ ds, d.Worded := by
  obtain ⟨⟨_, reported⟩, hWalk, hOk, -⟩ := Task.exists_of_bind_ok h
  obtain ⟨-, hReported⟩ := Task.of_withState_ok hWalk
  cases hOk
  intro d hd
  obtain ⟨slot, hSlot, hd⟩ := List.mem_flatten.1 (List.mem_mergeSort.1 hd)
  have hStart : ∀ ds ∈ l.entries.map fun _ => ([] : List Diagnostic), ∀ d ∈ ds, d.Worded := by
    intro ds hds d hd
    obtain ⟨_, _, rfl⟩ := List.mem_map.1 hds
    cases hd
  apply (l.keeps_walk root filePath).state _ hStart slot _ d hd
  rwa [← hReported]

theorem worded_of_lintFile {l : Linter} {folder : Folder} {p : Path} {ds : List Diagnostic}
    (h : (l.lintFile folder p).result = .ok ds) : ∀ d ∈ ds, d.Worded := by
  unfold lintFile at h
  split at h
  · cases h
  · split at h
    · cases h
    · unfold lintParsed at h
      split at h
      · cases h
      · next tree _ =>
          dsimp only at h
          cases hTree : ((l.lintTree (Cursor.root tree) (some p.text)).run ()).result with
          | error fault =>
              rw [hTree] at h
              cases h
          | ok found =>
              rw [hTree] at h
              cases h
              exact worded_of_lintTree hTree

/-- A run whose report so far is worded. -/
def RunOutcome.Worded (run : RunOutcome) : Prop :=
  ∀ report, run.result = .ok report → ∀ d ∈ report.diagnostics, d.Worded

theorem RunOutcome.Worded.add {l : Linter} {folder : Folder} {run : RunOutcome}
    {report : LintReport} (hReport : ∀ d ∈ report.diagnostics, d.Worded) (p : Path) :
    (run.add report p (l.lintFile folder p)).Worded := by
  intro report' hReport'
  unfold RunOutcome.add at hReport'
  dsimp only at hReport'
  split at hReport'
  · next ds hds =>
      cases hReport'
      intro d hd
      rcases List.mem_append.1 hd with hd | hd
      · exact hReport d hd
      · exact worded_of_lintFile hds d hd
  · split at hReport'
    · cases hReport'
    · cases hReport'
      exact hReport

theorem RunOutcome.Worded.lintEach {l : Linter} {folder : Folder} {run : RunOutcome}
    (h : run.Worded) (files : List Path) : (l.lintEach folder files run).Worded := by
  induction files generalizing run with
  | nil => exact h
  | cons p rest ih =>
      rw [Linter.lintEach]
      split
      · exact h
      · next report hReport => exact ih (.add (h report hReport) p)

/-- Every diagnostic that a run reports is worded. -/
theorem worded_of_lintPaths {l : Linter} {folder : Folder} {ps : List Path} {report : LintReport}
    (h : (l.lintPaths folder ps).result = .ok report) : ∀ d ∈ report.diagnostics, d.Worded := by
  unfold lintPaths at h
  dsimp only at h
  split at h
  · cases h
  · next files hFiles =>
      have hStart :
          RunOutcome.Worded ⟨.ok ⟨[], [], []⟩, [], ((discover folder ps).run ()).log⟩ := by
        rintro _ ⟨⟩ d hd
        cases hd
      cases hRun : (l.lintEach folder files
          ⟨.ok ⟨[], [], []⟩, [], ((discover folder ps).run ()).log⟩).result with
      | error fault =>
          rw [hRun] at h
          cases h
      | ok found =>
          rw [hRun] at h
          cases h
          intro d hd
          exact hStart.lintEach files found hRun d (List.mem_mergeSort.1 hd)

end Linter

end HotPath
