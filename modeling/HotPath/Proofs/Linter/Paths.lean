import HotPath.Proofs.Linter.Arrange
import HotPath.Proofs.Linter.Discover
import HotPath.Proofs.Linter.Merge
import Mathlib.Data.List.Sort

/-! Runs over several paths. Every file that was found is linted once, in order. Its diagnostics go
into the report, or the reason why it cannot be linted does, and neither depends on the other files.
So a report depends only on which paths are given. -/

namespace HotPath.Linter

variable {l : Linter} {folder : Folder} {q : Path} {files : List Path} {names : List String}

/-- What keeps a file from being linted, if anything does, lets the run go on. -/
def GoesOn (l : Linter) (folder : Folder) (q : Path) : Prop :=
  ∀ e, (l.lintFile folder q).result = .error e → e.endsRun? = none

/-- The diagnostics of a file. One that cannot be linted has none. -/
def diagnosticsOf (l : Linter) (folder : Folder) (q : Path) : List Diagnostic :=
  (l.lintFile folder q).result.toOption.getD []

/-- The reason why a file cannot be linted. -/
def reason? : Except LintError (List Diagnostic) → Option String
  | .ok _ => none
  | .error e => some e.message

/-- The entry for a file that cannot be linted. -/
def failureOf? (l : Linter) (folder : Folder) (q : Path) : Option (String × String) :=
  (reason? (l.lintFile folder q).result).map (q.text, ·)

/-- A report with one more file. -/
def addFile (l : Linter) (folder : Folder) (report : LintReport) (q : Path) : LintReport where
  diagnostics := report.diagnostics ++ l.diagnosticsOf folder q
  files := report.files ++ [q.text]
  failures := report.failures ++ (l.failureOf? folder q).toList

/-- A file is added, whether it can be linted or not. -/
theorem result_add (hGoesOn : l.GoesOn folder q) (run : RunOutcome) (report : LintReport) :
    (run.add report q (l.lintFile folder q)).result = .ok (l.addFile folder report q) := by
  unfold RunOutcome.add addFile diagnosticsOf failureOf?
  cases hResult : (l.lintFile folder q).result with
  | ok ds => simp [Except.toOption, reason?]
  | error e => simp [Except.toOption, reason?, hGoesOn e hResult]

/-- All files are added, in order. -/
theorem lintEach_of_goesOn (hGoesOn : ∀ q ∈ files, l.GoesOn folder q) {run : RunOutcome}
    {report : LintReport} (hRun : run.result = .ok report) :
    (l.lintEach folder files run).result = .ok (files.foldl (l.addFile folder) report) := by
  induction files generalizing run report with
  | nil => exact hRun
  | cons q rest ih =>
      rw [lintEach, hRun, List.foldl_cons]
      apply ih fun q hq => hGoesOn q (List.mem_cons_of_mem _ hq)
      exact result_add (hGoesOn q List.mem_cons_self) run report

theorem foldl_addFile (files : List Path) (report : LintReport) :
    files.foldl (l.addFile folder) report =
      ⟨report.diagnostics ++ files.flatMap (l.diagnosticsOf folder),
        report.files ++ files.map Path.text,
        report.failures ++ files.filterMap (l.failureOf? folder)⟩ := by
  induction files generalizing report with
  | nil => simp
  | cons q rest ih =>
      rw [List.foldl_cons, ih]
      cases hFailure : l.failureOf? folder q <;> simp [addFile, hFailure]

theorem result_lintFile {language : Language} {source : Source} {tree : Node}
    (hLanguage : Language.ofPath? q = some language) (hRead : folder.read q = .ok source)
    (hTree : source.tree? language = some tree) :
    (l.lintFile folder q).result =
      ((l.lintTree (.root tree) (some q.text)).run ()).result.mapError .fault := by
  unfold lintFile
  rw [hLanguage]
  dsimp only
  rw [hRead]
  unfold lintParsed
  dsimp only
  rw [hTree]

/-- What a report says about a run over paths, whose files are named by their texts. -/
structure Covers (l : Linter) (folder : Folder) (ps : List Path) (report : LintReport) : Prop where
  files : ∀ s, s ∈ report.files ↔ ∃ p ∈ ps, ∃ q, StandsFor folder p q ∧ q.text = s
  increasing : report.files.Pairwise fun s t => (Path.ofText s).keyParts < (Path.ofText t).keyParts
  failures : report.failures = report.files.filterMap (l.failureOf? folder ∘ Path.ofText)
  diagnostics : Diagnostic.Arranged (report.files.flatMap (l.diagnosticsOf folder ∘ Path.ofText))
    report.diagnostics

/-- The files of paths that were read from texts can be read from theirs. -/
theorem StandsFor.isWritten {s : String} (hSound : folder.Sound)
    (h : StandsFor folder (.ofText s) q) : q.IsWritten := by
  cases h with
  | itself => exact Path.isWritten_ofText s
  | below hFolder hDown hFile =>
      have hMem := ((Folder.isFile_below_iff hSound hFolder hDown).1 hFile).1
      apply (Path.isWritten_ofText s).below
      intro part hPart
      exact (hSound.named _ (List.mem_append_left _ hMem) part
        (List.mem_append_right _ hPart)).toIsPart

theorem result_lintPaths {ps : List Path}
    (hFiles : ((discover folder ps).run ()).result = .ok files)
    (hGoesOn : ∀ q ∈ files, l.GoesOn folder q) :
    (l.lintPaths folder ps).result = .ok
      ⟨Diagnostic.sorted (files.flatMap (l.diagnosticsOf folder)), files.map Path.text,
        files.filterMap (l.failureOf? folder)⟩ := by
  have hEach := lintEach_of_goesOn hGoesOn
    (rfl : (RunOutcome.mk (.ok ⟨[], [], []⟩) [] ((discover folder ps).run ()).log).result = _)
  rw [foldl_addFile] at hEach
  simp only [lintPaths, hFiles, hEach, List.nil_append]
  rfl

/-- A path that is too long ends the run before any file is linted. -/
theorem exists_refused_lintPaths {ps : List Path} {p : Path} (hp : p ∈ ps)
    (h : Blocked folder p) :
    ∃ fault, (l.lintPaths folder ps).result = .error fault ∧ fault.cause = .refused := by
  obtain ⟨fault, hFault, hCause⟩ := exists_refused hp h
  refine ⟨fault, ?_, hCause⟩
  simp only [lintPaths, hFault]

theorem Finds.covers {ps : List Path} (hSound : folder.Sound) (h : Finds folder ps files)
    (hTexts : ∀ p ∈ ps, ∃ s, p = .ofText s) :
    l.Covers folder ps
      ⟨Diagnostic.sorted (files.flatMap (l.diagnosticsOf folder)), files.map Path.text,
        files.filterMap (l.failureOf? folder)⟩ := by
  have hWritten : ∀ q ∈ files, q.IsWritten := by
    intro q hq
    obtain ⟨p, hp, hStands⟩ := (h.mem_iff q).1 hq
    obtain ⟨s, rfl⟩ := hTexts p hp
    exact hStands.isWritten hSound
  have hRead : ∀ q ∈ files, Path.ofText q.text = q := fun q hq => (hWritten q hq).ofText_text
  constructor
  case files =>
    intro s
    simp only [List.mem_map, h.mem_iff]
    constructor
    · rintro ⟨q, ⟨p, hp, hStands⟩, hText⟩
      exact ⟨p, hp, q, hStands, hText⟩
    · rintro ⟨p, hp, q, hStands, hText⟩
      exact ⟨q, ⟨p, hp, hStands⟩, hText⟩
  case increasing =>
    rw [List.pairwise_map]
    apply h.ordered.imp_of_mem
    rintro a b ha hb ⟨hPrecedes, hNe⟩
    rw [hRead a ha, hRead b hb]
    exact (hWritten a ha).keyParts_lt (hWritten b hb) hPrecedes hNe
  case failures =>
    rw [List.filterMap_map]
    apply List.filterMap_congr
    intro q hq
    simp only [Function.comp_apply, hRead q hq]
  case diagnostics =>
    have hSame : (files.map Path.text).flatMap (l.diagnosticsOf folder ∘ Path.ofText) =
        files.flatMap (l.diagnosticsOf folder) := by
      rw [List.flatMap_map]
      apply List.flatMap_congr
      intro q hq
      simp only [Function.comp_apply, hRead q hq]
    rw [hSame]
    exact Diagnostic.arranged_sorted _

/-- There is only one report that covers given paths. -/
theorem Covers.unique {ps ps' : List Path} {report report' : LintReport}
    (h : l.Covers folder ps report) (h' : l.Covers folder ps' report')
    (hSame : ∀ p, p ∈ ps ↔ p ∈ ps') : report = report' := by
  let before := fun s t => (Path.ofText s).keyParts < (Path.ofText t).keyParts
  have : Std.Antisymm before := ⟨fun _ _ hst hts => (hst.asymm hts).elim⟩
  have : Std.Irrefl before := ⟨fun s => lt_irrefl (Path.ofText s).keyParts⟩
  have hFiles : report.files = report'.files := by
    apply List.Pairwise.eq_of_mem_iff h.increasing h'.increasing
    intro s
    simp only [h.files, h'.files, hSame]
  have hFailures : report.failures = report'.failures := by
    rw [h.failures, h'.failures, hFiles]
  have hDiagnostics : report.diagnostics = report'.diagnostics := by
    apply h.diagnostics.unique h'.diagnostics
    intro k
    rw [hFiles]
  obtain ⟨diagnostics, files, failures⟩ := report
  obtain ⟨diagnostics', files', failures'⟩ := report'
  cases hFiles
  cases hFailures
  cases hDiagnostics
  rfl

/-- A run over paths of which none is too long returns a report that covers them. -/
theorem exists_covers {ps : List Path} (hSound : folder.Sound)
    (hTexts : ∀ p ∈ ps, ∃ s, p = .ofText s) (hShort : ∀ p ∈ ps, ¬Blocked folder p)
    (hGoesOn : ∀ p ∈ ps, ∀ q, StandsFor folder p q → l.GoesOn folder q) :
    ∃ report, (l.lintPaths folder ps).result = .ok report ∧ l.Covers folder ps report := by
  obtain ⟨files, hFiles, hFinds⟩ := exists_finds hSound hShort
  refine ⟨_, result_lintPaths hFiles ?_, hFinds.covers hSound hTexts⟩
  intro q hq
  obtain ⟨p, hp, hStands⟩ := (hFinds.mem_iff q).1 hq
  exact hGoesOn p hp q hStands

/-- A run over paths of which none is too long returns the one report that covers them, whatever
keeps single files from being linted. A path that is too long ends the run. Neither the order of the
paths nor repetitions make a difference. -/
theorem lintPaths_exact (l : Linter) {folder : Folder} (hSound : folder.Sound) (names : List String)
    (hGoesOn : ∀ s ∈ names, ∀ q, StandsFor folder (.ofText s) q → l.GoesOn folder q) :
    let ps := names.map Path.ofText
    ((∀ p ∈ ps, ¬Blocked folder p) →
      (∃ report, (l.lintPaths folder ps).result = .ok report) ∧
        ∀ report, (l.lintPaths folder ps).result = .ok report ↔ l.Covers folder ps report) ∧
    ((∃ p ∈ ps, Blocked folder p) →
      ∃ fault, (l.lintPaths folder ps).result = .error fault ∧ fault.cause = .refused) ∧
    ∀ ps' : List Path, (∀ p, p ∈ ps' ↔ p ∈ ps) →
      (l.lintPaths folder ps').result.toOption = (l.lintPaths folder ps).result.toOption := by
  intro ps
  have hReport {ps' : List Path} (hSame : ∀ p, p ∈ ps' ↔ p ∈ ps)
      (hShort : ∀ p ∈ ps, ¬Blocked folder p) :
      ∃ report, (l.lintPaths folder ps').result = .ok report ∧ l.Covers folder ps' report := by
    apply exists_covers hSound
    · intro p hp
      obtain ⟨s, -, rfl⟩ := List.mem_map.1 ((hSame p).1 hp)
      exact ⟨s, rfl⟩
    · exact fun p hp => hShort p ((hSame p).1 hp)
    · intro p hp
      obtain ⟨s, hs, rfl⟩ := List.mem_map.1 ((hSame p).1 hp)
      exact hGoesOn s hs
  refine ⟨?_, ?_, ?_⟩
  · intro hShort
    obtain ⟨report, hResult, hCovers⟩ := hReport (fun _ => Iff.rfl) hShort
    refine ⟨⟨report, hResult⟩, fun report' => ⟨?_, ?_⟩⟩
    · intro hResult'
      rw [hResult] at hResult'
      cases hResult'
      exact hCovers
    · intro hCovers'
      rw [hResult, hCovers.unique hCovers' fun _ => Iff.rfl]
  · rintro ⟨p, hp, hBlocked⟩
    exact exists_refused_lintPaths hp hBlocked
  · intro ps' hSame
    by_cases hShort : ∀ p ∈ ps, ¬Blocked folder p
    · obtain ⟨report, hResult, hCovers⟩ := hReport (fun _ => Iff.rfl) hShort
      obtain ⟨report', hResult', hCovers'⟩ := hReport hSame hShort
      rw [hResult, hResult', hCovers'.unique hCovers hSame]
    · push Not at hShort
      obtain ⟨p, hp, hBlocked⟩ := hShort
      obtain ⟨fault, hFault, -⟩ := exists_refused_lintPaths (l := l) hp hBlocked
      obtain ⟨fault', hFault', -⟩ := exists_refused_lintPaths (l := l) ((hSame p).2 hp) hBlocked
      rw [hFault, hFault']
      rfl

/-- One rule that objects to clones. -/
def cloning : Linter := ⟨[⟨.noCloneInLoop, {}, .error⟩]⟩

/-- A folder with a scene, a copy of it among code of others, and a file that is no code. -/
def mixedFolder : Folder where
  place := ["home"]
  files :=
    let scene : Source := ⟨[], [(.javascript, (Cursor.sample (.text "helper")).node)]⟩
    [(["home", "src", "scene.js"], scene), (["home", "src", "vendor", "lib.js"], scene),
      (["home", "notes.txt"], ⟨[], []⟩)]

theorem sound_mixedFolder : mixedFolder.Sound := by
  decide +kernel

/-- Paths to the scene, from the working folder and around it, to the other file from the root, and
to nothing. -/
def mixedTexts : List String :=
  ["src", "gone", "/home/notes.txt", "src/scene.js", "../home/src/scene.js"]

/-- The scene can be linted, whichever path leads to it. -/
theorem goesOn_scene {s : String} (hs : s ∈ ["src/scene.js", "../home/src/scene.js"]) :
    cloning.GoesOn mixedFolder (.ofText s) := by
  obtain ⟨ds, hLinted⟩ : ∃ ds, ((cloning.lintTree (.root (Cursor.sample (.text "helper")).node)
      (some (Path.ofText s).text)).run ()).result = .ok ds := by
    refine ⟨_, lintTree_of_heard (by decide +kernel) fun e he => ?_⟩
    rw [List.mem_singleton.1 he]
    exact (Listener.hotPath_reports rfl (by decide +kernel) _ _).1
  have hLanguage : ∀ s ∈ ["src/scene.js", "../home/src/scene.js"],
      Language.ofPath? (.ofText s) = some .javascript := by
    decide +kernel
  have hRead : mixedFolder.read (.ofText s) =
      .ok ⟨[], [(.javascript, (Cursor.sample (.text "helper")).node)]⟩ := by
    simp only [List.mem_cons, List.not_mem_nil, or_false] at hs
    rcases hs with rfl | rfl <;> rfl
  intro e hError
  rw [result_lintFile (hLanguage s hs) hRead rfl, hLinted] at hError
  cases hError

/-- Other files cannot, which is no reason to stop. -/
theorem goesOn_notes : cloning.GoesOn mixedFolder (.ofText "/home/notes.txt") := by
  have hLanguage : Language.ofPath? (.ofText "/home/notes.txt") = none := by
    decide +kernel
  intro e hError
  unfold lintFile at hError
  rw [hLanguage] at hError
  cases hError
  rfl

theorem not_blocked_mixedFolder {s : String} (hs : s ∈ mixedTexts) :
    ¬Blocked mixedFolder (.ofText s) := by
  have hShort : ∀ s ∈ mixedTexts,
      ((filesAt mixedFolder (.ofText s)).run ()).result.toOption.isSome = true := by
    decide +kernel
  exact not_blocked_of_isSome (hShort s hs)

/-- The code of others is passed over. -/
theorem standsFor_mixedFolder {s : String} (hs : s ∈ mixedTexts) {q : Path}
    (h : StandsFor mixedFolder (.ofText s) q) :
    (∃ scene ∈ ["src/scene.js", "../home/src/scene.js"], q = .ofText scene) ∨
      q = .ofText "/home/notes.txt" := by
  have hFiles : ∀ s ∈ mixedTexts, ∀ q ∈ filesOf mixedFolder (.ofText s),
      (∃ scene ∈ ["src/scene.js", "../home/src/scene.js"], q = .ofText scene) ∨
        q = .ofText "/home/notes.txt" := by
    decide +kernel
  exact hFiles s hs q ((mem_filesOf_iff sound_mixedFolder (not_blocked_mixedFolder hs)).2 h)

theorem goesOn_mixedFolder {s : String} (hs : s ∈ mixedTexts) {q : Path}
    (h : StandsFor mixedFolder (.ofText s) q) : cloning.GoesOn mixedFolder q := by
  rcases standsFor_mixedFolder hs h with ⟨scene, hScene, rfl⟩ | rfl
  · exact goesOn_scene hScene
  · exact goesOn_notes

theorem lintPaths_exact_mixedFolder :
    let ps := mixedTexts.map Path.ofText
    mixedFolder.Sound ∧ ∃ report, (cloning.lintPaths mixedFolder ps).result = .ok report ∧
      cloning.Covers mixedFolder ps report ∧ "/home/notes.txt" ∈ report.files ∧
      "../home/src/scene.js" ∈ report.files ∧ "src/vendor/lib.js" ∉ report.files ∧
      (cloning.lintPaths mixedFolder ps.reverse).result.toOption = some report := by
  intro ps
  obtain ⟨hReport, -, hSame⟩ := lintPaths_exact cloning sound_mixedFolder mixedTexts
    fun s hs q => goesOn_mixedFolder hs
  obtain ⟨⟨report, hResult⟩, hExact⟩ := hReport (by
    intro p hp
    obtain ⟨s, hs, rfl⟩ := List.mem_map.1 hp
    exact not_blocked_mixedFolder hs)
  have hCovers := (hExact report).1 hResult
  have hItself : ∀ s ∈ ["/home/notes.txt", "../home/src/scene.js"], s ∈ mixedTexts ∧
      mixedFolder.isFile (.ofText s) = true ∧ (Path.ofText s).text = s := by
    decide +kernel
  have hFound (s : String) (hs : s ∈ ["/home/notes.txt", "../home/src/scene.js"]) :
      s ∈ report.files := by
    obtain ⟨hGiven, hFile, hText⟩ := hItself s hs
    exact (hCovers.files s).2 ⟨_, List.mem_map_of_mem hGiven, _, .itself hFile, hText⟩
  refine ⟨sound_mixedFolder, report, hResult, hCovers, hFound _ (by simp), hFound _ (by simp), ?_,
    ?_⟩
  · intro hListed
    obtain ⟨p, hp, q, hStands, hText⟩ := (hCovers.files _).1 hListed
    obtain ⟨s, hs, rfl⟩ := List.mem_map.1 hp
    rcases standsFor_mixedFolder hs hStands with ⟨scene, hScene, rfl⟩ | rfl
    · have hOther : ∀ scene ∈ ["src/scene.js", "../home/src/scene.js"],
          (Path.ofText scene).text ≠ "src/vendor/lib.js" := by
        decide +kernel
      exact hOther scene hScene hText
    · exact absurd hText (by decide +kernel)
  · rw [hSame ps.reverse fun p => List.mem_reverse, hResult]
    rfl

/-- A name that is longer than names can be. -/
def longName : String := String.ofList (List.replicate 256 'b')

theorem toList_longName : longName.toList = List.replicate 256 'b' := String.toList_ofList

theorem longName_ne {s : String} (h : s.toList.length ≠ 256) : longName ≠ s := by
  rintro rfl
  rw [toList_longName, List.length_replicate] at h
  exact h rfl

theorem not_mem_longName {c : Char} (h : c ≠ 'b') : c ∉ longName.toList := by
  rw [toList_longName, List.mem_replicate]
  exact fun hc => h hc.2

theorem locate_longName (folder : Folder) : folder.locate (.ofText longName) = .tooLong := by
  have hWritten : (Path.mk "" [longName]).IsWritten := by
    refine ⟨List.mem_cons_self, fun part hPart => ?_⟩
    rw [List.mem_singleton.1 hPart]
    exact ⟨longName_ne (by decide), longName_ne (by decide), not_mem_longName (by decide)⟩
  have hText : (Path.mk "" [longName]).text = longName := by
    simp [Path.text]
  have hBytes : String.utf8Len (List.replicate 256 'b') > Folder.maxPartSize := by
    decide +kernel
  have hSize : longName.utf8ByteSize > Folder.maxPartSize :=
    (String.utf8ByteSize_ofList _).symm ▸ hBytes
  rw [← hText, hWritten.ofText_text]
  exact Folder.locate_of_long_name (not_mem_longName (by decide)) (longName_ne (by decide)) hSize
    folder

/-- A path that leads nowhere keeps the file beside it from being linted, because it is too long. -/
theorem lintPaths_longName_mixedFolder :
    mixedFolder.isFile (.ofText "src/scene.js") = true ∧
      mixedFolder.isFile (.ofText longName) = false ∧
      (∃ report, (cloning.lintPaths mixedFolder [.ofText "src/scene.js"]).result = .ok report ∧
        "src/scene.js" ∈ report.files) ∧
      ∃ fault, (cloning.lintPaths mixedFolder
        [.ofText "src/scene.js", .ofText longName]).result = .error fault := by
  have hFile : mixedFolder.isFile (.ofText "src/scene.js") = true := by
    decide +kernel
  have hNone : mixedFolder.isFile (.ofText longName) = false := by
    rw [Folder.isFile, locate_longName]
  obtain ⟨fault, hFault, -⟩ : ∃ fault, (cloning.lintPaths mixedFolder
      [.ofText "src/scene.js", .ofText longName]).result = .error fault ∧ _ :=
    exists_refused_lintPaths (by simp) (.itself (locate_longName mixedFolder))
  obtain ⟨report, hReport, hCovers⟩ : ∃ report, (cloning.lintPaths mixedFolder
      [.ofText "src/scene.js"]).result = .ok report ∧
        cloning.Covers mixedFolder [.ofText "src/scene.js"] report := by
    apply exists_covers sound_mixedFolder
    · simp
    · simpa using not_blocked_mixedFolder (by simp [mixedTexts])
    · simpa using fun q => goesOn_mixedFolder (by simp [mixedTexts])
  refine ⟨hFile, hNone, ⟨report, hReport, (hCovers.files _).2 ?_⟩, fault, hFault⟩
  exact ⟨_, List.mem_singleton_self _, _, .itself hFile, by decide +kernel⟩

end HotPath.Linter
