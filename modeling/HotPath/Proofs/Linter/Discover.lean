import HotPath.Linter.Files
import HotPath.Proofs.Files.Folder
import HotPath.Proofs.Task
import Mathlib.Data.List.Induction

/-! Which files a run finds. Every path stands for files, and a run finds the files of all its
paths, each once and in order, unless it meets a path that is too long: then it ends without a list.
-/

namespace HotPath.Linter

/-- The files that a path stands for: itself, or, if it leads to a folder, the files below that are
written in a known language, do not only declare types and lie in no excluded folder. -/
inductive StandsFor (folder : Folder) (p : Path) : Path → Prop
  | itself (hFile : folder.isFile p = true) : StandsFor folder p p
  | below {parts rest : List String} (hFolder : folder.locate p = .folder parts)
      (hDown : ".." ∉ rest) (hFile : folder.isFile (p.below rest) = true)
      (hLanguage : (Language.ofPath? (p.below rest)).isSome = true)
      (hDefines : ¬".d.ts".toList <:+ (p.below rest).name.toList)
      (hOwn : ∀ part ∈ rest.dropLast, part ∉ excludedFolders) : StandsFor folder p (p.below rest)

/-- Looking for the files of a path meets a path that is too long: itself, or one of something below
the folder that it leads to. -/
inductive Blocked (folder : Folder) (p : Path) : Prop
  | itself (hLong : folder.locate p = .tooLong)
  | below {parts rest more : List String} (hFolder : folder.locate p = .folder parts)
      (hSome : rest ≠ []) (hListed : parts ++ (rest ++ more) ∈ folder.listed)
      (hLong : Folder.isTooLong (p.below rest) = true)

/-- The files of a path, if all paths are short enough. -/
def filesOf (folder : Folder) (p : Path) : List Path :=
  match folder.locate p with
  | .file _ => [p]
  | .folder parts => ((folder.filesBelow parts).filter isWanted).map p.below
  | _ => []

variable {folder : Folder} {p q : Path} {ps : List Path} {rest : List String}

theorem isWanted_iff (p : Path) (hRest : rest ≠ []) :
    isWanted rest = true ↔ (Language.ofPath? (p.below rest)).isSome = true ∧
      ¬".d.ts".toList <:+ (p.below rest).name.toList ∧
      ∀ part ∈ rest.dropLast, part ∉ excludedFolders := by
  have hName : (p.below rest).name = (Path.mk "" rest).name := by
    simp [Path.name, Path.below, List.getLast?_append_of_ne_nil _ hRest]
  have hLanguage : Language.ofPath? (p.below rest) = Language.ofPath? ⟨"", rest⟩ := by
    simp only [Language.ofPath?, Path.suffix, hName]
  rw [hName, hLanguage, ← List.isSuffixOf_iff_suffix]
  simp only [isWanted, Bool.and_eq_true, Bool.not_eq_true', Bool.not_eq_true, and_assoc,
    List.any_eq_false, List.contains_iff_mem]

/-- A path that meets nothing too long gives its files. -/
theorem yields_filesAt (h : ¬Blocked folder p) :
    Task.Yields (filesAt folder p) () (filesOf folder p) () := by
  unfold filesAt filesOf
  cases hLocated : folder.locate p with
  | file source => exact Task.Yields.pure _ _
  | folder parts =>
      have hShort : ((folder.entriesBelow parts).map p.below).find? Folder.isTooLong = none := by
        rw [List.find?_eq_none]
        intro q hq hLong
        obtain ⟨rest, hRest, rfl⟩ := List.mem_map.1 hq
        obtain ⟨hSome, more, hListed⟩ := Folder.mem_entriesBelow_iff.1 hRest
        exact h (.below hLocated hSome hListed hLong)
      simp only [hShort]
      exact Task.Yields.pure _ _
  | missing => exact Task.Yields.bind ⟨rfl, rfl⟩ (Task.Yields.pure _ _)
  | belowFile => exact Task.Yields.bind ⟨rfl, rfl⟩ (Task.Yields.pure _ _)
  | tooLong => exact absurd (.itself hLocated) h

/-- A path that meets something too long ends the search. -/
theorem result_filesAt_of_blocked (h : Blocked folder p) :
    ∃ fault, ((filesAt folder p).run ()).result = .error fault := by
  unfold filesAt
  cases h with
  | itself hLong =>
      rw [hLong]
      exact ⟨_, rfl⟩
  | @below parts rest more hFolder hSome hListed hLong =>
      rw [hFolder]
      have hRest : rest ∈ folder.entriesBelow parts :=
        Folder.mem_entriesBelow_iff.2 ⟨hSome, more, hListed⟩
      obtain ⟨q, hq⟩ := Option.isSome_iff_exists.1
        (List.find?_isSome.2 ⟨_, List.mem_map_of_mem hRest, hLong⟩)
      simp only [hq]
      exact ⟨_, rfl⟩

/-- Whether a path is short enough can be computed. -/
theorem not_blocked_of_isSome (h : ((filesAt folder p).run ()).result.toOption.isSome = true) :
    ¬Blocked folder p := by
  intro hBlocked
  obtain ⟨fault, hFault⟩ := result_filesAt_of_blocked hBlocked
  rw [hFault] at h
  cases h

/-- Nothing but paths that are too long stops the search for files. -/
theorem keeps_filesAt (folder : Folder) (p : Path) :
    Task.Keeps (fun fault => fault.cause = .refused) Anywhere (filesAt folder p) := by
  have hStop (q : Path) :
      Task.Keeps (fun fault => fault.cause = .refused) Anywhere (stopAt q) := Task.Keeps.stop rfl
  have hNote : Task.Keeps (fun fault => fault.cause = .refused) Anywhere
      (do Task.note (.pathMissing p.text); return [] : Task Unit (List Path)) :=
    ⟨fun _ => FailsOnly.ok [], fun _ => trivial⟩
  unfold filesAt
  cases folder.locate p with
  | file source => exact Task.Keeps.pure _
  | folder parts =>
      dsimp only
      split
      · exact hStop _
      · exact Task.Keeps.pure _
  | missing => exact hNote
  | belowFile => exact hNote
  | tooLong => exact hStop p

/-- A path that leads to no folder can stand for itself only. -/
theorem standsFor_iff_of_no_folder (h : ∀ parts, folder.locate p ≠ .folder parts) :
    StandsFor folder p q ↔ folder.isFile p = true ∧ q = p := by
  constructor
  · rintro (hFile | ⟨hFolder, -⟩)
    · exact ⟨hFile, rfl⟩
    · exact absurd hFolder (h _)
  · rintro ⟨hFile, rfl⟩
    exact .itself hFile

/-- A path that leads to a folder stands for the wanted files below. -/
theorem standsFor_iff_of_folder {parts : List String} (hSound : folder.Sound)
    (hShort : ¬Blocked folder p) (hLocated : folder.locate p = .folder parts) :
    StandsFor folder p q ↔
      ∃ rest, parts ++ rest ∈ folder.files.map Prod.fst ∧ isWanted rest = true ∧
        p.below rest = q := by
  constructor
  · rintro (hFile | ⟨hFolder, hDown, hBelow, hLanguage, hDefines, hOwn⟩)
    · obtain ⟨source, hIs⟩ := (folder.isFile_iff_locate p).1 hFile
      rw [hLocated] at hIs
      cases hIs
    · rw [hLocated] at hFolder
      cases hFolder
      have hMem := ((Folder.isFile_below_iff hSound hLocated hDown).1 hBelow).1
      have hSome := hSound.ne_nil_of_mem_files hLocated hMem
      exact ⟨_, hMem, (isWanted_iff p hSome).2 ⟨hLanguage, hDefines, hOwn⟩, rfl⟩
  · rintro ⟨rest, hMem, hWanted, rfl⟩
    have hListed : parts ++ rest ∈ folder.listed := List.mem_append_left _ hMem
    have hSome := hSound.ne_nil_of_mem_files hLocated hMem
    have hDown : ".." ∉ rest := fun hUp =>
      (hSound.named _ hListed _ (List.mem_append_right _ hUp)).notUp rfl
    have hFits : Folder.isTooLong (p.below rest) = false := by
      rw [← Bool.not_eq_true]
      intro hLong
      exact hShort (.below hLocated hSome (by rwa [List.append_nil]) hLong)
    have hFound := (Folder.isFile_below_iff hSound hLocated hDown).2 ⟨hMem, hFits⟩
    obtain ⟨hLanguage, hDefines, hOwn⟩ := (isWanted_iff p hSome).1 hWanted
    exact .below hLocated hDown hFound hLanguage hDefines hOwn

theorem mem_filesOf_iff (hSound : folder.Sound) (hShort : ¬Blocked folder p) :
    q ∈ filesOf folder p ↔ StandsFor folder p q := by
  have hFile := folder.isFile_iff_locate p
  unfold filesOf
  cases hLocated : folder.locate p with
  | folder parts =>
      rw [standsFor_iff_of_folder hSound hShort hLocated]
      simp only [List.mem_map, List.mem_filter, Folder.mem_filesBelow_iff, and_assoc]
  | _ =>
      rw [standsFor_iff_of_no_folder (by simp [hLocated])]
      simp [hFile, hLocated]

theorem distinct_append (ps : List Path) (p : Path) :
    distinct (ps ++ [p]) = if p ∈ distinct ps then distinct ps else distinct ps ++ [p] := by
  simp [distinct, List.foldl_append]

theorem mem_distinct_iff : q ∈ distinct ps ↔ q ∈ ps := by
  induction ps using List.reverseRecOn with
  | nil => simp [distinct]
  | append_singleton ps p ih =>
      rw [distinct_append, List.mem_append, List.mem_singleton, ← ih]
      split
      · next hp =>
          constructor
          · exact .inl
          · rintro (hq | rfl)
            · exact hq
            · exact hp
      · rw [List.mem_append, List.mem_singleton]

theorem nodup_distinct (ps : List Path) : (distinct ps).Nodup := by
  induction ps using List.reverseRecOn with
  | nil => exact List.nodup_nil
  | append_singleton ps p ih =>
      rw [distinct_append]
      split
      · exact ih
      · next hp =>
          refine List.nodup_append.2 ⟨ih, List.pairwise_singleton _ p, fun q hq r hr hqr => hp ?_⟩
          rwa [← List.mem_singleton.1 hr, ← hqr]

theorem StandsFor.isFile (h : StandsFor folder p q) : folder.isFile q = true := by
  cases h with
  | itself hFile => exact hFile
  | below _ _ hFile => exact hFile

/-- The files found are the ones that the paths stand for, each once and in order. -/
structure Finds (folder : Folder) (ps files : List Path) : Prop where
  mem_iff : ∀ q, q ∈ files ↔ ∃ p ∈ ps, StandsFor folder p q
  ordered : files.Pairwise fun a b => a.precedes b = true ∧ a ≠ b

/-- Without paths that are too long, a run finds its files. -/
theorem exists_finds (hSound : folder.Sound) (h : ∀ p ∈ ps, ¬Blocked folder p) :
    ∃ files, ((discover folder ps).run ()).result = .ok files ∧ Finds folder ps files := by
  have hFound := Task.Yields.collect fun p hp => yields_filesAt (h p hp)
  have hMem (q : Path) :
      q ∈ (ps.map (filesOf folder)).flatten ↔ ∃ p ∈ ps, StandsFor folder p q := by
    simp only [List.mem_flatten, List.mem_map]
    constructor
    · rintro ⟨_, ⟨p, hp, rfl⟩, hq⟩
      exact ⟨p, hp, (mem_filesOf_iff hSound (h p hp)).1 hq⟩
    · rintro ⟨p, hp, hq⟩
      exact ⟨_, ⟨p, hp, rfl⟩, (mem_filesOf_iff hSound (h p hp)).2 hq⟩
  let found := distinct (ps.map (filesOf folder)).flatten
  have hDiscover : Task.Yields (discover folder ps) () (found.mergeSort Path.precedes) () :=
    hFound.bind (Task.Yields.pure _ ())
  have hFiles (q : Path) :
      q ∈ found.mergeSort Path.precedes ↔ ∃ p ∈ ps, StandsFor folder p q := by
    rw [List.mem_mergeSort, mem_distinct_iff, hMem]
  refine ⟨_, hDiscover.result, hFiles, ?_⟩
  have hOrdered := List.pairwise_mergeSort Path.precedes_trans Path.precedes_total found
  have hOnce := (List.mergeSort_perm found Path.precedes).nodup_iff.2 (nodup_distinct _)
  exact hOrdered.and hOnce

/-- With a path that is too long there is no list of files. -/
theorem exists_refused {p : Path} (hp : p ∈ ps) (h : Blocked folder p) :
    ∃ fault, ((discover folder ps).run ()).result = .error fault ∧ fault.cause = .refused := by
  have hKeeps : Task.Keeps (fun fault => fault.cause = .refused) Anywhere (discover folder ps) :=
    Task.Keeps.bind (Task.Keeps.collect fun p _ => keeps_filesAt folder p)
      fun _ => Task.Keeps.pure _
  cases hResult : ((discover folder ps).run ()).result with
  | error fault => exact ⟨fault, rfl, hKeeps.fault () fault hResult⟩
  | ok files =>
      obtain ⟨found, hFound, -⟩ := Task.exists_of_bind_ok hResult
      obtain ⟨_, qs, hOk⟩ := Task.exists_ok_of_collect_ok hFound hp
      obtain ⟨fault, hError⟩ := result_filesAt_of_blocked h
      rw [hError] at hOk
      cases hOk

end HotPath.Linter
