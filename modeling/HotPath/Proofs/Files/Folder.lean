import HotPath.Files.Folder
import HotPath.Proofs.Files.Path

/-! What lies below a folder. A path that leads to a folder can be continued with the parts from
there, and the continued path leads to a file exactly if the folder holds a file with these parts.
This needs a folder as it can be on a disk: parts are names, and no file is a folder. -/

namespace HotPath.Folder

/-- A name that something on a disk can have. -/
structure IsName (part : String) : Prop extends Path.IsPart part where
  notUp : part ≠ ".."
  noNull : '\x00' ∉ part.toList
  short : part.utf8ByteSize ≤ maxPartSize

theorem isName_iff (part : String) :
    IsName part ↔ part ≠ "" ∧ part ≠ "." ∧ '/' ∉ part.toList ∧ part ≠ ".." ∧
      '\x00' ∉ part.toList ∧ part.utf8ByteSize ≤ maxPartSize := by
  constructor
  · rintro ⟨⟨hNonempty, hDot, hSlash⟩, hUp, hNull, hShort⟩
    exact ⟨hNonempty, hDot, hSlash, hUp, hNull, hShort⟩
  · rintro ⟨hNonempty, hDot, hSlash, hUp, hNull, hShort⟩
    exact ⟨⟨hNonempty, hDot, hSlash⟩, hUp, hNull, hShort⟩

instance (part : String) : Decidable (IsName part) := decidable_of_iff' _ (isName_iff part)

/-- Folders as they can be on a disk. -/
structure Sound (f : Folder) : Prop where
  named : ∀ entry ∈ f.listed, ∀ part ∈ entry, IsName part
  apart : ∀ entry ∈ f.files, f.isFolder entry.1 = false

theorem sound_iff (f : Folder) :
    f.Sound ↔ (∀ entry ∈ f.listed, ∀ part ∈ entry, IsName part) ∧
      ∀ entry ∈ f.files, f.isFolder entry.1 = false :=
  ⟨fun h => ⟨h.named, h.apart⟩, fun h => ⟨h.1, h.2⟩⟩

instance (f : Folder) : Decidable f.Sound := decidable_of_iff' _ (sound_iff f)

variable {f : Folder} {here parts rest : List String} {p : Path}

theorem exists_file?_iff :
    (∃ source, f.file? parts = some source) ↔ parts ∈ f.files.map Prod.fst := by
  unfold file?
  constructor
  · rintro ⟨source, hSource⟩
    obtain ⟨before, after, hSplit, -⟩ := List.lookup_eq_some_iff.1 hSource
    have hEntry : (parts, source) ∈ f.files.reverse := by simp [hSplit]
    exact List.mem_map.2 ⟨_, List.mem_reverse.1 hEntry, rfl⟩
  · intro hParts
    obtain ⟨entry, hEntry, rfl⟩ := List.mem_map.1 hParts
    rw [← Option.isSome_iff_exists, Option.isSome_iff_ne_none]
    intro hNone
    simpa using List.lookup_eq_none_iff.1 hNone entry (List.mem_reverse.2 hEntry)

theorem isFolder_of_mem_files {more : List String}
    (h : here ++ more ∈ f.files.map Prod.fst) (hMore : more ≠ []) : f.isFolder here = true := by
  obtain ⟨entry, hEntry, hParts⟩ := List.mem_map.1 h
  simp only [isFolder, Bool.or_eq_true, List.any_eq_true]
  refine .inr ⟨entry, hEntry, ?_⟩
  simp [hParts, hMore]

theorem walk_up (f : Folder) (here more : List String) :
    f.walk here (".." :: more) = f.walk here.dropLast more := by
  simp [walk]

theorem walk_into {part : String} (hUp : part ≠ "..") (hShort : ¬part.utf8ByteSize > maxPartSize)
    (hFolder : f.isFolder (here ++ [part]) = true) (more : List String) :
    f.walk here (part :: more) = f.walk (here ++ [part]) more := by
  simp [walk, hUp, hShort, hFolder]

/-- A way that leads to a folder can be continued from there. -/
theorem walk_append (h : f.walk here parts = .folder rest) (more : List String) :
    f.walk here (parts ++ more) = f.walk rest more := by
  fun_induction walk f here parts with
  | case1 here _ =>
      cases h
      rfl
  | case3 here up ih =>
      rw [List.cons_append, walk_up]
      exact ih h
  | case5 here part up hUp next hShort hFolder ih =>
      rw [List.cons_append, walk_into hUp hShort hFolder]
      exact ih h
  | _ => cases h

theorem isFolder_of_walk (h : f.walk here parts = .folder rest) : f.isFolder rest = true := by
  fun_induction walk f here parts with
  | case1 here hFolder =>
      cases h
      exact hFolder
  | case3 _ _ ih => exact ih h
  | case5 _ _ _ _ _ _ _ ih => exact ih h
  | _ => cases h

/-- Going down from a folder leads to a file exactly if the folder holds it. -/
theorem exists_walk_file_iff (hSound : f.Sound) (hHere : f.isFolder here = true)
    (hDown : ".." ∉ rest) :
    (∃ source, f.walk here rest = .file source) ↔ here ++ rest ∈ f.files.map Prod.fst := by
  induction rest generalizing here with
  | nil =>
      rw [List.append_nil]
      constructor
      · rintro ⟨source, hFile⟩
        simp [walk, hHere] at hFile
      · intro hMem
        obtain ⟨entry, hEntry, rfl⟩ := List.mem_map.1 hMem
        rw [hSound.apart entry hEntry] at hHere
        cases hHere
  | cons part rest ih =>
      rw [List.mem_cons, not_or] at hDown
      have hName : here ++ part :: rest ∈ f.files.map Prod.fst → IsName part := fun hMem =>
        hSound.named _ (List.mem_append_left _ hMem) part (by simp)
      by_cases hLong : part.utf8ByteSize > maxPartSize
      · have hTooLong : f.walk here (part :: rest) = .tooLong := by
          simp [walk, Ne.symm hDown.1, hLong]
        rw [hTooLong]
        exact iff_of_false (by simp) fun hMem => Nat.not_le.2 hLong (hName hMem).short
      by_cases hFolder : f.isFolder (here ++ [part]) = true
      · rw [walk_into (Ne.symm hDown.1) hLong hFolder, ih hFolder hDown.2, List.append_assoc,
          List.singleton_append]
      · -- The next step leaves the folders, so it has to be the last one.
        cases rest with
        | nil =>
            rw [← exists_file?_iff]
            cases hFile : f.file? (here ++ [part]) <;>
              simp [walk, Ne.symm hDown.1, hLong, hFolder, hFile]
        | cons second more =>
            apply iff_of_false
            · cases hFile : f.file? (here ++ [part]) <;>
                simp [walk, Ne.symm hDown.1, hLong, hFolder, hFile]
            · intro hMem
              rw [List.append_cons] at hMem
              exact hFolder (isFolder_of_mem_files hMem (by simp))

theorem null_mem_intercalate_iff (parts : List String) :
    '\x00' ∈ ("/".intercalate parts).toList ↔ ∃ part ∈ parts, '\x00' ∈ part.toList := by
  induction parts with
  | nil => simp
  | cons first rest ih =>
      cases rest with
      | nil => simp
      | cons second more =>
          rw [String.intercalate_cons_cons, String.toList_append, String.toList_append,
            List.mem_append, List.mem_append, ih]
          simp

/-- A null character in a path is one in what it hangs from or in its parts. -/
theorem holdsNull_iff (p : Path) :
    holdsNull p = true ↔ '\x00' ∈ p.anchor.toList ∨ ∃ part ∈ p.parts, '\x00' ∈ part.toList := by
  by_cases hHere : p.anchor = "" ∧ p.parts = []
  · simp [holdsNull, Path.text, hHere]
  · rw [holdsNull, Path.text_eq hHere, List.contains_iff_mem, String.toList_append, List.mem_append,
      null_mem_intercalate_iff]

theorem isFile_iff_locate (f : Folder) (p : Path) :
    f.isFile p = true ↔ ∃ source, f.locate p = .file source := by
  unfold isFile
  cases f.locate p <;> simp

theorem isFile_iff (f : Folder) (p : Path) :
    f.isFile p = true ↔ holdsNull p = false ∧ isTooLong p = false ∧
      ∃ source, f.walk (f.startOf p) p.parts = .file source := by
  rw [isFile_iff_locate]
  unfold locate
  cases hNull : holdsNull p <;> cases hLong : isTooLong p <;> simp

/-- What is known about a path that leads to a folder. -/
structure Leads (f : Folder) (p : Path) (parts : List String) : Prop where
  noNull : holdsNull p = false
  walk : f.walk (f.startOf p) p.parts = .folder parts

theorem leads_of_locate (h : f.locate p = .folder parts) : f.Leads p parts := by
  unfold locate at h
  split at h
  · cases h
  split at h
  · cases h
  · next hNull _ => exact ⟨by simpa using hNull, h⟩

/-- No path leads to a name that is too long. -/
theorem locate_of_long_name {part : String} (hNull : '\x00' ∉ part.toList) (hUp : part ≠ "..")
    (hLong : part.utf8ByteSize > maxPartSize) (f : Folder) : f.locate ⟨"", [part]⟩ = .tooLong := by
  have hHolds : holdsNull ⟨"", [part]⟩ = false := by
    rw [← Bool.not_eq_true, holdsNull_iff]
    simpa using hNull
  have hWalk (here : List String) : f.walk here [part] = .tooLong := by
    simp [walk, hUp, hLong]
  simp [locate, hHolds, hWalk]

/-- The files below a folder are found at the paths that continue the path to the folder, unless
these are too long. -/
theorem isFile_below_iff (hSound : f.Sound) (h : f.locate p = .folder parts)
    (hDown : ".." ∉ rest) :
    f.isFile (p.below rest) = true ↔
      parts ++ rest ∈ f.files.map Prod.fst ∧ isTooLong (p.below rest) = false := by
  obtain ⟨hNull, hWalk⟩ := leads_of_locate h
  have hFile : (∃ source, f.walk (f.startOf (p.below rest)) (p.below rest).parts = .file source) ↔
      parts ++ rest ∈ f.files.map Prod.fst := by
    change (∃ source, f.walk (f.startOf p) (p.parts ++ rest) = .file source) ↔ _
    rw [walk_append hWalk]
    exact exists_walk_file_iff hSound (isFolder_of_walk hWalk) hDown
  have hNoNull : parts ++ rest ∈ f.files.map Prod.fst → holdsNull (p.below rest) = false := by
    intro hMem
    rw [← Bool.not_eq_true, holdsNull_iff] at hNull ⊢
    rintro (hAnchor | ⟨part, hPart, hHolds⟩)
    · exact hNull (.inl hAnchor)
    rcases List.mem_append.1 hPart with hPart | hPart
    · exact hNull (.inr ⟨part, hPart, hHolds⟩)
    · have hNamed := hSound.named _ (List.mem_append_left _ hMem) part
        (List.mem_append_right _ hPart)
      exact hNamed.noNull hHolds
  rw [isFile_iff, hFile]
  constructor
  · rintro ⟨-, hShort, hMem⟩
    exact ⟨hMem, hShort⟩
  · rintro ⟨hMem, hShort⟩
    exact ⟨hNoNull hMem, hShort, hMem⟩

/-- A folder is not one of the files below it. -/
theorem Sound.ne_nil_of_mem_files (hSound : f.Sound) (h : f.locate p = .folder parts)
    (hMem : parts ++ rest ∈ f.files.map Prod.fst) : rest ≠ [] := by
  rintro rfl
  obtain ⟨entry, hEntry, hParts⟩ := List.mem_map.1 hMem
  have hFolder := isFolder_of_walk (leads_of_locate h).walk
  rw [List.append_nil] at hParts
  rw [← hParts, hSound.apart entry hEntry] at hFolder
  cases hFolder

theorem mem_filesBelow_iff : rest ∈ f.filesBelow parts ↔ parts ++ rest ∈ f.files.map Prod.fst := by
  simp only [filesBelow, List.mem_map, List.mem_filter]
  constructor
  · rintro ⟨entry, ⟨hEntry, hPrefix⟩, rfl⟩
    exact ⟨entry, hEntry, (List.prefix_iff_eq_append.1 (List.isPrefixOf_iff_prefix.1 hPrefix)).symm⟩
  · rintro ⟨entry, hEntry, hParts⟩
    exact ⟨entry, ⟨hEntry, by simp [hParts]⟩, by simp [hParts]⟩

/-- Below a folder are the parts from there of everything that is listed, and all beginnings. -/
theorem mem_entriesBelow_iff :
    rest ∈ f.entriesBelow parts ↔ rest ≠ [] ∧ ∃ more, parts ++ (rest ++ more) ∈ f.listed := by
  simp only [entriesBelow, List.mem_flatMap, List.mem_map, List.mem_filter, List.mem_range]
  constructor
  · rintro ⟨entry, ⟨hEntry, hPrefix⟩, n, hn, rfl⟩
    obtain ⟨whole, rfl⟩ := List.isPrefixOf_iff_prefix.1 hPrefix
    rw [List.drop_left] at hn ⊢
    refine ⟨?_, whole.drop (n + 1), by rwa [List.take_append_drop]⟩
    intro hNone
    have hLength := congrArg List.length hNone
    simp only [List.length_take, List.length_nil] at hLength
    omega
  · rintro ⟨hSome, more, hListed⟩
    have hLength : 0 < rest.length := List.length_pos_iff.2 hSome
    refine ⟨_, ⟨hListed, by simp⟩, rest.length - 1, ?_, ?_⟩
    · simp only [List.drop_left, List.length_append]
      omega
    · rw [List.drop_left, Nat.sub_add_cancel hLength, List.take_left]

end HotPath.Folder
