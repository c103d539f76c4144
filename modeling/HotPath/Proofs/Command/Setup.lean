import HotPath.Proofs.Command.PairTable
import HotPath.Proofs.Linter.Layers

/-! The stages of setting up a linter for a request: the entries that the preset and the project
give, those of them that are selected, those with names from the command line, and the linter that is
built of these. -/

namespace HotPath

open Checks

/-- A value that can be a key names a preset or is refused as an unknown one. -/
theorem Preset.explained_ofValue {v : Value} (h : v.isKey = true) :
    Explained (Preset.ofValue v) := by
  intro e hError
  unfold Preset.ofValue at hError
  split at hError
  · split at hError
    · cases hError
    · cases hError
      exact ⟨_, rfl⟩
  · simp only [h, if_true] at hError
    cases hError
    exact ⟨_, rfl⟩

namespace LintRequest

variable {r : LintRequest} {folder : Folder} {settings : Settings} {l : Linter} {name : RawText}
  {project : List (RawText × Value)} {entries changed selected : OrderedMap RawText Entry}
  {entry entry' : Entry}

theorem linter_of_load
    (h : ConfigFile.load folder (r.config.getD settings.configFile) = .ok project) :
    r.linter folder settings = (r.setUp project settings).mapError .setup := by
  simp only [linter, h]

/-- The depth for rules that leave it open: the command line's, or else the environment's. -/
def openDepth (r : LintRequest) (settings : Settings) : Except ConfigError Int :=
  match r.maxCallDepth with
  | some depth => .ok depth
  | none => settings.maxCallDepth

theorem setUp_eq (r : LintRequest) (project : List (RawText × Value)) (settings : Settings) :
    r.setUp project settings = ((r.openDepth settings).mapError .config >>= fun depth =>
      r.choosePreset project settings >>= fun preset =>
      r.selectRules (baseEntries preset project) >>= fun selected =>
      r.overrideNames selected >>= fun changed => Linter.ofEntries changed (some depth)) := by
  unfold setUp openDepth
  cases r.maxCallDepth <;> rfl

theorem exists_of_setUp (h : r.setUp project settings = .ok l) :
    ∃ depth preset selected changed, r.openDepth settings = .ok depth ∧
      r.choosePreset project settings = .ok preset ∧
      r.selectRules (baseEntries preset project) = .ok selected ∧
      r.overrideNames selected = .ok changed ∧ Linter.ofEntries changed (some depth) = .ok l := by
  simp only [setUp_eq, bind_eq_ok_iff, mapError_eq_ok_iff] at h
  obtain ⟨depth, hDepth, preset, hPreset, selected, hSelected, changed, hChanged, hBuilt⟩ := h
  exact ⟨depth, preset, selected, changed, hDepth, hPreset, hSelected, hChanged, hBuilt⟩

theorem explained_choosePreset (r : LintRequest) (project : List (RawText × Value))
    (settings : Settings) : Explained (r.choosePreset project settings) := by
  unfold choosePreset
  split
  · intro e h
    cases h
  · exact Preset.explained_ofValue rfl

/-- The entries that the command line starts from are those that the library starts from. -/
theorem baseEntries_eq_overlay (preset : Preset) (project : List (RawText × Value)) :
    baseEntries preset project =
      Linter.overlay preset.entries (Linter.writtenRules (.object project)) := by
  unfold baseEntries projectEntries Linter.writtenRules
  simp only [Value.member?]
  split
  · next members hRules =>
      rw [OrderedMap.update_ofList, Linter.overlay_eq, hRules]
      rfl
  · next hOther =>
      cases hRules : project.lookup (.plain "rules") with
      | none => rfl
      | some v =>
          cases v with
          | object members => exact absurd hRules (hOther members)
          | _ => rfl

theorem get?_baseEntries (preset : Preset) (project : List (RawText × Value)) (name : RawText) :
    (baseEntries preset project).get? name =
      Linter.inEffect? preset.entries (Linter.writtenRules (.object project)) name := by
  rw [baseEntries_eq_overlay, Linter.get?_overlay]

theorem distinct_baseEntries (preset : Preset) (project : List (RawText × Value)) :
    (baseEntries preset project).Distinct := by
  rw [baseEntries_eq_overlay]
  exact Linter.distinct_overlay preset.distinct_entries _

/-- The options that the project writes for a name. -/
def projectOptions (project : List (RawText × Value)) (name : RawText) : Value :=
  ((Linter.lastWritten? (Linter.writtenRules (.object project)) name).map
    Entry.writtenOptions).getD .null

/-- An entry has the options that the project writes for its name, since presets write none. -/
theorem ofRaw_of_get?_baseEntries {preset : Preset} {setting : Setting}
    (h : (baseEntries preset project).get? name = some entry)
    (hRead : entry.read name = .ok setting) :
    PairTable.ofRaw setting.options = PairTable.ofValue (projectOptions project name) := by
  rw [get?_baseEntries, Linter.inEffect?] at h
  unfold projectOptions
  cases hWritten : Linter.lastWritten? (Linter.writtenRules (.object project)) name with
  | some v =>
      rw [hWritten] at h
      cases h
      rw [Entry.options_of_read hRead]
      rfl
  | none =>
      rw [hWritten] at h
      obtain ⟨_, severity, -, rfl⟩ := Preset.exists_of_get?_entries h
      rw [Entry.options_of_read hRead]
      rfl

/-- What a rule that is named on the command line is set to. -/
def Selected (entries : OrderedMap RawText Entry) (name : RawText) (entry : Entry) : Prop :=
  ∃ (rule : Rule) (setting : Setting), name = rule.id ∧
    ((entries.get? name).getD (.written (.text "error"))).read name = .ok setting ∧
    entry = .settled .error (givenOptions setting.options)

theorem mem_of_selectRules (h : r.selectRules entries = .ok selected)
    (hMem : (name, entry) ∈ selected.entries) :
    (r.rules = [] ∧ (name, entry) ∈ entries.entries) ∨ Selected entries name entry := by
  unfold selectRules at h
  split at h
  · next hNone =>
      cases h
      exact .inl ⟨by simpa using hNone, hMem⟩
  · right
    refine foldlM_keeps (fun m : OrderedMap RawText Entry =>
      ∀ p ∈ m.entries, Selected entries p.1 p.2) ?_ ?_ h (name, entry) hMem
    · intro m written m' hm hStep p hp
      dsimp only at hStep
      split at hStep
      · cases hStep
      · next rule hRule =>
          split at hStep
          · cases hStep
          · next setting hRead =>
              cases hStep
              rcases OrderedMap.eq_or_mem_of_mem_insert hp with rfl | hOld
              · exact ⟨rule, setting, Rule.ofPlainId?_eq_some_iff.1 hRule, hRead, rfl⟩
              · exact hm p hOld
    · intro p hp
      cases hp

/-- Selecting rules does not change what the project writes for them. -/
theorem ofRaw_of_mem_selectRules {preset : Preset} {setting : Setting}
    (h : r.selectRules (baseEntries preset project) = .ok selected)
    (hMem : (name, entry) ∈ selected.entries) (hRead : entry.read name = .ok setting) :
    PairTable.ofRaw setting.options = PairTable.ofValue (projectOptions project name) := by
  rcases mem_of_selectRules h hMem with ⟨-, hBase⟩ | ⟨_, base, -, hBase, rfl⟩
  · rw [(distinct_baseEntries preset project).mem_entries_iff] at hBase
    exact ofRaw_of_get?_baseEntries hBase hRead
  · cases hRead
    rw [PairTable.ofRaw_givenOptions]
    cases hEntry : (baseEntries preset project).get? name with
    | some entry =>
        rw [hEntry] at hBase
        exact ofRaw_of_get?_baseEntries hEntry hBase
    | none =>
        -- a rule that nothing configures is selected without options
        rw [hEntry] at hBase
        rw [get?_baseEntries, Linter.inEffect?, Option.or_eq_none_iff,
          Option.map_eq_none_iff] at hEntry
        rw [Entry.options_of_read hBase, projectOptions, hEntry.1]
        rfl

/-- The options of an entry that is on are laid out in a table and changed there, if the rule is
known by its own name. Other entries stay as they are. -/
theorem overrideEntry_cases (h : r.overrideEntry name entry = .ok entry') :
    ∃ setting, entry.read name = .ok setting ∧
      ((entry' = entry ∧ (setting.severity = none ∨ Rule.ofPlainId? name = none)) ∨
        ∃ severity rule t, setting.severity = some severity ∧ Rule.ofPlainId? name = some rule ∧
          PairTable.ofRaw setting.options = .ok t ∧
          entry' = .settled severity (.members (override rule .bannedOperations r.banned
            (override rule .frameLoopApis r.frameApis t)))) := by
  unfold overrideEntry at h
  split at h
  · cases h
  · next options hRead =>
      cases h
      exact ⟨_, hRead, .inl ⟨rfl, .inl rfl⟩⟩
  · next severity options hRead =>
      refine ⟨_, hRead, ?_⟩
      split at h
      · next hUnknown =>
          cases h
          exact .inl ⟨rfl, .inr hUnknown⟩
      · next rule hRule =>
          split at h
          · cases h
          · next t hTable =>
              cases h
              exact .inr ⟨severity, rule, t, rfl, hRule, hTable, rfl⟩

/-- Every entry with names from the command line comes from one that was selected. -/
theorem exists_of_mem_overrideNames (h : r.overrideNames entries = .ok changed)
    (hMem : (name, entry') ∈ changed.entries) :
    ∃ entry, (name, entry) ∈ entries.entries ∧
      ((r.frameApis = [] ∧ r.banned = [] ∧ entry' = entry) ∨
        r.overrideEntry name entry = .ok entry') := by
  unfold overrideNames at h
  split at h
  · next hNone =>
      cases h
      have hNames : r.frameApis = [] ∧ r.banned = [] := by simpa using hNone
      exact ⟨entry', hMem, .inl ⟨hNames.1, hNames.2, rfl⟩⟩
  · obtain ⟨pairs, hPairs, hChanged⟩ := bind_eq_ok_iff.1 h
    cases hChanged
    obtain ⟨⟨id, entry⟩, hOld, hResult⟩ := exists_of_mem_mapM hPairs hMem
    obtain ⟨_, hEntry, hPair⟩ := bind_eq_ok_iff.1 hResult
    cases hPair
    exact ⟨entry, hOld, .inr hEntry⟩

end LintRequest

end HotPath
