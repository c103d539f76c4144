import HotPath.Proofs.Command.Setup
import HotPath.Proofs.Project.ConfigFile

/-! Where the options of a rule come from. Names from the command line come before those of the
project, and these before the rule's own. A depth from the command line only stands in for one that
the project leaves open, as the environment's does: the project's depth comes first.

The options are followed from stage to stage. Every entry that is selected has the options that the
project writes for it, the names are then set in the table of these options, and the rule is built
with what the table gives. -/

namespace HotPath

open Checks RuleOptions

namespace LintRequest

variable {r : LintRequest} {folder : Folder} {settings : Settings} {l : Linter} {name : RawText}
  {project : List (RawText × Value)} {preset : Preset} {entry : Entry} {rule : Rule}
  {entries changed selected : OrderedMap RawText Entry} {t : PairTable} {e : RuleEntry}
  {depth : Int}

/-- The value that the project gives for an option of the rule with a name. -/
def projectOption? (project : List (RawText × Value)) (name : RawText) (n : OptionName) :
    Option Value :=
  given? ((PairTable.ofValue (projectOptions project name)).toOption.getD []) n

/-- The names that the command line gives for an option. -/
def namesFor (r : LintRequest) : OptionName → List String
  | .frameLoopApis => r.frameApis
  | .bannedOperations => r.banned
  | _ => []

/-- The value that the command line gives for an option of the rule with a name. -/
def commandOption? (r : LintRequest) (name : RawText) (n : OptionName) : Option Value :=
  match Rule.ofPlainId? name with
  | some rule =>
    if n ∈ rule.options ∧ r.namesFor n ≠ [] then some (.list ((r.namesFor n).map .text)) else none
  | none => none

theorem proper_projectOptions (hProper : (Value.object project).Proper) (name : RawText) :
    (projectOptions project name).Proper := by
  have hRules : (((Value.object project).member? "rules").getD .null).Proper := by
    cases hMember : (Value.object project).member? "rules" with
    | none => exact .atom rfl
    | some rules => exact hProper.of_member? hMember
  unfold projectOptions
  cases hWritten : Linter.lastWritten? (Linter.writtenRules (.object project)) name with
  | none => exact .atom rfl
  | some v =>
      obtain ⟨m, hFind, rfl⟩ := Option.map_eq_some_iff.1 hWritten
      have hEntry := hRules.of_mem_members (List.mem_reverse.1 (List.mem_of_find?_eq_some hFind))
      simp only [Option.map_some, Option.getD_some]
      unfold Entry.writtenOptions
      split
      · next hList =>
          rw [hList] at hEntry
          exact hEntry.of_mem_items (by simp)
      · exact .atom rfl

theorem given?_override (h : t.Unambiguous) (rule : Rule) (option : OptionName)
    (names : List String) (n : OptionName) :
    (override rule option names t).Unambiguous ∧
      given? (override rule option names t) n =
        if n = option ∧ n ∈ rule.options ∧ names ≠ [] then some (.list (names.map .text))
        else given? t n := by
  unfold override
  by_cases hSet : names.isEmpty || !rule.options.contains option
  · rw [if_pos hSet]
    refine ⟨h, ?_⟩
    rw [if_neg]
    rintro ⟨rfl, hOption, hNames⟩
    simp_all
  · rw [if_neg hSet]
    refine ⟨h.put _ _, ?_⟩
    rw [PairTable.given?_put h]
    by_cases hn : n = option
    · subst hn
      simp_all
    · simp [hn]

theorem commandOption?_of_known (hRule : Rule.ofPlainId? name = some rule) (n : OptionName) :
    r.commandOption? name n = if n ∈ rule.options ∧ r.namesFor n ≠ [] then
      some (.list ((r.namesFor n).map .text)) else none := by
  simp only [commandOption?, hRule]

theorem commandOption?_of_no_names (hApis : r.frameApis = []) (hBanned : r.banned = [])
    (name : RawText) (n : OptionName) : r.commandOption? name n = none := by
  have hNames : r.namesFor n = [] := by cases n <;> simp [namesFor, hApis, hBanned]
  unfold commandOption?
  split <;> simp [hNames]

/-- Names from the command line come first, then what the project gives. -/
theorem given?_of_mem_overrideNames (hProper : (Value.object project).Proper)
    (hSelected : r.selectRules (baseEntries preset project) = .ok selected)
    (hChanged : r.overrideNames selected = .ok changed) (hMem : (name, entry) ∈ changed.entries)
    {severity : Severity} {options : RawOptions}
    (hRead : entry.read name = .ok ⟨some severity, options⟩)
    (hTable : PairTable.ofRaw options = .ok t) (n : OptionName) :
    given? t n = (r.commandOption? name n).or (projectOption? project name n) := by
  obtain ⟨old, hOld, hEntry⟩ := exists_of_mem_overrideNames hChanged hMem
  have hProject {setting : Setting} {first : PairTable} (hRead : old.read name = .ok setting)
      (hFirst : PairTable.ofRaw setting.options = .ok first) :
      PairTable.ofValue (projectOptions project name) = .ok first := by
    rw [← ofRaw_of_mem_selectRules hSelected hOld hRead, hFirst]
  rcases hEntry with ⟨hApis, hBanned, rfl⟩ | hEntry
  · rw [commandOption?_of_no_names hApis hBanned, projectOption?, hProject hRead hTable]
    rfl
  · obtain ⟨setting, hSetting, hCase⟩ := overrideEntry_cases hEntry
    rcases hCase with ⟨rfl, hSame⟩ | ⟨_, rule, first, -, hRule, hFirst, rfl⟩
    · -- the entry is on, so it was left alone because its name is not a rule's own
      have hUnknown : Rule.ofPlainId? name = none := by
        rcases hSame with hOff | hUnknown
        · rw [hSetting] at hRead
          cases hRead
          cases hOff
        · exact hUnknown
      simp only [commandOption?, hUnknown, Option.none_or, projectOption?, hProject hRead hTable]
      rfl
    · cases hRead
      cases hTable
      have hFirst := hProject hSetting hFirst
      have hUnambiguous :=
        PairTable.unambiguous_of_ofValue (proper_projectOptions hProper name) hFirst
      have hGiven : projectOption? project name n = given? first n := by
        rw [projectOption?, hFirst]
        rfl
      obtain ⟨hMiddle, hApis⟩ :=
        given?_override hUnambiguous rule .frameLoopApis r.frameApis n
      rw [(given?_override hMiddle rule .bannedOperations r.banned n).2, hApis, hGiven,
        commandOption?_of_known hRule]
      cases n with
      | frameLoopApis =>
          by_cases hOption : OptionName.frameLoopApis ∈ rule.options <;>
            by_cases hNames : r.frameApis = [] <;> simp [namesFor, hOption, hNames]
      | bannedOperations =>
          by_cases hOption : OptionName.bannedOperations ∈ rule.options <;>
            by_cases hNames : r.banned = [] <;> simp [namesFor, hOption, hNames]
      | _ => simp [namesFor]

/-- The names under which a rule can have been configured. The qualified name needs an entry of the
project with the plugin twice in front, and no selection. -/
def ConfiguredAs (r : LintRequest) (project : List (RawText × Value)) (rule : Rule)
    (name : RawText) : Prop :=
  name = rule.id ∨ (name = rule.qualifiedId ∧ r.rules = [] ∧
    ∃ m ∈ Linter.writtenRules (.object project), m.1 = Rule.inPlugin rule.qualifiedId)

theorem configuredAs_of_mem_selectRules
    (h : r.selectRules (baseEntries preset project) = .ok selected)
    (hMem : (name, entry) ∈ selected.entries) (hRule : Rule.ofName? name = some rule) :
    r.ConfiguredAs project rule name := by
  rcases Rule.ofName?_eq_some_iff.1 hRule with hName | rfl
  · exact .inl hName
  · right
    rcases mem_of_selectRules h hMem with ⟨hRules, hBase⟩ | ⟨other, _, hOther, -⟩
    · refine ⟨rfl, hRules, ?_⟩
      by_contra hAbsent
      push Not at hAbsent
      rw [(distinct_baseEntries preset project).mem_entries_iff, get?_baseEntries,
        Linter.inEffect?_qualifiedId hAbsent] at hBase
      cases hBase
    · exact absurd (RawText.plain.inj hOther) (Rule.qualifiedId_ne_id rule other)

/-- Where every option of a run comes from. -/
theorem get_of_mem_built (hProper : (Value.object project).Proper)
    (hSelected : r.selectRules (baseEntries preset project) = .ok selected)
    (hChanged : r.overrideNames selected = .ok changed)
    (hBuilt : Linter.ofEntries changed (some depth) = .ok l) (he : e ∈ l.entries) :
    ∃ name, r.ConfiguredAs project e.rule name ∧ ∀ n, e.options.get n =
      (((r.commandOption? name n).or (projectOption? project name n)).map n.accepted).getD
        ((Linter.defaultsFor (some depth) e.rule).get n) := by
  obtain ⟨name, entry, hMem, hRun⟩ := Linter.exists_of_mem_ofEntries hBuilt he
  obtain ⟨hRule, options, hRead, hOptions⟩ := Linter.setUp_eq_some_iff.1 hRun
  obtain ⟨t, hTable, hMembers⟩ := PairTable.exists_of_ofRaw hOptions
  obtain ⟨old, hOld, -⟩ := exists_of_mem_overrideNames hChanged hMem
  refine ⟨name, configuredAs_of_mem_selectRules hSelected hOld hRule, ?_⟩
  intro n
  rw [get_of_ofMembers hMembers n,
    given?_of_mem_overrideNames hProper hSelected hChanged hMem hRead hTable]

/-- Where the depth and the names of a run come from. A depth that the project gives comes before
the open one. Names from the command line come before the project's, and these before the rule's
own; the command line does not reach an entry under the qualified name. -/
structure Precedence (r : LintRequest) (project : List (RawText × Value)) (depth : Int)
    (name : RawText) (e : RuleEntry) : Prop where
  depth : .int e.options.maxCallDepth =
    (projectOption? project name .maxCallDepth).getD (.int depth)
  names : ∀ n ∈ [OptionName.frameLoopApis, .bannedOperations], n ∈ e.rule.options →
    e.options.get n =
      if name = e.rule.id ∧ r.namesFor n ≠ [] then
        .list ((NameSet.ofTexts (r.namesFor n)).names.map .str)
      else ((projectOption? project name n).map n.accepted).getD (e.rule.defaults.get n)

/-- The depth of every run is the project's if it gives one, or else the command line's if it gives
one, or else the environment's. The names are the command line's, or else the project's, or else the
rule's own. -/
theorem linter_precedence
    (hLoad : ConfigFile.load folder (r.config.getD settings.configFile) = .ok project)
    (hLinter : r.linter folder settings = .ok l) :
    ∃ depth, r.openDepth settings = .ok depth ∧ ∀ e ∈ l.entries, ∃ name,
      r.ConfiguredAs project e.rule name ∧ r.Precedence project depth name e := by
  have hProper := (ConfigFile.accepted_of_load hLoad).proper
  rw [linter_of_load hLoad, mapError_eq_ok_iff] at hLinter
  obtain ⟨depth, preset, selected, changed, hDepth, -, hSelected, hChanged, hBuilt⟩ :=
    exists_of_setUp hLinter
  refine ⟨depth, hDepth, ?_⟩
  intro e he
  obtain ⟨name, hName, hGet⟩ := get_of_mem_built hProper hSelected hChanged hBuilt he
  refine ⟨name, hName, ?_, ?_⟩
  · have hOpen : r.commandOption? name .maxCallDepth = none := by
      unfold commandOption?
      split <;> simp [namesFor]
    have hDepthGet := hGet .maxCallDepth
    rw [hOpen, Option.none_or, Linter.get_defaultsFor_some] at hDepthGet
    cases hGiven : projectOption? project name .maxCallDepth <;>
      simpa [hGiven, OptionName.accepted, RuleOptions.get] using hDepthGet
  · intro n hn hOption
    have hNotDepth : n ≠ .maxCallDepth := by
      rintro rfl
      simp at hn
    rw [hGet n, Linter.get_defaultsFor_some, if_neg hNotDepth]
    rcases hName with rfl | ⟨rfl, -, -⟩
    · rw [commandOption?_of_known (Rule.ofPlainId?_eq_some_iff.2 rfl)]
      by_cases hNames : r.namesFor n = []
      · simp [hNames]
      · simp [hNames, hOption, OptionName.accepted, hNotDepth, NameSet.ofTexts,
          Value.texts_list_text]
    · have hUnknown : Rule.ofPlainId? e.rule.qualifiedId = none := by
        cases e.rule <;> decide +kernel
      simp [commandOption?, hUnknown, Rule.qualifiedId_ne_id]

/-- A project that gives one of its rules a depth. -/
def deepProject : Folder :=
  ConfigFile.alone
    "\x7b\"rules\":\x7b\"no-clone-in-loop\":[\"error\",\x7b\"maxCallDepth\":3\x7d]\x7d\x7d"

/-- A command line that gives a depth and names. -/
def shallowRequest : LintRequest :=
  { paths := [], config := some ConfigFile.defaultPath, maxCallDepth := some 0, banned := ["copy"] }

theorem exists_shallow_linter :
    ∃ project l, ConfigFile.load deepProject
        (shallowRequest.config.getD (Settings.configFile ⟨{}⟩)) = .ok project ∧
      shallowRequest.linter deepProject ⟨{}⟩ = .ok l ∧
      l.entries.map (·.options.maxCallDepth) = [3, 0] := by
  have hRun : ((ConfigFile.load deepProject
      (shallowRequest.config.getD (Settings.configFile ⟨{}⟩))).toOption.map fun project =>
        (shallowRequest.setUp project ⟨{}⟩).toOption.map fun l =>
          l.entries.map (·.options.maxCallDepth)) = some (some [3, 0]) := by
    decide +kernel
  obtain ⟨project, hLoad, hSome⟩ := exists_of_toOption_map hRun
  obtain ⟨l, hSetUp, hDepths⟩ := exists_of_toOption_map hSome
  refine ⟨project, l, hLoad, ?_, hDepths⟩
  rw [linter_of_load hLoad, hSetUp]
  rfl

theorem linter_precedence_shallow :
    ∃ project l, ConfigFile.load deepProject
        (shallowRequest.config.getD (Settings.configFile ⟨{}⟩)) = .ok project ∧
      shallowRequest.linter deepProject ⟨{}⟩ = .ok l ∧ ∀ e ∈ l.entries, ∃ name,
        shallowRequest.ConfiguredAs project e.rule name ∧
        shallowRequest.Precedence project 0 name e := by
  obtain ⟨project, l, hLoad, hLinter, -⟩ := exists_shallow_linter
  obtain ⟨depth, hDepth, hEntries⟩ := linter_precedence hLoad hLinter
  cases hDepth
  exact ⟨project, l, hLoad, hLinter, hEntries⟩

/-- The command line asks for depth zero, and still a rule is run with the depth of the project. -/
theorem shallow_linter_keeps_depth :
    ∃ l, shallowRequest.linter deepProject ⟨{}⟩ = .ok l ∧ ∃ e ∈ l.entries,
      shallowRequest.maxCallDepth = some 0 ∧ e.options.maxCallDepth = 3 := by
  obtain ⟨project, l, -, hLinter, hDepths⟩ := exists_shallow_linter
  have hThree : 3 ∈ l.entries.map (·.options.maxCallDepth) := by simp [hDepths]
  obtain ⟨e, he, hDepth⟩ := List.mem_map.1 hThree
  exact ⟨l, hLinter, e, he, rfl, hDepth⟩

end LintRequest

end HotPath
