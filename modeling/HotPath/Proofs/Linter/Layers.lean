import HotPath.Proofs.Json.Reader
import HotPath.Proofs.Linter.Built

/-! The entries of a configuration over those of a preset. Of several entries for a name the last
one counts, whether it is written with the plugin or without, and it takes the place of the preset's
entry.

Names lose the plugin when they are laid over each other and once more when the rule is looked up. A
name with the plugin twice in front is therefore an entry of its own and still finds the rule, so a
rule is run once for each of two names. This is the only way in which a rule is run twice. -/

namespace HotPath

open Checks

/-- What a preset has an entry for is the name of a rule, without the plugin. -/
theorem Preset.exists_of_get?_entries {p : Preset} {name : RawText} {entry : Entry}
    (h : p.entries.get? name = some entry) :
    ∃ rule severity, name = .plain (Rule.id rule) ∧ entry = .written (.text severity) := by
  have hNothing : OrderedMap.get? ({} : OrderedMap RawText Entry) name = none := rfl
  rw [Preset.entries, OrderedMap.ofList, OrderedMap.get?_foldl_insert, hNothing, Option.or_none,
    OrderedMap.find_eq_find?, Option.map_eq_some_iff] at h
  obtain ⟨pair, hPair, rfl⟩ := h
  have hMem := List.mem_reverse.1 (List.mem_of_find?_eq_some hPair)
  obtain ⟨⟨rule, severity⟩, -, rfl⟩ := List.mem_map.1 hMem
  exact ⟨rule, severity, by simpa [eq_comm] using List.find?_some hPair, rfl⟩

theorem Preset.ofValue_name (p : Preset) : Preset.ofValue (.text p.name) = .ok p := by
  cases p <;> rfl

theorem Preset.distinct_entries (p : Preset) : p.entries.Distinct :=
  OrderedMap.distinct_ofList _

namespace Linter

variable {below : OrderedMap RawText Entry} {members : List (RawText × Value)} {name : RawText}
  {config preset v : Value} {depth : Option Int} {l : Linter}

theorem overlay_eq (below : OrderedMap RawText Entry) (members : List (RawText × Value)) :
    overlay below members =
      (members.map fun m => (Rule.plainId m.1, Entry.written m.2)).foldl
        (fun m p => m.insert p.1 p.2) below := by
  rw [List.foldl_map]
  rfl

theorem distinct_overlay (h : below.Distinct) (members : List (RawText × Value)) :
    (overlay below members).Distinct := by
  rw [overlay_eq]
  exact h.foldl_insert _

/-- The value that members give for a name, with the plugin or without: the last one counts. -/
def lastWritten? (members : List (RawText × Value)) (name : RawText) : Option Value :=
  (members.reverse.find? fun m => Rule.plainId m.1 = name).map Prod.snd

/-- The entry that counts for a name: the last one written, or else the one below. -/
def inEffect? (below : OrderedMap RawText Entry) (members : List (RawText × Value))
    (name : RawText) : Option Entry :=
  ((lastWritten? members name).map .written).or (below.get? name)

theorem get?_overlay (below : OrderedMap RawText Entry) (members : List (RawText × Value))
    (name : RawText) : (overlay below members).get? name = inEffect? below members name := by
  rw [overlay_eq, OrderedMap.get?_foldl_insert, OrderedMap.find_eq_find?, ← List.map_reverse,
    List.find?_map, Option.map_map, inEffect?, lastWritten?, Option.map_map]
  rfl

/-- Whether the rule of a name is on. -/
def switchedOn (below : OrderedMap RawText Entry) (members : List (RawText × Value))
    (name : RawText) : Bool :=
  (inEffect? below members name).any (Entry.isOn name)

/-- How often a rule is run: once for its own name and once for its qualified name, if they are on.
-/
theorem count_ruleIds_overlay (hBelow : below.Distinct)
    (h : ofEntries (overlay below members) depth = .ok l) (rule : Rule) :
    l.ruleIds.count rule.id = (switchedOn below members rule.id).toNat +
      (switchedOn below members rule.qualifiedId).toNat := by
  have hDistinct := distinct_overlay hBelow members
  have hCount (name : RawText) :
      (overlay below members).entries.countP (fun p => p.1 = name && p.2.isOn name) =
        (switchedOn below members name).toNat := by
    rw [hDistinct.countP_key name (Entry.isOn name), get?_overlay, switchedOn]
  -- the entries that find the rule are those under its own name and those under the other one
  rw [count_ruleIds h rule, ← hCount, ← hCount,
    List.countP_eq_countP_filter_add _ _ (fun p => p.1 = .plain rule.id), List.countP_filter,
    List.countP_filter]
  congr 1 <;> apply List.countP_congr <;> intro p _
  · by_cases hId : p.1 = rule.id <;> simp [hId, Rule.ofName?_eq_some_iff]
  · by_cases hId : p.1 = rule.id
    · simp [hId, (Rule.qualifiedId_ne_id rule rule).symm]
    · by_cases hQualified : p.1 = rule.qualifiedId <;>
        simp [hId, hQualified, Rule.ofName?_eq_some_iff, Rule.qualifiedId_ne_id]

theorem nodup_ruleIds_iff (l : Linter) :
    l.ruleIds.Nodup ↔ ∀ rule : Rule, l.ruleIds.count rule.id ≤ 1 := by
  rw [List.nodup_iff_count_le_one]
  constructor
  · intro h rule
    exact h rule.id
  · intro h name
    by_cases hName : name ∈ l.ruleIds
    · obtain ⟨e, -, rfl⟩ := List.mem_map.1 hName
      exact h e.rule
    · simp [List.count_eq_zero.2 hName]

theorem eq_members_of_membersOf {access : String} (h : membersOf v access = .ok members) :
    members = v.members := by
  unfold membersOf at h
  split at h
  · next hAbsent =>
      cases h
      cases v <;> simp_all [Value.members, Value.isTruthy]
  · split at h
    · cases h
      rfl
    · cases h

/-- What a configuration writes for rules. -/
def writtenRules (config : Value) : List (RawText × Value) :=
  ((config.member? "rules").getD .null).members

theorem exists_of_ofConfig (h : ofConfig config preset depth = .ok l) :
    ∃ base, Preset.ofValue ((config.member? "extends").getD preset) = .ok base ∧
      ofEntries (overlay base.entries (writtenRules config)) depth = .ok l := by
  unfold ofConfig at h
  simp only [bind_eq_ok_iff] at h
  obtain ⟨members, hMembers, base, hBase, rules, hRules, hBuilt⟩ := h
  obtain rfl := eq_members_of_membersOf hMembers
  obtain rfl := eq_members_of_membersOf hRules
  rw [← Value.member?_eq] at hBase
  rw [← Value.member?_eq] at hBuilt
  exact ⟨base, hBase, hBuilt⟩

/-- A qualified name has an entry only if it was written with the plugin twice in front. -/
theorem inEffect?_qualifiedId {p : Preset} {rule : Rule}
    (h : ∀ m ∈ members, m.1 ≠ Rule.inPlugin rule.qualifiedId) :
    inEffect? p.entries members rule.qualifiedId = none := by
  have hWritten : lastWritten? members rule.qualifiedId = none := by
    simpa [lastWritten?, Rule.plainId_eq_qualifiedId_iff] using fun t v hMem => h (t, v) hMem
  have hBelow : p.entries.get? rule.qualifiedId = none := by
    by_contra hSome
    obtain ⟨entry, hEntry⟩ := Option.ne_none_iff_exists'.1 hSome
    obtain ⟨other, _, hName, -⟩ := Preset.exists_of_get?_entries hEntry
    exact Rule.qualifiedId_ne_id rule other (RawText.plain.inj hName)
  simp [inEffect?, hWritten, hBelow]

/-- A rule is run once for each of its two names that is on, so it is run twice if both are. The
second name needs an entry that is written with the plugin twice in front; without one no rule is run
twice. Every run is set up from the entry that counts for its name. -/
theorem ofConfig_runs (h : ofConfig config preset depth = .ok l) :
    ∃ base, Preset.ofValue ((config.member? "extends").getD preset) = .ok base ∧
      (∀ rule : Rule, l.ruleIds.count rule.id =
        (switchedOn base.entries (writtenRules config) rule.id).toNat +
          (switchedOn base.entries (writtenRules config) rule.qualifiedId).toNat) ∧
      (l.ruleIds.Nodup ↔ ∀ rule : Rule,
        ¬(switchedOn base.entries (writtenRules config) rule.id ∧
          switchedOn base.entries (writtenRules config) rule.qualifiedId)) ∧
      ((∀ rule : Rule, ∀ m ∈ writtenRules config,
        m.1 ≠ Rule.inPlugin rule.qualifiedId) → l.ruleIds.Nodup) ∧
      ∀ e ∈ l.entries, ∃ name entry, (name = .plain e.rule.id ∨ name = .plain e.rule.qualifiedId) ∧
        inEffect? base.entries (writtenRules config) name = some entry ∧
        setUp depth name entry = .ok (some e) := by
  obtain ⟨base, hBase, hBuilt⟩ := exists_of_ofConfig h
  have hCount := count_ruleIds_overlay base.distinct_entries hBuilt
  refine ⟨base, hBase, hCount, ?_, ?_, ?_⟩
  · rw [nodup_ruleIds_iff]
    apply forall_congr'
    intro rule
    rw [hCount rule]
    cases switchedOn base.entries (writtenRules config) rule.id <;>
      cases switchedOn base.entries (writtenRules config) rule.qualifiedId <;> simp
  · intro hNames
    rw [nodup_ruleIds_iff]
    intro rule
    rw [hCount rule]
    have hOff : switchedOn base.entries (writtenRules config) rule.qualifiedId = false := by
      rw [switchedOn, inEffect?_qualifiedId (hNames rule), Option.any_none]
    simpa [hOff] using Bool.toNat_le _
  · intro e he
    obtain ⟨name, entry, hMem, hRun⟩ := exists_of_mem_ofEntries hBuilt he
    have hEntry := (distinct_overlay base.distinct_entries _).mem_entries_iff.1 hMem
    rw [get?_overlay] at hEntry
    exact ⟨name, entry, Rule.ofName?_eq_some_iff.1 (setUp_eq_some_iff.1 hRun).1, hEntry, hRun⟩

/-- The same rule under its plain and its qualified name, in both orders. -/
def mixedNames : Value :=
  .record [("rules", .record [("framelint/no-new-in-loop", .text "off"),
    ("no-clone-in-loop", .int 2), ("no-new-in-loop", .list [.text "error", .record []]),
    ("framelint/no-clone-in-loop", .text "warn")])]

theorem ofConfig_runs_mixedNames :
    ∃ l, ofConfig mixedNames (.text "recommended") none = .ok l ∧ l.ruleIds.Nodup ∧
      l.ruleIds.count Rule.noNewInLoop.id = 1 := by
  have hRun : ((ofConfig mixedNames (.text "recommended") none).toOption.map fun _ => ()) =
      some () := by
    decide +kernel
  obtain ⟨l, hLinter, -⟩ := exists_of_toOption_map hRun
  obtain ⟨base, hBase, hCount, -, hNodup, -⟩ := ofConfig_runs hLinter
  refine ⟨l, hLinter, hNodup ?_, ?_⟩
  · intro rule
    cases rule <;> decide +kernel
  · have hPreset : base = .recommended :=
      Except.ok.inj (hBase.symm.trans (Preset.ofValue_name .recommended))
    rw [hCount, hPreset]
    decide +kernel

/-- An entry with the plugin twice in front of a rule's name. -/
def twiceQualified : Value :=
  .record [("rules", .record [("framelint/framelint/no-clone-in-loop", .text "error")])]

/-- Over a preset that switches the rule on, such an entry makes it run twice. -/
theorem not_nodup_ruleIds_twiceQualified :
    ∃ l, ofConfig twiceQualified (.text "recommended") none = .ok l ∧ ¬l.ruleIds.Nodup := by
  have hRun : (ofConfig twiceQualified (.text "recommended") none).toOption.map ruleIds =
      some ["no-clone-in-loop", "no-new-in-loop", "no-clone-in-loop"] := by
    decide +kernel
  obtain ⟨l, hLinter, hIds⟩ := exists_of_toOption_map hRun
  refine ⟨l, hLinter, ?_⟩
  rw [hIds]
  decide

end Linter

end HotPath
