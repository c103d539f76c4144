import HotPath.Linter.Basic
import HotPath.Proofs.Rule.Name
import HotPath.Proofs.Rule.Options

/-! What is built of entries. Every entry that switches a rule on gives one run of the rule, so how
often a rule is run can be counted in the entries. Entries that cannot be built are refused with an
error that is worded for people. -/

namespace HotPath

open Checks

/-- Every failure is one that is worded for people who write configurations. -/
def Explained {α : Type} (x : Except SetupError α) : Prop :=
  ∀ e, x = .error e → ∃ c, e = .config c

theorem Explained.bind {α β : Type} {x : Except SetupError α} {next : α → Except SetupError β}
    (hFirst : Explained x) (hNext : ∀ a, Explained (next a)) : Explained (x >>= next) := by
  intro e h
  rcases bind_eq_error_iff.1 h with hError | ⟨a, -, hError⟩
  · exact hFirst e hError
  · exact hNext a e hError

/-- Whether an entry switches its rule on. -/
def Entry.isOn (name : RawText) (entry : Entry) : Bool :=
  match entry.read name with
  | .ok ⟨some _, _⟩ => true
  | _ => false

/-- The options that are written in an entry: the second item of a list, and otherwise nothing. -/
def Entry.writtenOptions : Value → Value
  | .list [_, options] => options
  | _ => .null

theorem Entry.options_of_read {name : RawText} {v : Value} {setting : Setting}
    (h : (Entry.written v).read name = .ok setting) :
    setting.options = .value (writtenOptions v) := by
  unfold Entry.read at h
  split at h
  · next hEntry => cases hEntry
  · next hEntry =>
      cases hEntry
      obtain ⟨_, -, hSetting⟩ := bind_eq_ok_iff.1 h
      cases hSetting
      rfl
  · next hEntry =>
      cases hEntry
      obtain ⟨_, -, hSetting⟩ := bind_eq_ok_iff.1 h
      cases hSetting
      rfl
  · cases h
  · next hOther hEntry =>
      cases hEntry
      obtain ⟨_, -, hSetting⟩ := bind_eq_ok_iff.1 h
      cases hSetting
      unfold writtenOptions
      split
      · exact absurd rfl (hOther _)
      · rfl

namespace Linter

variable {depth : Option Int} {name : RawText} {entry : Entry} {e : RuleEntry} {l : Linter}
  {entries : OrderedMap RawText Entry}

/-- What a rule's options are where nothing is written. -/
def defaultsFor (depth : Option Int) (rule : Rule) : RuleOptions :=
  match depth with
  | none => rule.defaults
  | some d => { rule.defaults with maxCallDepth := d }

theorem get_defaultsFor_some (d : Int) (rule : Rule) (n : OptionName) :
    (defaultsFor (some d) rule).get n =
      if n = .maxCallDepth then .int d else rule.defaults.get n := by
  cases n <;> simp [defaultsFor, RuleOptions.get]

/-- An entry gives a run if it switches on the rule that it is named for and its options are
accepted. -/
theorem setUp_eq_some_iff :
    setUp depth name entry = .ok (some e) ↔ Rule.ofName? name = some e.rule ∧
      ∃ options, entry.read name = .ok ⟨some e.severity, options⟩ ∧
        RuleOptions.ofRaw (some e.rule.id) e.rule.optionNames (defaultsFor depth e.rule) options =
          .ok e.options := by
  unfold setUp
  constructor
  · intro h
    split at h
    · cases h
    · next rule hRule =>
        split at h
        · cases h
        · cases h
        · next severity options hRead =>
            dsimp only at h
            split at h
            · cases h
            · next accepted hOptions =>
                cases h
                exact ⟨hRule, options, hRead, hOptions⟩
  · rintro ⟨hRule, options, hRead, hOptions⟩
    cases depth <;> simp only [defaultsFor] at hOptions <;> simp [hRule, hRead, hOptions]

/-- An entry that gives no run names a rule and leaves it off. -/
theorem isOn_of_setUp_eq_none (h : setUp depth name entry = .ok none) :
    entry.isOn name = false := by
  unfold setUp at h
  split at h
  · cases h
  · split at h
    · cases h
    · next hRead => simp [Entry.isOn, hRead]
    · dsimp only at h
      split at h
      · cases h
      · cases h

theorem isOn_of_setUp_eq_some (h : setUp depth name entry = .ok (some e)) :
    entry.isOn name = true := by
  obtain ⟨-, options, hRead, -⟩ := setUp_eq_some_iff.1 h
  simp [Entry.isOn, hRead]

theorem explained_setUp (depth : Option Int) (name : RawText) (entry : Entry) :
    Explained (setUp depth name entry) := by
  intro error h
  unfold setUp at h
  split at h
  · cases h
    exact ⟨_, rfl⟩
  · split at h
    · cases h
      exact ⟨_, rfl⟩
    · cases h
    · dsimp only at h
      split at h
      · next refused hRefused =>
          obtain ⟨problem, rfl⟩ :=
            RuleOptions.exists_of_ofRaw_error (RuleOptions.optionNames_subset _) hRefused
          cases h
          exact ⟨_, rfl⟩
      · cases h

theorem explained_ofEntries (entries : OrderedMap RawText Entry) (depth : Option Int) :
    Explained (ofEntries entries depth) := by
  apply Explained.bind
  · intro error h
    obtain ⟨_, ⟨name, entry⟩, _, -, -, hError⟩ := mapM_eq_error_iff.1 h
    exact explained_setUp depth name entry error hError
  · intro built error h
    cases h

/-- What is built of each entry, and the runs among it. -/
theorem exists_of_ofEntries (h : ofEntries entries depth = .ok l) :
    ∃ built, (entries.entries.mapM fun (name, entry) => setUp depth name entry) = .ok built ∧
      l.entries = built.filterMap id := by
  obtain ⟨built, hBuilt, hLinter⟩ := bind_eq_ok_iff.1 h
  cases hLinter
  exact ⟨built, hBuilt, rfl⟩

/-- Every run of a linter comes from one of the entries. -/
theorem exists_of_mem_ofEntries (h : ofEntries entries depth = .ok l) (he : e ∈ l.entries) :
    ∃ name entry, (name, entry) ∈ entries.entries ∧ setUp depth name entry = .ok (some e) := by
  obtain ⟨built, hBuilt, hEntries⟩ := exists_of_ofEntries h
  have hRun : some e ∈ built := by simpa [hEntries] using he
  obtain ⟨⟨name, entry⟩, hMem, hSetUp⟩ := exists_of_mem_mapM hBuilt hRun
  exact ⟨name, entry, hMem, hSetUp⟩

/-- A rule is run once for each entry that names it and switches it on. -/
theorem count_ruleIds (h : ofEntries entries depth = .ok l) (rule : Rule) :
    l.ruleIds.count rule.id =
      entries.entries.countP fun p => Rule.ofName? p.1 = some rule && p.2.isOn p.1 := by
  obtain ⟨built, hBuilt, hEntries⟩ := exists_of_ofEntries h
  rw [ruleIds, hEntries]
  rw [mapM_eq_ok_iff] at hBuilt
  clear h hEntries
  generalize entries.entries = pairs at hBuilt ⊢
  induction hBuilt with
  | nil => rfl
  | @cons p b rest _ hSetUp _ ih =>
      cases b with
      | none => simpa [isOn_of_setUp_eq_none hSetUp] using ih
      | some first =>
          have hRule := (setUp_eq_some_iff.1 hSetUp).1
          have hOn := isOn_of_setUp_eq_some hSetUp
          by_cases hSame : first.rule = rule
          · simpa [hRule, hOn, hSame] using ih
          · have hId : first.rule.id ≠ rule.id := fun hId => hSame (Rule.id_injective hId)
            simpa [hRule, hSame, hId] using ih

end Linter

end HotPath
