import HotPath.Proofs.Rule.Validation
import Mathlib.Data.List.Sort

/-! Options in written form. What is written for options gives the same options again, whatever lies
below. Names are kept as sets, so how they were ordered and repeated when they were given does not
show in what is written. -/

namespace HotPath

/-- Sets with the same names in them are the same. -/
theorem NameSet.eq_of_mem_iff {s s' : NameSet} (h : ∀ name, name ∈ s ↔ name ∈ s') : s = s' := by
  have : Std.Antisymm fun t t' : RawText => t < t' :=
    ⟨fun t _ hLess hMore => absurd (RawText.lt_trans hLess hMore) t.lt_irrefl⟩
  have : Std.Irrefl fun t t' : RawText => t < t' := ⟨RawText.lt_irrefl⟩
  obtain ⟨names, sorted⟩ := s
  obtain ⟨names', sorted'⟩ := s'
  obtain rfl : names = names' := List.Pairwise.eq_of_mem_iff sorted sorted' h
  rfl

namespace RuleOptions

variable {rule : Option RawText} {recognized : List String} {o o' base : RuleOptions}
  {n : OptionName}

/-- The names of an option. The depth has none. -/
def namesOf (o : RuleOptions) : OptionName → NameSet
  | .frameLoopApis => o.frameLoopApis
  | .bannedOperations => o.bannedOperations
  | .maxCallDepth => {}
  | .disallowedLiterals => o.disallowedLiterals
  | .timerApis => o.timerApis
  | .fastEvents => o.fastEvents
  | .stateHooks => o.stateHooks

theorem get_eq_names (hOption : n ≠ .maxCallDepth) (o : RuleOptions) :
    o.get n = .list ((o.namesOf n).names.map .str) := by
  cases n with
  | maxCallDepth => exact absurd rfl hOption
  | _ => rfl

theorem texts_get (o : RuleOptions) (n : OptionName) : (o.get n).texts = (o.namesOf n).names := by
  by_cases hOption : n = .maxCallDepth
  · subst hOption
    rfl
  · rw [get_eq_names hOption, Value.texts_list_str]

/-- Options are the same if the depth is and each option has the same names in it. -/
def Same (o o' : RuleOptions) : Prop :=
  o.maxCallDepth = o'.maxCallDepth ∧ ∀ n name, name ∈ (o.get n).texts ↔ name ∈ (o'.get n).texts

theorem Same.eq (h : o.Same o') : o = o' := by
  have hNames (n : OptionName) : o.namesOf n = o'.namesOf n := by
    apply NameSet.eq_of_mem_iff
    intro name
    simpa only [texts_get, NameSet.mem_def] using h.2 n name
  have hApis := hNames .frameLoopApis
  have hBanned := hNames .bannedOperations
  have hLiterals := hNames .disallowedLiterals
  have hTimers := hNames .timerApis
  have hEvents := hNames .fastEvents
  have hHooks := hNames .stateHooks
  have hDepth := h.1
  cases o
  cases o'
  simp_all [namesOf]

/-- Options that can be written down: the depth is not negative, no name is empty, and the literals
can be disallowed. -/
structure WellFormed (o : RuleOptions) : Prop where
  depth : 0 ≤ o.maxCallDepth
  names : ∀ n, .plain "" ∉ (o.get n).texts
  literals : ∀ kind ∈ o.disallowedLiterals, kind.IsLiteral

/-- Options that hold the values of others are the same. -/
theorem same_of_holds (h : ∀ n, o'.Holds n (o.get n)) : o'.Same o := by
  constructor
  · have hDepth : o'.get .maxCallDepth = o.get .maxCallDepth := h .maxCallDepth
    exact Value.int.inj hDepth
  · intro n name
    have hHolds := h n
    unfold Holds at hHolds
    split at hHolds
    · rw [hHolds]
    · exact hHolds.2 name

theorem members_written (o : RuleOptions) :
    (Value.record o.toMembers).members = OptionName.all.map fun n => (.plain n.name, o.get n) := by
  simp [Value.record, Value.members, toMembers]

/-- Every option is written under its name, and nothing else is. -/
theorem mem_written_iff {key : RawText} {v : Value} :
    (key, v) ∈ (Value.record o.toMembers).members ↔
      ∃ n : OptionName, key = .plain n.name ∧ v = o.get n := by
  have hAll (n : OptionName) : n ∈ OptionName.all := by cases n <;> decide
  simp [members_written, hAll, eq_comm]

theorem eq_of_mem_written {v : Value}
    (h : (.plain n.name, v) ∈ (Value.record o.toMembers).members) : v = o.get n := by
  obtain ⟨k, hName, rfl⟩ := mem_written_iff.1 h
  obtain rfl : n = k := OptionName.name_injective (RawText.plain.inj hName)
  rfl

theorem proper_get (o : RuleOptions) (n : OptionName) : (o.get n).Proper := by
  by_cases hOption : n = .maxCallDepth
  · subst hOption
    exact .atom rfl
  · rw [get_eq_names hOption]
    exact .ofNames _

theorem proper_written (o : RuleOptions) : (Value.record o.toMembers).Proper := by
  refine .object ?_ ?_
  · have hNames : (OptionName.all.map fun n => RawText.plain n.name).Nodup := by decide +kernel
    simpa [toMembers, Function.comp_def] using hNames
  · rintro ⟨key, v⟩ hMember
    obtain ⟨n, -, rfl⟩ := mem_written_iff.1 hMember
    exact proper_get o n

theorem WellFormed.not_refused (h : o.WellFormed) : ¬Refused documented (.record o.toMembers) := by
  intro hRefused
  cases hRefused with
  | notObject _ hObject => exact hObject _ rfl
  | unknown hMember hKey =>
      obtain ⟨n, rfl, -⟩ := mem_written_iff.1 hMember
      exact hKey n.name (mem_documented_iff.2 ⟨n, rfl⟩) rfl
  | depth hMember hDepth => exact hDepth _ h.depth (eq_of_mem_written hMember)
  | @names _ n v hMember hOption hNames =>
      obtain rfl := eq_of_mem_written hMember
      obtain ⟨item, hItem, hBad⟩ := hNames _ (get_eq_names hOption o)
      obtain ⟨name, hName, rfl⟩ := List.mem_map.1 hItem
      refine hBad ⟨name, rfl, ?_⟩
      rintro rfl
      exact h.names n (by rwa [texts_get])
  | @literals _ items item hMember hItem hKind =>
      cases eq_of_mem_written hMember
      obtain ⟨kind, hName, rfl⟩ := List.mem_map.1 hItem
      obtain ⟨literal, hLiteral, rfl⟩ := h.literals kind hName
      exact hKind literal hLiteral rfl

/-- Writing options down and reading them again gives the same options, whatever lies below. Options
with the same depth and the same names are written the same way, in whatever order and however often
their names were given. -/
theorem toMembers_faithful :
    (∀ (o base : RuleOptions) (rule : Option RawText), o.WellFormed →
      ofRaw rule documented base (.value (.record o.toMembers)) = .ok o) ∧
    ∀ o o' : RuleOptions, o.Same o' → o.toMembers = o'.toMembers := by
  constructor
  · intro o base rule hWellFormed
    have hProper := proper_written o
    obtain ⟨read, hRead⟩ := (ofRaw_isOk_iff rule base (List.Subset.refl _) hProper).2
      hWellFormed.not_refused
    have hHolds (n : OptionName) : read.Holds n (o.get n) :=
      (holds_of_ofRaw hProper hRead n).1 _ (mem_written_iff.2 ⟨n, rfl, rfl⟩)
    rw [hRead, (same_of_holds hHolds).eq]
  · intro o o' hSame
    rw [hSame.eq]

/-- Options with two operations, one of which ends in a half, two literals and a depth of their own.
-/
def wideOptions : RuleOptions :=
  { bannedOperations := .ofList ["copy", .broken "copy" ⟨0xD83D, by decide⟩ ""], maxCallDepth := 2
    disallowedLiterals := .ofTexts ["object", "array"] }

theorem wellFormed_wideOptions : wideOptions.WellFormed where
  depth := by decide
  names := by intro n; cases n <;> decide +kernel
  literals := by
    intro kind hKind
    have hAll : ∀ kind ∈ wideOptions.disallowedLiterals.names, kind.IsLiteral := by decide +kernel
    exact hAll kind hKind

/-- Two operations, one of them given twice. -/
def namedTwice : Value :=
  .record [("bannedOperations", .list [.text "merge", .text "copy", .text "merge"])]

/-- The same operations the other way round, after the depth. -/
def namedOnce : Value :=
  .record [("maxCallDepth", .int 2), ("bannedOperations", .list [.text "copy", .text "merge"])]

theorem toMembers_faithful_wideOptions :
    ofRaw none documented {} (.value (.record wideOptions.toMembers)) = .ok wideOptions ∧
    ∃ o o', ofRaw none documented wideOptions (.value namedTwice) = .ok o ∧
      ofRaw none documented wideOptions (.value namedOnce) = .ok o' ∧
      o.toMembers = o'.toMembers := by
  have hTwice : (ofRaw none documented wideOptions (.value namedTwice)).toOption.map id =
      some { wideOptions with bannedOperations := .ofTexts ["copy", "merge"] } := by decide +kernel
  have hOnce : (ofRaw none documented wideOptions (.value namedOnce)).toOption.map id =
      some { wideOptions with bannedOperations := .ofTexts ["copy", "merge"] } := by decide +kernel
  obtain ⟨o, hOk, hRead⟩ := Checks.exists_of_toOption_map hTwice
  obtain ⟨o', hOk', hRead'⟩ := Checks.exists_of_toOption_map hOnce
  refine ⟨toMembers_faithful.1 _ _ _ wellFormed_wideOptions, o, o', hOk, hOk', ?_⟩
  apply toMembers_faithful.2
  subst hRead hRead'
  exact ⟨rfl, fun _ _ => Iff.rfl⟩

end RuleOptions

end HotPath
