import HotPath.Proofs.Json.Reader
import HotPath.Proofs.Rule.Options

/-! Which options are accepted. Whether a member is accepted depends on that member alone, so
options are refused because of one member, or because of the literals that are left in the end.
Options that are accepted hold what was given, and nothing else has changed. -/

namespace HotPath

theorem Value.Proper.ofNames (names : List RawText) : (Value.list (names.map .str)).Proper := by
  refine .list ?_
  rintro v hv
  obtain ⟨name, -, rfl⟩ := List.mem_map.1 hv
  exact .atom rfl

/-- Names can be listed if they are texts that are not empty. -/
def Value.IsName (v : Value) : Prop := ∃ t : RawText, v = .str t ∧ t ≠ .plain ""

/-- What can be given for an option: a depth that is not negative, or a list of names. -/
inductive OptionName.Accepts : OptionName → Value → Prop
  | depth {depth : Int} (h : 0 ≤ depth) : Accepts .maxCallDepth (.int depth)
  | names {n : OptionName} {items : List Value} (hOption : n ≠ .maxCallDepth)
      (hItems : ∀ item ∈ items, item.IsName) : Accepts n (.list items)

namespace OptionName

theorem accepts_maxCallDepth_iff {v : Value} :
    maxCallDepth.Accepts v ↔ ∃ depth : Int, 0 ≤ depth ∧ v = .int depth := by
  constructor
  · intro h
    cases h with
    | depth hDepth => exact ⟨_, hDepth, rfl⟩
    | names hOption => exact absurd rfl hOption
  · rintro ⟨depth, hDepth, rfl⟩
    exact .depth hDepth

theorem accepts_names_iff {n : OptionName} (hOption : n ≠ maxCallDepth) {v : Value} :
    n.Accepts v ↔ ∃ items, v = .list items ∧ ∀ item ∈ items, item.IsName := by
  constructor
  · intro h
    cases h with
    | depth => exact absurd rfl hOption
    | names _ hItems => exact ⟨_, rfl, hItems⟩
  · rintro ⟨items, rfl, hItems⟩
    exact .names hOption hItems

end OptionName

theorem mem_supportedLiterals_iff {kind : String} :
    kind ∈ supportedLiterals ↔ kind ∈ literalNames.map Prod.fst := by
  simp only [supportedLiterals, List.mem_mergeSort]

/-- Texts that name a kind of literals. -/
def RawText.IsLiteral (t : RawText) : Prop := ∃ kind ∈ literalNames.map Prod.fst, t = .plain kind

instance (t : RawText) : Decidable t.IsLiteral :=
  inferInstanceAs (Decidable (∃ kind ∈ literalNames.map Prod.fst, t = .plain kind))

namespace RuleOptions

open Checks

variable {rule : Option RawText} {recognized : List String} {o o' base : RuleOptions}
  {n : OptionName} {v : Value} {member : Value × Value} {members : List (Value × Value)}

theorem checkDepth_isOk_iff (option : String) :
    (∃ depth, checkDepth option v = .ok depth) ↔ ∃ depth : Int, 0 ≤ depth ∧ v = .int depth := by
  cases v with
  | int i =>
      by_cases hNegative : i < 0
      · simp [checkDepth, hNegative]
      · simp [checkDepth, hNegative, Int.not_lt.1 hNegative]
  | _ => simp [checkDepth]

theorem checkName_isOk_iff (option : String) :
    (∃ name, checkName option v = .ok name) ↔ v.IsName := by
  constructor
  · rintro ⟨name, h⟩
    exact ⟨name, eq_of_checkName h⟩
  · rintro ⟨t, rfl, hEmpty⟩
    cases t with
    | plain s =>
        have hText : s ≠ "" := by simpa using hEmpty
        simp [checkName, RawText.isEmpty, hText]
    | broken => simp [checkName, RawText.isEmpty]

theorem checkNames_isOk_iff (option : String) :
    (∃ names, checkNames option v = .ok names) ↔
      ∃ items, v = .list items ∧ ∀ item ∈ items, item.IsName := by
  cases v with
  | list items =>
      simp only [checkNames, bind_eq_ok_iff, Value.list.injEq, exists_eq_left', ←
        checkName_isOk_iff option, ← mapM_isOk_iff, pure, Except.pure]
      simp
  | _ => simp [checkNames]

/-- Whether a value is accepted for an option does not depend on the other options. -/
theorem set_isOk_iff (o : RuleOptions) : (∃ o', o.set n v = .ok o') ↔ n.Accepts v := by
  cases n with
  | maxCallDepth =>
      rw [OptionName.accepts_maxCallDepth_iff, ← checkDepth_isOk_iff OptionName.maxCallDepth.name]
      simp [set, bind_eq_ok_iff, pure, Except.pure]
  | _ =>
      rw [OptionName.accepts_names_iff (by decide), ← checkNames_isOk_iff (OptionName.name _)]
      simp [set, bind_eq_ok_iff, pure, Except.pure]
      rfl

/-- A member that can be set: a recognized option with a value that is accepted for it. -/
def Settable (recognized : List String) (member : Value × Value) : Prop :=
  ∃ n : OptionName, member.1 = .text n.name ∧ n.name ∈ recognized ∧ n.Accepts member.2

theorem setMember_isOk_iff (rule : Option RawText) (recognized : List String) (o : RuleOptions)
    (member : Value × Value) :
    (∃ o', setMember rule recognized o member = .ok o') ↔ Settable recognized member := by
  constructor
  · rintro ⟨o', h⟩
    obtain ⟨n, hName, hListed, hSet⟩ := exists_of_setMember h
    exact ⟨n, hName, hListed, (set_isOk_iff o).1 ⟨o', hSet⟩⟩
  · rintro ⟨n, hName, hListed, hAccepts⟩
    obtain ⟨o', hSet⟩ := (set_isOk_iff o).2 hAccepts
    refine ⟨o', ?_⟩
    unfold setMember
    rw [hName]
    simp [hListed, OptionName.ofName?_eq_some_iff.2 rfl, hSet, located]

/-- The literals that are left when all members have been read are those that were given last. -/
theorem mem_disallowedLiterals_of_foldlM
    (h : members.foldlM (setMember rule recognized) base = .ok o)
    (hGiven : given? members .disallowedLiterals = some v) {kind : RawText} :
    kind ∈ o.disallowedLiterals ↔ kind ∈ v.texts := by
  have hGet := get_of_foldlM h .disallowedLiterals
  have hTexts : (o.get .disallowedLiterals).texts = o.disallowedLiterals.names :=
    Value.texts_list_str _
  rw [NameSet.mem_def, ← hTexts, hGet, hGiven]
  simp [OptionName.accepted, Value.texts_list_str, ← NameSet.mem_def]

theorem unsupported_isEmpty_iff :
    o.unsupported.isEmpty = true ↔ ∀ kind ∈ o.disallowedLiterals, kind.IsLiteral := by
  simp only [unsupported, List.isEmpty_iff, List.filter_eq_nil_iff, Bool.not_eq_true',
    Bool.not_eq_false, List.any_eq_true, decide_eq_true_eq, RawText.IsLiteral,
    ← mem_supportedLiterals_iff, NameSet.mem_def]

/-- The check at the end is about the literals that were given last, if any were. -/
theorem literals_checked_iff (h : members.foldlM (setMember rule recognized) base = .ok o) :
    (members.any setsLiterals && !o.unsupported.isEmpty) = false ↔
      ∀ v, given? members .disallowedLiterals = some v →
        ∀ kind ∈ v.texts, kind.IsLiteral := by
  have hSets : members.any setsLiterals = (given? members .disallowedLiterals).isSome := by
    rw [given?, Option.isSome_map, Bool.eq_iff_iff, List.find?_isSome, List.any_eq_true]
    simp only [List.mem_reverse]
    rfl
  rw [hSets]
  cases hGiven : given? members .disallowedLiterals with
  | none => simp
  | some v =>
      simp only [Option.isSome_some, Bool.true_and, Bool.not_eq_false', unsupported_isEmpty_iff,
        mem_disallowedLiterals_of_foldlM h hGiven, Option.some.injEq, forall_eq']

/-- Members are accepted if each of them can be set and the literals that were given last are
supported. -/
theorem ofMembers_isOk_iff :
    (∃ o, ofMembers rule recognized base members = .ok o) ↔
      (∀ member ∈ members, Settable recognized member) ∧
      ∀ v, given? members .disallowedLiterals = some v →
        ∀ kind ∈ v.texts, kind.IsLiteral := by
  rw [← foldlM_isOk_iff (setMember_isOk_iff rule recognized) members base]
  constructor
  · rintro ⟨o, h⟩
    obtain ⟨read, hRead, hChecked⟩ := bind_eq_ok_iff.1 h
    refine ⟨⟨read, hRead⟩, (literals_checked_iff hRead).1 ?_⟩
    by_contra hRefused
    rw [Bool.not_eq_false] at hRefused
    rw [if_pos hRefused] at hChecked
    cases hChecked
  · rintro ⟨⟨read, hRead⟩, hLiterals⟩
    refine ⟨read, bind_eq_ok_iff.2 ⟨read, hRead, ?_⟩⟩
    rw [(literals_checked_iff hRead).2 hLiterals]
    rfl

/-- Why a value cannot give the options of a rule that recognizes some of them. -/
inductive Refused (recognized : List String) : Value → Prop
  | notObject {raw : Value} (hNull : raw ≠ .null) (hObject : ∀ members, raw ≠ .object members) :
      Refused recognized raw
  | unknown {members : List (RawText × Value)} {key : RawText} {v : Value}
      (hMember : (key, v) ∈ members) (hKey : ∀ name ∈ recognized, key ≠ .plain name) :
      Refused recognized (.object members)
  | depth {members : List (RawText × Value)} {v : Value}
      (hMember : (.plain OptionName.maxCallDepth.name, v) ∈ members)
      (hDepth : ∀ depth : Int, 0 ≤ depth → v ≠ .int depth) : Refused recognized (.object members)
  | names {members : List (RawText × Value)} {n : OptionName} {v : Value}
      (hMember : (.plain n.name, v) ∈ members) (hOption : n ≠ .maxCallDepth)
      (hNames : ∀ items, v = .list items → ∃ item ∈ items, ¬item.IsName) :
      Refused recognized (.object members)
  | literals {members : List (RawText × Value)} {items : List Value} {item : Value}
      (hMember : (.plain OptionName.disallowedLiterals.name, .list items) ∈ members)
      (hItem : item ∈ items) (hKind : ∀ kind ∈ literalNames.map Prod.fst, item ≠ .text kind) :
      Refused recognized (.object members)

/-- An option holds what was given for it: the depth as it is, names as a set. -/
def Holds (o : RuleOptions) (n : OptionName) (v : Value) : Prop :=
  if n = .maxCallDepth then o.get n = v
  else (o.get n).texts.Pairwise (· < ·) ∧ ∀ name, name ∈ (o.get n).texts ↔ name ∈ v.texts

theorem holds_of_get_eq (h : o.get n = n.accepted v) : o.Holds n v := by
  unfold Holds
  split
  · next hDepth =>
      rw [h, OptionName.accepted, if_pos hDepth]
  · next hNames =>
      rw [h, OptionName.accepted, if_neg hNames, Value.texts_list_str]
      exact ⟨NameSet.sorted _, fun _ => NameSet.mem_ofList⟩

theorem mem_of_given? (h : given? members n = some v) : (.text n.name, v) ∈ members := by
  obtain ⟨⟨key, w⟩, hFind, rfl⟩ := Option.map_eq_some_iff.1 h
  have hKey : key = .text n.name := isNamed_iff.1 (List.find?_some hFind)
  rw [← hKey]
  exact List.mem_reverse.1 (List.mem_of_find?_eq_some hFind)

/-- The members of an object, with their names as values. -/
def keyed (members : List (RawText × Value)) : List (Value × Value) :=
  members.map fun m => (.str m.1, m.2)

theorem mem_keyed_iff {members : List (RawText × Value)} {key : RawText} :
    (.str key, v) ∈ keyed members ↔ (key, v) ∈ members := by
  simp [keyed]

/-- If no name is written twice, the member with the name of an option gives its value. -/
theorem given?_keyed_iff {members : List (RawText × Value)} (h : (members.map Prod.fst).Nodup) :
    given? (keyed members) n = some v ↔ (.plain n.name, v) ∈ members := by
  constructor
  · intro hGiven
    exact mem_keyed_iff.1 (mem_of_given? hGiven)
  · intro hMem
    cases hGiven : given? (keyed members) n with
    | none => exact absurd rfl (given?_eq_none_iff.1 hGiven _ (mem_keyed_iff.2 hMem))
    | some w =>
        have hOther := mem_keyed_iff.1 (mem_of_given? hGiven)
        have hSame := List.inj_on_of_nodup_map h hOther hMem rfl
        exact congrArg (some ·.2) hSame

theorem settable_text_iff :
    Settable recognized (.text n.name, v) ↔ n.name ∈ recognized ∧ n.Accepts v := by
  constructor
  · rintro ⟨k, hName, hListed, hAccepts⟩
    have hSame : n = k := OptionName.name_injective (by simpa using hName)
    subst hSame
    exact ⟨hListed, hAccepts⟩
  · rintro ⟨hListed, hAccepts⟩
    exact ⟨n, rfl, hListed, hAccepts⟩

theorem settable_of_not_refused (hKnown : recognized ⊆ documented)
    {members : List (RawText × Value)} (h : ¬Refused recognized (.object members)) {key : RawText}
    (hMember : (key, v) ∈ members) : Settable recognized (.str key, v) := by
  obtain ⟨name, hListed, rfl⟩ : ∃ name ∈ recognized, key = .plain name := by
    by_contra hKey
    push Not at hKey
    exact h (.unknown hMember hKey)
  obtain ⟨n, rfl⟩ := mem_documented_iff.1 (hKnown hListed)
  refine settable_text_iff.2 ⟨hListed, ?_⟩
  by_cases hOption : n = .maxCallDepth
  · subst hOption
    rw [OptionName.accepts_maxCallDepth_iff]
    by_contra hDepth
    push Not at hDepth
    exact h (.depth hMember hDepth)
  · rw [OptionName.accepts_names_iff hOption]
    by_contra hNames
    push Not at hNames
    exact h (.names hMember hOption hNames)

theorem supported_of_not_refused {members : List (RawText × Value)}
    (h : ¬Refused recognized (.object members)) {items : List Value}
    (hMember : (.plain OptionName.disallowedLiterals.name, .list items) ∈ members) {kind : RawText}
    (hKind : kind ∈ (Value.list items).texts) : kind.IsLiteral := by
  obtain ⟨item, hItem, hWritten⟩ := List.mem_filterMap.1 hKind
  by_contra hUnsupported
  apply h
  refine .literals hMember hItem ?_
  rintro supported hSupported rfl
  cases hWritten
  exact hUnsupported ⟨supported, hSupported, rfl⟩

/-- An object is accepted exactly if there is no reason to refuse it. -/
theorem refused_object_iff (hKnown : recognized ⊆ documented) {members : List (RawText × Value)}
    (h : (members.map Prod.fst).Nodup) :
    Refused recognized (.object members) ↔
      ¬∃ o, ofMembers rule recognized base (keyed members) = .ok o := by
  rw [ofMembers_isOk_iff]
  constructor
  · rintro hRefused ⟨hSettable, hLiterals⟩
    have hMembers {key : RawText} {v : Value} (hMember : (key, v) ∈ members) :
        Settable recognized (.str key, v) :=
      hSettable _ (mem_keyed_iff.2 hMember)
    cases hRefused with
    | notObject _ hObject => exact hObject members rfl
    | unknown hMember hKey =>
        obtain ⟨n, hName, hListed, -⟩ := hMembers hMember
        exact hKey n.name hListed (by simpa using hName)
    | depth hMember hDepth =>
        obtain ⟨depth, hNonneg, hValue⟩ :=
          OptionName.accepts_maxCallDepth_iff.1 (settable_text_iff.1 (hMembers hMember)).2
        exact hDepth depth hNonneg hValue
    | names hMember hOption hNames =>
        obtain ⟨items, hValue, hItems⟩ :=
          (OptionName.accepts_names_iff hOption).1 (settable_text_iff.1 (hMembers hMember)).2
        obtain ⟨item, hItem, hBad⟩ := hNames items hValue
        exact hBad (hItems item hItem)
    | @literals _ items item hMember hItem hKind =>
        obtain ⟨_, hValue, hItems⟩ :=
          (OptionName.accepts_names_iff (by decide)).1 (settable_text_iff.1 (hMembers hMember)).2
        cases hValue
        obtain ⟨t, rfl, -⟩ := hItems item hItem
        have hText : t ∈ (Value.list items).texts := List.mem_filterMap.2 ⟨_, hItem, rfl⟩
        obtain ⟨kind, hSupported, rfl⟩ := hLiterals _ ((given?_keyed_iff h).2 hMember) _ hText
        exact hKind kind hSupported rfl
  · intro hNone
    by_contra hRefused
    apply hNone
    constructor
    · intro member hKeyed
      obtain ⟨⟨key, v⟩, hMember, rfl⟩ := List.mem_map.1 hKeyed
      exact settable_of_not_refused hKnown hRefused hMember
    · intro v hGiven kind hKind
      have hMember := (given?_keyed_iff h).1 hGiven
      obtain ⟨items, rfl, -⟩ := (OptionName.accepts_names_iff (by decide)).1
        (settable_text_iff.1 (settable_of_not_refused hKnown hRefused hMember)).2
      exact supported_of_not_refused hRefused hMember hKind

theorem ofRaw_isOk_iff (rule : Option RawText) (base : RuleOptions)
    (hKnown : recognized ⊆ documented) {raw : Value} (hProper : raw.Proper) :
    (∃ o, ofRaw rule recognized base (.value raw) = .ok o) ↔ ¬Refused recognized raw := by
  have hOther (hNull : raw ≠ .null) (hObject : ∀ members, raw ≠ .object members) :
      Refused recognized raw := .notObject hNull hObject
  cases raw with
  | null =>
      refine iff_of_true ⟨base, rfl⟩ ?_
      intro hRefused
      cases hRefused with
      | notObject hNull _ => exact hNull rfl
  | object members =>
      rw [refused_object_iff hKnown hProper.nodup_names, not_not]
      rfl
  | _ => simpa [ofRaw] using hOther (by simp) (by simp)

/-- Options that are accepted hold what was given, and the others are as they were. -/
theorem holds_of_ofRaw {raw : Value} (hProper : raw.Proper)
    (h : ofRaw rule recognized base (.value raw) = .ok o) (n : OptionName) :
    (∀ v, (.plain n.name, v) ∈ raw.members → o.Holds n v) ∧
      ((∀ v, (.plain n.name, v) ∉ raw.members) → o.get n = base.get n) := by
  cases raw with
  | null =>
      cases h
      simp [Value.members]
  | object members =>
      have hGet : o.get n = ((given? (keyed members) n).map n.accepted).getD (base.get n) :=
        get_of_ofMembers h n
      constructor
      · intro v hMember
        apply holds_of_get_eq
        rw [hGet, (given?_keyed_iff hProper.nodup_names).2 hMember]
        rfl
      · intro hNone
        have hGiven : given? (keyed members) n = none := by
          rw [Option.eq_none_iff_forall_ne_some]
          intro v hGiven
          exact hNone v ((given?_keyed_iff hProper.nodup_names).1 hGiven)
        rw [hGet, hGiven]
        rfl
  | _ => cases h

/-- Options are refused, with an error that tells the rule, exactly if they are no object, if a
member is not recognized or its value is not valid, or if a literal is not supported. Otherwise every
option that was given holds what was given, and all others are those of the base. -/
theorem ofRaw_exact (rule : Option RawText) (base : RuleOptions) (hKnown : recognized ⊆ documented)
    {raw : Value} (hProper : raw.Proper) :
    ((∃ problem, ofRaw rule recognized base (.value raw) = .error (.config ⟨rule, problem⟩)) ↔
      Refused recognized raw) ∧
    (¬Refused recognized raw → ∃ o, ofRaw rule recognized base (.value raw) = .ok o ∧
      ∀ n : OptionName, (∀ v, (.plain n.name, v) ∈ raw.members → o.Holds n v) ∧
        ((∀ v, (.plain n.name, v) ∉ raw.members) → o.get n = base.get n)) := by
  have hAccepted := ofRaw_isOk_iff rule base hKnown hProper
  constructor
  · constructor
    · rintro ⟨problem, hError⟩
      by_contra hRefused
      obtain ⟨o, hOk⟩ := hAccepted.2 hRefused
      rw [hOk] at hError
      cases hError
    · intro hRefused
      cases hResult : ofRaw rule recognized base (.value raw) with
      | ok o => exact absurd hRefused (hAccepted.1 ⟨o, hResult⟩)
      | error e =>
          obtain ⟨problem, rfl⟩ := exists_of_ofRaw_error hKnown hResult
          exact ⟨problem, rfl⟩
  · intro hRefused
    obtain ⟨o, hOk⟩ := hAccepted.2 hRefused
    exact ⟨o, hOk, holds_of_ofRaw hProper hOk⟩

/-- Options in which a name is given twice. -/
def repeatingOptions : Value :=
  .record [("bannedOperations", .list [.text "copy", .text "clone", .text "copy"]),
    ("maxCallDepth", .int 2)]

/-- Options that name a literal which cannot be disallowed. -/
def regexOptions : Value := .record [("disallowedLiterals", .list [.text "object", .text "regex"])]

theorem proper_repeatingOptions : repeatingOptions.Proper := by
  refine .object (by decide) ?_
  rintro m (_ | ⟨_, _ | ⟨_, ⟨⟩⟩⟩)
  · exact .ofNames ["copy", "clone", "copy"]
  · exact .atom rfl

theorem not_refused_repeatingOptions :
    ¬Refused Rule.noNewInLoop.optionNames repeatingOptions := by
  have hRead : ((ofRaw none Rule.noNewInLoop.optionNames {} (.value repeatingOptions)).toOption.map
      fun _ => ()) = some () := by decide +kernel
  obtain ⟨o, hOk, -⟩ := exists_of_toOption_map hRead
  exact (ofRaw_isOk_iff none {} (optionNames_subset _) proper_repeatingOptions).1 ⟨o, hOk⟩

theorem ofRaw_exact_noNewInLoop :
    (∃ problem, ofRaw (some "no-new-in-loop") Rule.noNewInLoop.optionNames {}
      (.value regexOptions) = .error (.config ⟨some "no-new-in-loop", problem⟩)) ∧
    ∃ o, ofRaw (some "no-new-in-loop") Rule.noNewInLoop.optionNames {} (.value repeatingOptions) =
        .ok o ∧
      o.Holds .maxCallDepth (.int 2) ∧
      o.Holds .bannedOperations (.list [.text "copy", .text "clone", .text "copy"]) ∧
      o.get .frameLoopApis = .list [.text "useFrame"] := by
  have hKnown := optionNames_subset .noNewInLoop
  constructor
  · have hProper : regexOptions.Proper := by
      refine .object (by decide) ?_
      rintro m (_ | ⟨_, ⟨⟩⟩)
      exact .ofNames ["object", "regex"]
    have hRegex : Value.text "regex" ∈ [.text "object", .text "regex"] := by simp
    refine (ofRaw_exact _ _ hKnown hProper).1.2 (.literals (.head _) hRegex ?_)
    simp [literalNames]
  · obtain ⟨o, hOk, hHolds⟩ := (ofRaw_exact (some "no-new-in-loop") {} hKnown
      proper_repeatingOptions).2 not_refused_repeatingOptions
    refine ⟨o, hOk, (hHolds .maxCallDepth).1 _ (.tail _ (.head _)),
      (hHolds .bannedOperations).1 _ (.head _), (hHolds .frameLoopApis).2 ?_⟩
    simp [repeatingOptions, Value.record, Value.members, OptionName.name]

end RuleOptions

end HotPath
