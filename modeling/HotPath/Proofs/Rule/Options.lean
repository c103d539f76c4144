import HotPath.Proofs.Checks
import HotPath.Rule.Listener

/-! What options are after they have been read. An option has the value that was given for it last,
names as a set, and all other options keep the value that they had. The options that a rule
recognizes are documented, so every refusal is one that is worded for people. -/

namespace HotPath

namespace Value

def written? : Value → Option RawText
  | .str t => some t
  | _ => none

/-- The texts among the items of a list. -/
def texts : Value → List RawText
  | .list items => items.filterMap written?
  | _ => []

theorem texts_list_str (names : List RawText) : (list (names.map str)).texts = names := by
  simp [texts, List.filterMap_map, Function.comp_def, written?]

theorem texts_list_text (names : List String) :
    (list (names.map text)).texts = names.map .plain := by
  rw [← texts_list_str (names.map .plain), List.map_map]
  rfl

end Value

namespace OptionName

theorem ofName?_eq_some_iff {s : String} {n : OptionName} : ofName? s = some n ↔ s = n.name := by
  constructor
  · intro h
    exact (of_decide_eq_true (List.find?_some h :)).symm
  · rintro rfl
    cases n <;> decide +kernel

theorem name_injective : Function.Injective name := by
  intro n k h
  have hSame : ofName? n.name = ofName? k.name := congrArg ofName? h
  rw [ofName?_eq_some_iff.2 rfl, ofName?_eq_some_iff.2 rfl] at hSame
  exact Option.some.inj hSame

/-- The value that an option has after a value has been accepted for it: names are a set. -/
def accepted (n : OptionName) (v : Value) : Value :=
  if n = .maxCallDepth then v else .list ((NameSet.ofList v.texts).names.map .str)

end OptionName

theorem Rule.mem_optionNames_iff {r : Rule} {s : String} :
    s ∈ r.optionNames ↔ ∃ n ∈ r.options, s = n.name := by
  simp [optionNames, NameSet.ofTexts, eq_comm]

namespace RuleOptions

open Checks

variable {rule : Option RawText} {recognized : List String} {o o' base : RuleOptions}
  {n : OptionName} {v : Value} {member : Value × Value} {members : List (Value × Value)}

theorem eq_of_checkDepth {option : String} {depth : Int} (h : checkDepth option v = .ok depth) :
    v = .int depth := by
  cases v with
  | int i =>
      simp only [checkDepth] at h
      split at h
      · cases h
      · cases h
        rfl
  | _ => cases h

theorem eq_of_checkName {option : String} {name : RawText} (h : checkName option v = .ok name) :
    v = .str name ∧ name ≠ .plain "" := by
  unfold checkName at h
  split at h
  · split at h
    · cases h
    · next hEmpty =>
        cases h
        refine ⟨rfl, ?_⟩
        rintro rfl
        exact hEmpty rfl
  · cases h

theorem eq_of_checkNames {option : String} {names : NameSet}
    (h : checkNames option v = .ok names) : names = .ofList v.texts := by
  cases v with
  | list items =>
      simp only [checkNames, bind_eq_ok_iff, mapM_eq_ok_iff] at h
      obtain ⟨texts, hTexts, hNames⟩ := h
      cases hNames
      congr 1
      induction hTexts with
      | nil => rfl
      | cons hItem _ ih =>
          obtain ⟨rfl, -⟩ := eq_of_checkName hItem
          simpa [Value.texts, Value.written?] using ih
  | _ => cases h

/-- Setting an option changes that option and no other. -/
theorem get_of_set (h : o.set n v = .ok o') (k : OptionName) :
    o'.get k = if k = n then n.accepted v else o.get k := by
  cases n with
  | maxCallDepth =>
      simp only [set, bind_eq_ok_iff] at h
      obtain ⟨depth, hDepth, hSet⟩ := h
      cases hSet
      rw [eq_of_checkDepth hDepth]
      cases k <;> simp [get, OptionName.accepted]
  | _ =>
      simp only [set, bind_eq_ok_iff] at h
      obtain ⟨names, hNames, hSet⟩ := h
      cases hSet
      rw [eq_of_checkNames hNames]
      cases k <;> simp [get, get.names, OptionName.accepted]

/-- Whether a member is written under the name of an option. -/
def isNamed (n : OptionName) (member : Value × Value) : Bool :=
  match member.1 with
  | .text name => name == n.name
  | _ => false

theorem isNamed_iff : isNamed n member = true ↔ member.1 = .text n.name := by
  obtain ⟨key, w⟩ := member
  simp only [isNamed]
  split <;> simp_all

theorem isNamed_text (n k : OptionName) (v : Value) :
    isNamed k (.text n.name, v) = decide (k = n) := by
  rw [Bool.eq_iff_iff, isNamed_iff, decide_eq_true_iff]
  constructor
  · intro h
    apply OptionName.name_injective
    simpa using h.symm
  · rintro rfl
    rfl

/-- The value that members give for an option: the last one counts. -/
def given? (members : List (Value × Value)) (n : OptionName) : Option Value :=
  (members.reverse.find? (isNamed n)).map Prod.snd

theorem given?_cons (member : Value × Value) (members : List (Value × Value)) (n : OptionName) :
    given? (member :: members) n =
      (given? members n).or (if isNamed n member then some member.2 else none) := by
  simp only [given?, List.reverse_cons, List.find?_append]
  cases members.reverse.find? (isNamed n) with
  | some found => simp
  | none => by_cases h : isNamed n member <;> simp [h]

theorem given?_eq_none_iff : given? members n = none ↔ ∀ m ∈ members, m.1 ≠ .text n.name := by
  simp [given?, isNamed_iff]

/-- A member that is accepted names a recognized option and sets it. -/
theorem exists_of_setMember (h : setMember rule recognized o member = .ok o') :
    ∃ n : OptionName,
      member.1 = .text n.name ∧ n.name ∈ recognized ∧ o.set n member.2 = .ok o' := by
  unfold setMember at h
  split at h
  · next name hName =>
      split at h
      · next hKnown =>
          split at h
          · next n hOption =>
              obtain rfl := OptionName.ofName?_eq_some_iff.1 hOption
              refine ⟨n, hName, by simpa using hKnown, ?_⟩
              cases hSet : o.set n member.2 with
              | error p => simp [hSet, located] at h
              | ok done => simpa [hSet, located] using h
          · cases h
      · cases h
  · cases h

theorem get_of_setMember (h : setMember rule recognized o member = .ok o') (k : OptionName) :
    o'.get k = if isNamed k member then k.accepted member.2 else o.get k := by
  obtain ⟨n, hName, -, hSet⟩ := exists_of_setMember h
  rw [get_of_set hSet k]
  by_cases hk : k = n
  · subst hk
    simp [isNamed_iff.2 hName]
  · have hOther : ¬isNamed k member := by
      rw [isNamed_iff, hName]
      intro hSame
      apply hk
      apply OptionName.name_injective
      simpa using hSame.symm
    simp [hk, hOther]

/-- Members set the options that they give, the last one of each name, and no others. -/
theorem get_of_foldlM (h : members.foldlM (setMember rule recognized) o = .ok o')
    (k : OptionName) : o'.get k = ((given? members k).map k.accepted).getD (o.get k) := by
  induction members generalizing o with
  | nil =>
      cases h
      rfl
  | cons member rest ih =>
      rw [List.foldlM_cons, bind_eq_ok_iff] at h
      obtain ⟨middle, hFirst, hRest⟩ := h
      rw [ih hRest, given?_cons, get_of_setMember hFirst]
      cases given? rest k with
      | some w => simp
      | none => by_cases hk : isNamed k member <;> simp [hk]

theorem get_of_ofMembers (h : ofMembers rule recognized base members = .ok o) (k : OptionName) :
    o.get k = ((given? members k).map k.accepted).getD (base.get k) := by
  unfold ofMembers at h
  obtain ⟨read, hRead, hChecked⟩ := bind_eq_ok_iff.1 h
  split at hChecked
  · cases hChecked
  · cases hChecked
    exact get_of_foldlM hRead k

theorem mem_documented_iff {s : String} : s ∈ documented ↔ ∃ n : OptionName, s = n.name := by
  constructor
  · intro h
    obtain ⟨n, -, rfl⟩ := List.mem_map.1 h
    exact ⟨n, rfl⟩
  · rintro ⟨n, rfl⟩
    cases n <;> decide +kernel

theorem located_eq_error_iff {α : Type} {x : Except ConfigProblem α} {e : OptionError} :
    located rule x = .error e ↔ ∃ problem, x = .error problem ∧ e = .config ⟨rule, problem⟩ := by
  cases x <;> simp [located, eq_comm]

/-- Every refusal of options is worded for people and tells the rule, as long as only documented
options are recognized. -/
theorem exists_of_setMember_error {e : OptionError} (hKnown : recognized ⊆ documented)
    (h : setMember rule recognized o member = .error e) :
    ∃ problem, e = .config ⟨rule, problem⟩ := by
  unfold setMember at h
  split at h
  · split at h
    · next hListed =>
        obtain ⟨n, rfl⟩ := mem_documented_iff.1 (hKnown (List.contains_iff_mem.1 hListed))
        rw [OptionName.ofName?_eq_some_iff.2 rfl] at h
        obtain ⟨problem, -, rfl⟩ := located_eq_error_iff.1 h
        exact ⟨problem, rfl⟩
    · cases h
      exact ⟨_, rfl⟩
  · cases h
    exact ⟨_, rfl⟩

theorem exists_of_ofMembers_error {e : OptionError} (hKnown : recognized ⊆ documented)
    (h : ofMembers rule recognized base members = .error e) :
    ∃ problem, e = .config ⟨rule, problem⟩ := by
  unfold ofMembers at h
  rcases bind_eq_error_iff.1 h with hRead | ⟨read, -, hChecked⟩
  · obtain ⟨t, member, -, hMember⟩ := exists_of_foldlM_eq_error hRead
    exact exists_of_setMember_error hKnown hMember
  · split at hChecked
    · cases hChecked
      exact ⟨_, rfl⟩
    · cases hChecked

theorem exists_of_ofRaw_error {raw : RawOptions} {e : OptionError}
    (hKnown : recognized ⊆ documented) (h : ofRaw rule recognized base raw = .error e) :
    ∃ problem, e = .config ⟨rule, problem⟩ := by
  unfold ofRaw at h
  split at h
  · cases h
  · exact exists_of_ofMembers_error hKnown h
  · cases h
    exact ⟨_, rfl⟩
  · exact exists_of_ofMembers_error hKnown h

theorem optionNames_subset (r : Rule) : r.optionNames ⊆ documented := by
  intro s hs
  obtain ⟨n, -, rfl⟩ := Rule.mem_optionNames_iff.1 hs
  exact mem_documented_iff.2 ⟨n, rfl⟩

end RuleOptions

end HotPath
