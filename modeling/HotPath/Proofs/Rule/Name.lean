import HotPath.Rule.Basic
import Mathlib.Tactic.Common

/-! The names of a rule. A rule is found by its own name and by that name with the plugin in front of
it. Taking the plugin off twice is not the same as taking it off once, so a name with the plugin
twice in front is still a qualified name after its plugin has been taken off. -/

namespace HotPath.Rule

theorem withoutPlugin_append (s : String) : withoutPlugin (pluginName ++ "/" ++ s) = s := by
  simp [withoutPlugin, pluginName]

/-- Either the plugin is taken off a text, or nothing changes. -/
theorem withoutPlugin_cases (s : String) :
    s = pluginName ++ "/" ++ withoutPlugin s ∨ withoutPlugin s = s := by
  by_cases h : (pluginName ++ "/").toList.isPrefixOf s.toList
  · obtain ⟨rest, hRest⟩ := List.isPrefixOf_iff_prefix.1 h
    have hText : s = pluginName ++ "/" ++ String.ofList rest := by
      rw [← String.toList_inj]
      simp [← hRest]
    left
    nth_rewrite 2 [hText]
    rw [withoutPlugin_append]
    exact hText
  · right
    simp only [withoutPlugin, h]
    rfl

/-- A name with the plugin in front of it. -/
def inPlugin : RawText → RawText
  | .plain s => .plain (pluginName ++ "/" ++ s)
  | .broken before half after => .broken (pluginName ++ "/" ++ before) half after

theorem plainId_inPlugin (name : RawText) : plainId (inPlugin name) = name := by
  cases name <;> simp only [inPlugin, plainId, withoutPlugin_append]

/-- Either the plugin is taken off, or nothing changes. -/
theorem plainId_cases (name : RawText) : name = inPlugin (plainId name) ∨ plainId name = name := by
  cases name with
  | plain s =>
      simp only [plainId, inPlugin, RawText.plain.injEq]
      exact withoutPlugin_cases s
  | broken before half after =>
      simp only [plainId, inPlugin, RawText.broken.injEq, and_true]
      exact withoutPlugin_cases before

theorem plainId_id (r : Rule) : plainId r.id = r.id := by
  cases r <;> decide +kernel

/-- A qualified name is no plain name. -/
theorem qualifiedId_ne_id (r r' : Rule) : r.qualifiedId ≠ r'.id := by
  cases r <;> cases r' <;> decide +kernel

theorem id_injective : Function.Injective id := by
  intro r r' h
  cases r <;> cases r' <;> simp_all [id]

theorem plainId_eq_id_iff {name : RawText} {r : Rule} :
    plainId name = r.id ↔ name = r.id ∨ name = r.qualifiedId := by
  constructor
  · intro h
    rcases plainId_cases name with hName | hName
    · exact .inr (by rw [hName, h]; rfl)
    · exact .inl (hName.symm.trans h)
  · rintro (rfl | rfl)
    · exact plainId_id r
    · exact plainId_inPlugin r.id

/-- Only a name with the plugin twice in front becomes a qualified name. -/
theorem plainId_eq_qualifiedId_iff {name : RawText} {r : Rule} :
    plainId name = r.qualifiedId ↔ name = inPlugin r.qualifiedId := by
  constructor
  · intro h
    rcases plainId_cases name with hName | hName
    · rw [hName, h]
    · have hQualified : plainId r.qualifiedId = r.id := plainId_inPlugin r.id
      rw [h] at hName
      rw [hName, h] at hQualified
      exact absurd (RawText.plain.inj hQualified) (qualifiedId_ne_id r r)
  · rintro rfl
    exact plainId_inPlugin r.qualifiedId

theorem ofPlainId?_eq_some_iff {name : RawText} {r : Rule} :
    ofPlainId? name = some r ↔ name = r.id := by
  constructor
  · intro h
    exact (of_decide_eq_true (List.find?_some h :)).symm
  · rintro rfl
    cases r <;> decide +kernel

/-- A rule is found by its own name and by its qualified name. -/
theorem ofName?_eq_some_iff {name : RawText} {r : Rule} :
    ofName? name = some r ↔ name = r.id ∨ name = r.qualifiedId := by
  rw [ofName?, ofPlainId?_eq_some_iff, plainId_eq_id_iff]

end HotPath.Rule
