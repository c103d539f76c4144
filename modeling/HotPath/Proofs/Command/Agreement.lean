import HotPath.Proofs.Command.Setup
import HotPath.Proofs.Project.ConfigFile

/-! A project is configured in the same way from the command line and from the library. The command
line collects the project's entries in a map of their own and lays that map over the preset's
entries; the library lays the entries over the preset's one by one. Where names come together under
one plain name, both keep the place of the first and the value of the last. -/

namespace HotPath

open Checks

theorem Linter.ofConfig_of_accepted {project : List (RawText × Value)}
    (h : ConfigFile.Accepted project) (preset : Value) (depth : Option Int) :
    ofConfig (.object project) preset depth =
      (Preset.ofValue ((project.lookup (.plain "extends")).getD preset) >>= fun base =>
        ofEntries (overlay base.entries (writtenRules (.object project))) depth) := by
  have hProject : membersOf (.object project) "get" = .ok project := by
    cases project <;> simp [membersOf, Value.isTruthy]
  have hRules : membersOf ((project.lookup (.plain "rules")).getD .null) "items" =
      .ok (writtenRules (.object project)) := by
    have hObject := h.rules
    simp only [writtenRules, Value.member?]
    generalize project.lookup (.plain "rules") = rules at hObject ⊢
    cases rules with
    | none => rfl
    | some v =>
        cases v with
        | object members => cases members <;> simp [membersOf, Value.isTruthy, Value.members]
        | _ => cases hObject
  unfold ofConfig
  rw [hProject]
  show (Preset.ofValue _ >>= fun base => membersOf _ "items" >>= fun rules =>
    ofEntries (overlay base.entries rules) depth) = _
  rw [hRules]
  rfl

namespace LintRequest

variable {r : LintRequest} {folder : Folder} {settings : Settings} {depth : Int}
  {project : List (RawText × Value)}

/-- A request that changes nothing of what is configured. -/
structure Plain (r : LintRequest) : Prop where
  preset : r.preset = none
  rules : r.rules = []
  maxCallDepth : r.maxCallDepth = none
  frameApis : r.frameApis = []
  banned : r.banned = []

theorem Plain.setUp_eq (h : r.Plain) (hDepth : settings.maxCallDepth = .ok depth) :
    r.setUp project settings = (r.choosePreset project settings >>= fun preset =>
      Linter.ofEntries (baseEntries preset project) (some depth)) := by
  have hOpen : r.openDepth settings = .ok depth := by simp [openDepth, h.maxCallDepth, hDepth]
  rw [LintRequest.setUp_eq, hOpen]
  simp [selectRules, h.rules, overrideNames, h.frameApis, h.banned, Except.mapError, bind,
    Except.bind]

theorem Plain.choosePreset_eq (h : r.Plain)
    (hExtends : project.lookup (.plain "extends") = none ∨
      ∃ p : Preset, project.lookup (.plain "extends") = some (.text p.name)) :
    r.choosePreset project settings =
      Preset.ofValue
        ((project.lookup (.plain "extends")).getD (.text (Text.lower settings.preset))) := by
  rcases hExtends with hNone | ⟨p, hNamed⟩
  · simp [choosePreset, h.preset, hNone, RawText.lower]
  · have hLower : Text.lower p.name = p.name := by
      cases p <;> decide +kernel
    have hGiven : p.name.isEmpty = false := by
      cases p <;> decide +kernel
    simp [choosePreset, h.preset, hNamed, RawText.lower, RawText.isEmpty, hLower, hGiven]

/-- Without changes from the command line a project gives the same linter as it does in the library,
or is refused for the same reason. -/
theorem linter_agrees_ofConfig (hPlain : r.Plain)
    (hLoad : ConfigFile.load folder (r.config.getD settings.configFile) = .ok project)
    (hExtends : project.lookup (.plain "extends") = none ∨
      ∃ p : Preset, project.lookup (.plain "extends") = some (.text p.name))
    (hDepth : settings.maxCallDepth = .ok depth) :
    (∃ l, r.linter folder settings = .ok l ∧
      Linter.ofConfig (.object project) (.text (Text.lower settings.preset)) (some depth) = .ok l) ∨
    ∃ e, r.linter folder settings = .error (.setup (.config e)) ∧
      Linter.ofConfig (.object project) (.text (Text.lower settings.preset)) (some depth) =
        .error (.config e) := by
  have hAccepted := ConfigFile.accepted_of_load hLoad
  have hSame : r.setUp project settings =
      Linter.ofConfig (.object project) (.text (Text.lower settings.preset)) (some depth) := by
    rw [hPlain.setUp_eq hDepth, hPlain.choosePreset_eq hExtends,
      Linter.ofConfig_of_accepted hAccepted]
    simp only [baseEntries_eq_overlay]
  have hExplained : Explained (r.setUp project settings) := by
    rw [hPlain.setUp_eq hDepth]
    apply Explained.bind
    · exact r.explained_choosePreset project settings
    · intro preset
      exact Linter.explained_ofEntries _ _
  rw [linter_of_load hLoad, ← hSame]
  cases hSetUp : r.setUp project settings with
  | ok l => exact .inl ⟨l, rfl, rfl⟩
  | error e =>
      obtain ⟨c, rfl⟩ := hExplained e hSetUp
      exact .inr ⟨c, rfl, rfl⟩

/-- A configuration that switches a rule off by its qualified name and then on by its own. -/
def repeatedName : Folder :=
  ConfigFile.alone "\x7b\"rules\":\x7b\"framelint/no-new-in-loop\":0,\"no-new-in-loop\":2\x7d\x7d"

def plainRequest : LintRequest := { paths := [], config := some ConfigFile.defaultPath }

theorem linter_agrees_ofConfig_repeatedName :
    ∃ project l, ConfigFile.load repeatedName ConfigFile.defaultPath = .ok project ∧
      plainRequest.linter repeatedName ⟨{}⟩ = .ok l ∧
      Linter.ofConfig (.object project) (.text (Text.lower "recommended")) (some 5) = .ok l := by
  have hRun : ((ConfigFile.load repeatedName ConfigFile.defaultPath).toOption.map fun project =>
      ((project.lookup (.plain "extends")).isNone,
        (plainRequest.setUp project ⟨{}⟩).toOption.map fun _ => ())) = some (true, some ()) := by
    decide +kernel
  obtain ⟨project, hLoad, hProject⟩ := exists_of_toOption_map hRun
  have hExtends : project.lookup (.plain "extends") = none := by
    simpa using congrArg Prod.fst hProject
  obtain ⟨l, hSetUp, -⟩ := exists_of_toOption_map (congrArg Prod.snd hProject)
  have hRequest : ConfigFile.load repeatedName
      (plainRequest.config.getD (Settings.configFile ⟨{}⟩)) = .ok project := hLoad
  have hLinter : plainRequest.linter repeatedName ⟨{}⟩ = .ok l := by
    rw [linter_of_load hRequest, hSetUp]
    rfl
  have hDepth : Settings.maxCallDepth ⟨{}⟩ = .ok 5 := rfl
  have hPlain : plainRequest.Plain := ⟨rfl, rfl, rfl, rfl, rfl⟩
  rcases linter_agrees_ofConfig hPlain hRequest (.inl hExtends) hDepth with
    ⟨l', hSame, hConfig⟩ | ⟨e, hRefused, -⟩
  · rw [hLinter] at hSame
    cases hSame
    exact ⟨project, l, hLoad, hLinter, hConfig⟩
  · rw [hLinter] at hRefused
    cases hRefused

end LintRequest

end HotPath
