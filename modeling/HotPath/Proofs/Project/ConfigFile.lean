import HotPath.Project.ConfigFile
import HotPath.Proofs.Json.Reader

/-! What a project's configuration is like once it has been accepted, and how the file can be
refused. -/

namespace HotPath.ConfigFile

variable {folder : Folder} {p : Path} {project : List (RawText × Value)}

/-- A configuration in which names are not repeated, a preset is named by a text and rules are
written in an object. -/
structure Accepted (project : List (RawText × Value)) : Prop where
  proper : (Value.object project).Proper
  preset : (project.lookup (.plain "extends")).all isText = true
  rules : (project.lookup (.plain "rules")).all isObject = true

theorem accepted_nil : Accepted [] where
  proper := .object List.nodup_nil (by simp)
  preset := rfl
  rules := rfl

theorem accepted_of_parse {path text : String} (h : parse path text = .ok project) :
    Accepted project := by
  unfold parse at h
  split at h
  · split at h <;> cases h
  · next members hRead =>
      split at h
      · cases h
      · next hCheck =>
          cases h
          have hProper := Json.proper_of_readChars hRead
          unfold check at hCheck
          split at hCheck
          · cases hCheck
          · split at hCheck
            · cases hCheck
            · next hPreset =>
                split at hCheck
                · cases hCheck
                · next hRules => exact ⟨hProper, by simpa using hPreset, by simpa using hRules⟩
  · cases h

/-- What is loaded is accepted; a file that does not exist configures nothing. -/
theorem accepted_of_load (h : load folder p = .ok project) : Accepted project := by
  unfold load at h
  split at h
  · split at h
    · cases h
    · exact accepted_of_parse h
  · cases h
  · cases h
    exact accepted_nil

/-- Where a project's configuration is by default. -/
def defaultPath : Path := ⟨"", [".framelintrc.json"]⟩

/-- A folder with nothing in it but a configuration. -/
def alone (text : String) : Folder :=
  { files := [(defaultPath.parts, ⟨text.toList.map fun c => .ofNat c.toNat, []⟩)] }

end HotPath.ConfigFile
