import HotPath.Project.Settings
import HotPath.Proofs.Checks
import HotPath.Proofs.OrderedMap

/-! How loading variables fails. The file is not UTF-8, or one of its variables cannot be set. No
name has two values in what is read from a file, so whether a variable is new can be seen in the
variables that were set before the file was read. -/

namespace HotPath

namespace Variables

open Checks

variable {vars vars' : Variables} {p : String × String} {e : VariableError} {folder : Folder}
  {file : Path}

/-- Why a variable cannot be set: null characters are refused first, then names with an equals sign.
-/
def Refused (name value : String) : VariableError → Prop
  | .undecodable => False
  | .nullCharacter => '\x00' ∈ name.toList ∨ '\x00' ∈ value.toList
  | .illegalName => '=' ∈ name.toList ∧ ¬('\x00' ∈ name.toList ∨ '\x00' ∈ value.toList)

/-- A variable that is set already, or can be set. -/
def Settled (vars : Variables) (p : String × String) : Prop :=
  p.1 ∈ vars.keys ∨ ∀ e, ¬Refused p.1 p.2 e

end Variables

end HotPath
