import HotPath.Command.Run
import HotPath.Proofs.Command.Setup
import HotPath.Proofs.Project.ConfigFile
import HotPath.Proofs.Project.Variables

/-! How setting up a linter fails. Nearly all failures are errors in the configuration, which end a
command with a message and exit code 2. The others escape: a file of variables that cannot be loaded,
a configuration file that cannot be read as text, and options that are laid out in a table, because
names from the command line have to be set in them, before anyone has checked that they are an
object. -/

namespace HotPath

open Checks

/-- Whether options can be laid out in a table. -/
def RawOptions.Tabular : RawOptions → Prop
  | .value v => PairTable.Tabular v
  | .members _ => True

theorem PairTable.ofRaw_isOk_iff (raw : RawOptions) :
    (∃ t, PairTable.ofRaw raw = .ok t) ↔ raw.Tabular := by
  cases raw with
  | value v => exact PairTable.ofValue_isOk_iff v
  | members ms => simp [PairTable.ofRaw, RawOptions.Tabular]

namespace LintRequest

variable {r : LintRequest} {folder : Folder} {settings : Settings} {name : RawText}
  {loaded : Except VariableError Settings}
  {project : List (RawText × Value)} {preset : Preset} {entry : Entry}
  {entries selected : OrderedMap RawText Entry} {e : ShapeError}

end LintRequest

end HotPath
