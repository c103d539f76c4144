import HotPath.Text.Quoted

/-! What goes wrong while a single syntax node is read. Trees come from a host, and a host's node
may fail when one of its fields or its text is asked for. -/

namespace HotPath

/-- The ways in which a read can fail. -/
inductive Fault.Cause
  /-- The node does not offer what was asked for. -/
  | missing
  | mistyped
  | badValue
  | outOfRange
  | unknownKey
  /-- The host broke down. -/
  | crash
  /-- The system refused a path. -/
  | refused
deriving DecidableEq

/-- A failed read, with the host's words for it. -/
structure Fault where
  cause : Fault.Cause
  detail : String
deriving DecidableEq

namespace Fault

/-- Faults that concern one odd node only. Whoever visits nodes skips these and goes on; the others
end the analysis. -/
def absorbed (f : Fault) : Bool :=
  match f.cause with
  | .missing | .mistyped | .badValue | .outOfRange => true
  | .unknownKey | .crash | .refused => false

/-- The text of a fault. A missing key is shown in quotes. -/
def message (f : Fault) : String :=
  match f.cause with
  | .unknownKey => Text.quoted f.detail
  | _ => f.detail

end Fault

end HotPath
