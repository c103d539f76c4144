import HotPath.Files.Folder
import HotPath.Value

/-! Snapshots: a folder as one document. It may say where the working folder is; paths that do not
hang from the root start there. Every file comes with its text and, since parsing is left to others,
with the trees that were made of it. A tree is a listing of its nodes in pre-order: place
of the parent, kind, role, whether the node is named, start and end. -/

namespace HotPath.Snapshot

/-- A list of which every item can be read. -/
def listOf? {α : Type} (read : Value → Option α) : Value → Option (List α)
  | .list items => items.mapM read
  | _ => none

def text? : Value → Option String
  | .text s => some s
  | _ => none

/-- One row of a listing. A parent below zero marks the root. -/
def row? (bytes : List UInt8) (v : Value) (ordinal : Nat) : Option Node.Row :=
  match v with
  | .list [.int parent, .text kind, .text role, .int named, .int start, .int stop] =>
    let start := start.toNat
    let stop := stop.toNat
    some
      { parent := if parent < 0 then none else some parent.toNat
        info :=
          { ordinal, kind, role, named := named ≠ 0, start, stop
            first := .ofOffset bytes start, last := .ofOffset bytes stop
            reading := .bytes ((bytes.drop start).take (stop - start)) } }
  | _ => none

/-- A tree with the language that it was parsed as. -/
def tree? (bytes : List UInt8) (v : Value) : Option (Language × Node) :=
  match v with
  | .list [.text name, .list rows] => do
    let language ← Language.ofName? name
    let rows ← rows.zipIdx.mapM fun (row, i) => row? bytes row i
    return (language, ← Node.ofRows rows)
  | _ => none

/-- A file: its path, its text and its trees. -/
def file? (working : Folder) (v : Value) : Option (List String × Source) := do
  let path := Path.ofText (← text? (← v.member? "path"))
  let bytes := (← text? (← v.member? "text")).toUTF8.toList
  let trees ← listOf? (tree? bytes) ((v.member? "trees").getD (.list []))
  return (working.startOf path ++ path.parts, ⟨bytes, trees⟩)

/-- The folder that a document describes. -/
def folder? (v : Value) : Option Folder := do
  let place ← text? ((v.member? "place").getD (.text ""))
  let working : Folder := { place := (Path.ofText place).parts }
  let files ← listOf? (file? working) (← v.member? "files")
  let folders ← listOf? text? ((v.member? "folders").getD (.list []))
  return { working with
    files
    folders := folders.map fun p => working.startOf (.ofText p) ++ (Path.ofText p).parts }

end HotPath.Snapshot
