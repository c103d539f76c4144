import HotPath.Files.Source
import HotPath.Text.Quoted

/-! Folders. What a run can meet on a disk is a value: the place of the working folder, files by
their parts, and folders that may be empty. Permissions and symbolic links are left out, so whatever
is there can be read and has one place. -/

namespace HotPath

/-- A working folder, with what lies in it and around it. All parts lead down from the root and
contain no double dots. -/
structure Folder where
  /-- Where the working folder is. -/
  place : List String := []
  files : List (List String × Source) := []
  folders : List (List String) := []

/-- What a path leads to. -/
inductive Located
  | file (source : Source)
  | folder (parts : List String)
  | missing
  /-- The path goes on below something that is a file. -/
  | belowFile
  /-- The path, or one of its parts, is longer than a path can be. -/
  | tooLong

/-- Why a file cannot be read. -/
inductive ReadError
  | missing (path : String)
  | isFolder (path : String)
  | notFolder (path : String)
  | tooLong (path : String)
  | nullCharacter

def ReadError.message : ReadError → String
  | missing path => s!"[Errno 2] No such file or directory: {Text.quoted path}"
  | isFolder path => s!"[Errno 21] Is a directory: {Text.quoted path}"
  | notFolder path => s!"[Errno 20] Not a directory: {Text.quoted path}"
  | tooLong path => s!"[Errno 36] File name too long: {Text.quoted path}"
  | nullCharacter => "embedded null byte"

namespace Folder

/-- The longest part of a path, in bytes. -/
def maxPartSize : Nat := 255

/-- The longest path, in bytes. -/
def maxPathSize : Nat := 4095

/-- The file with the given parts; the last one written counts. -/
def file? (f : Folder) (parts : List String) : Option Source := f.files.reverse.lookup parts

/-- Folders are the working folder, those listed and those that something lies in. -/
def isFolder (f : Folder) (parts : List String) : Bool :=
  (f.place :: f.folders).any parts.isPrefixOf ||
    f.files.any fun entry => parts.isPrefixOf entry.1 && entry.1 ≠ parts

/-- Follow parts from a folder. Double dots go one folder up, and from the root nowhere else. -/
def walk (f : Folder) (here : List String) : List String → Located
  | [] => if f.isFolder here then .folder here else .missing
  | part :: rest =>
    if part = ".." then f.walk here.dropLast rest
    else
      let next := here ++ [part]
      if part.utf8ByteSize > maxPartSize then .tooLong
      else if f.isFolder next then f.walk next rest
      else match f.file? next with
        | none => .missing
        | some source => if rest.isEmpty then .file source else .belowFile

/-- Whether a path holds a null character, which no path to a file does. -/
def holdsNull (p : Path) : Bool := p.text.toList.contains '\x00'

/-- Whether a path is longer than a path can be. -/
def isTooLong (p : Path) : Bool := p.text.utf8ByteSize > maxPathSize

/-- Where a path starts: in the working folder, unless it hangs from the root. -/
def startOf (f : Folder) (p : Path) : List String := if p.anchor.isEmpty then f.place else []

/-- What a path leads to. -/
def locate (f : Folder) (p : Path) : Located :=
  if holdsNull p then .missing
  else if isTooLong p then .tooLong
  else f.walk (f.startOf p) p.parts

/-- Read a file. -/
def read (f : Folder) (p : Path) : Except ReadError Source :=
  if holdsNull p then .error .nullCharacter
  else match f.locate p with
  | .file source => .ok source
  | .folder _ => .error (.isFolder p.text)
  | .missing => .error (.missing p.text)
  | .belowFile => .error (.notFolder p.text)
  | .tooLong => .error (.tooLong p.text)

def isFile (f : Folder) (p : Path) : Bool :=
  match f.locate p with
  | .file _ => true
  | _ => false

/-- The parts of everything that is listed. -/
def listed (f : Folder) : List (List String) := f.files.map Prod.fst ++ f.place :: f.folders

/-- Everything below a folder, files and folders, by the parts from there. A folder comes before
what lies in it. -/
def entriesBelow (f : Folder) (parts : List String) : List (List String) :=
  (f.listed.filter parts.isPrefixOf).flatMap fun entry =>
    let rest := entry.drop parts.length
    (List.range rest.length).map fun n => rest.take (n + 1)

/-- The parts below a folder of all files in it. -/
def filesBelow (f : Folder) (parts : List String) : List (List String) :=
  (f.files.filter fun entry => parts.isPrefixOf entry.1).map fun entry => entry.1.drop parts.length

end Folder

end HotPath
