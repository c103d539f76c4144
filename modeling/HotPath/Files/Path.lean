/-! Paths as text with slashes. Empty parts and single dots are dropped; double dots are kept,
because what they mean depends on the folders. -/

namespace HotPath

/-- A path: what it hangs from (nothing for a relative path) and its parts. -/
structure Path where
  anchor : String
  parts : List String
deriving DecidableEq

namespace Path

/-- The parts between slashes. -/
def splitParts (s : String) : List String :=
  ((s.toList.splitOn '/').map String.ofList).filter fun part => !part.isEmpty && part ≠ "."

/-- One slash or more than two in front mean the root; exactly two are kept. -/
def anchorOf (cs : List Char) : String :=
  match cs with
  | '/' :: '/' :: '/' :: _ => "/"
  | '/' :: '/' :: _ => "//"
  | '/' :: _ => "/"
  | _ => ""

def ofText (s : String) : Path := ⟨anchorOf s.toList, splitParts s⟩

/-- The path without parts is written as a dot. -/
def text (p : Path) : String :=
  if p.anchor.isEmpty && p.parts.isEmpty then "." else p.anchor ++ "/".intercalate p.parts

/-- The last part. -/
def name (p : Path) : String := p.parts.getLast?.getD ""

/-- The end of a name from its last dot on, unless that dot is the first or last character. -/
def suffixOf (name : List Char) : List Char :=
  let ending := name.reverse.takeWhile (· ≠ '.')
  if ending.length = name.length || ending.isEmpty || ending.length + 1 = name.length then []
  else '.' :: ending.reverse

def suffix (p : Path) : String := String.ofList (suffixOf p.name.toList)

/-- The path of something below. -/
def below (p : Path) (rest : List String) : Path := ⟨p.anchor, p.parts ++ rest⟩

/-- Compare lists of parts, part by part. -/
def partsPrecede : List String → List String → Bool
  | [], _ => true
  | _ :: _, [] => false
  | a :: as, b :: bs => a < b || (a == b && partsPrecede as bs)

def keyParts (p : Path) : List String :=
  if p.anchor.isEmpty then p.parts else p.anchor :: p.parts

/-- Paths are ordered part by part. -/
def precedes (a b : Path) : Bool := partsPrecede a.keyParts b.keyParts

end Path

end HotPath
