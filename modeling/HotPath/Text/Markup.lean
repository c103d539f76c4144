/-! Console markup. Tags stand in square brackets, so brackets in shown text that look like a tag
have to be escaped with a backslash. -/

namespace HotPath.Text

/-- Characters that may follow the opening bracket of a tag. -/
def isTagStart (c : Char) : Bool :=
  ('a' ≤ c && c ≤ 'z') || c == '#' || c == '/' || c == '@'

/-- Number of characters up to the closing bracket of a tag, if no other bracket is opened before.
-/
def tagEnd? : List Char → Option Nat
  | [] => none
  | c :: rest =>
    if c = ']' then some 1 else if c = '[' then none else (tagEnd? rest).map (· + 1)

/-- Number of characters of the tag at the beginning of a text. -/
def tagLength? : List Char → Option Nat
  | '[' :: c :: rest => if isTagStart c then (tagEnd? rest).map (· + 2) else none
  | _ => none

def backslashes (n : Nat) : List Char := List.replicate n '\\'

/-- Escape every tag. So many characters are left of a tag that has been escaped, and so many
backslashes have been read: those right before a tag are doubled, and one more is added. -/
def escapeTags : Nat → Nat → List Char → List Char
  | _, slashes, [] => backslashes slashes
  | left + 1, _, c :: rest => c :: escapeTags left 0 rest
  | 0, slashes, c :: rest =>
    match tagLength? (c :: rest) with
    | some n => backslashes (2 * slashes + 1) ++ c :: escapeTags (n - 1) 0 rest
    | none =>
      if c = '\\' then escapeTags 0 (slashes + 1) rest
      else backslashes slashes ++ c :: escapeTags 0 0 rest

/-- Text that is shown as it is by a console that understands markup. A single backslash at the end
is doubled, because it would escape what follows. -/
def escapeMarkup (s : String) : String :=
  let cs := escapeTags 0 0 s.toList
  match cs.reverse with
  | '\\' :: '\\' :: _ => String.ofList cs
  | '\\' :: _ => String.ofList (cs ++ ['\\'])
  | _ => String.ofList cs

/-- Text as a console shows it. So many characters are left of a tag, which is shown only if it was
escaped, and so many backslashes have been read: those right before a tag are halved, and an odd one
escapes the tag. -/
def showTags (escaped : Bool) : Nat → Nat → List Char → List Char
  | _, slashes, [] => backslashes slashes
  | left + 1, _, c :: rest =>
    if escaped then c :: showTags escaped left 0 rest else showTags escaped left 0 rest
  | 0, slashes, c :: rest =>
    match tagLength? (c :: rest) with
    | some n =>
      let shown := slashes % 2 == 1
      backslashes (slashes / 2) ++
        if shown then c :: showTags shown (n - 1) 0 rest else showTags shown (n - 1) 0 rest
    | none =>
      if c = '\\' then showTags false 0 (slashes + 1) rest
      else backslashes slashes ++ c :: showTags false 0 0 rest

def showMarkup (s : String) : String := String.ofList (showTags false 0 0 s.toList)

end HotPath.Text
