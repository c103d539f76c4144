import HotPath.OrderedMap
import HotPath.Text.Integer

/-! Files of environment variables: assignments, one a line, with comments and optional quotes. What
is no assignment is passed over up to the end of its line. -/

namespace HotPath.EnvFile

/-- A blank that does not end the line. -/
def isInlineBlank (c : Char) : Bool := c ≠ '\n' && Text.isBlank c

/-- Text up to a closing quote and what follows it. The flag says that a backslash has just been
read; the character behind it closes nothing and begins no other escape. -/
def closeQuote (quote : Char) (escaped : Bool) : List Char → Option (List Char × List Char)
  | [] => none
  | c :: rest =>
    if c = quote && !escaped then some ([], rest)
    else (closeQuote quote (c = '\\' && !escaped) rest).map fun found => (c :: found.1, found.2)

/-- What may follow a backslash in quotes, and what it stands for. -/
def escapes (quote : Char) : List (Char × Char) :=
  [('\\', '\\'), ('\'', '\'')] ++
    if quote = '"' then
      [('"', '"'), ('a', '\x07'), ('b', '\x08'), ('f', '\x0c'), ('n', '\n'), ('r', '\r'),
        ('t', '\t'), ('v', '\x0b')]
    else []

/-- Replace escapes. The flag says that a backslash has just been read. -/
def unescape (quote : Char) : Bool → List Char → List Char
  | false, [] => []
  | true, [] => ['\\']
  | false, c :: rest =>
    if c = '\\' then unescape quote true rest else c :: unescape quote false rest
  | true, c :: rest =>
    match (escapes quote).lookup c with
    | some d => d :: unescape quote false rest
    | none => '\\' :: c :: unescape quote false rest

/-- A value without quotes ends before a comment that follows a blank. -/
def stripComment : List Char → List Char
  | [] => []
  | c :: rest =>
    if Text.isBlank c && (rest.dropWhile Text.isBlank).head? = some '#' then []
    else c :: stripComment rest

/-- The value of a line without quotes. Blanks right behind the equals sign may also precede a
comment. -/
def plainValue (line : List Char) : List Char := Text.trimBoth Text.isBlank (stripComment line)

/-- The value behind an equals sign and what follows it. -/
def value? (cs : List Char) : Option (List Char × List Char) :=
  let plain := some (plainValue (cs.takeWhile (· ≠ '\n')), cs.dropWhile (· ≠ '\n'))
  match cs.dropWhile isInlineBlank with
  | [] => plain
  | c :: rest =>
    if c = '\'' || c = '"' then
      (closeQuote c false rest).map fun found => (unescape c false found.1, found.2)
    else plain

/-- Text behind a leading `export`. -/
def dropExport (cs : List Char) : List Char :=
  let word := "export".toList
  let rest := cs.drop word.length
  if word.isPrefixOf cs && rest.head?.any isInlineBlank then rest.dropWhile isInlineBlank else cs

/-- A character of a name that is not quoted. -/
def isNameChar (c : Char) : Bool := c ≠ '=' && c ≠ '#' && !Text.isBlank c

/-- The name at the start of a line and what follows it; a comment has none. -/
def name? (cs : List Char) : Option (Option String × List Char) :=
  match cs with
  | '#' :: _ => some (none, cs)
  | '\'' :: rest =>
    match rest.takeWhile (· ≠ '\''), rest.dropWhile (· ≠ '\'') with
    | [], _ => none
    | _, [] => none
    | name, _ :: rest => some (some (String.ofList name), rest)
  | _ =>
    match cs.takeWhile isNameChar with
    | [] => none
    | name => some (some (String.ofList name), cs.dropWhile isNameChar)

/-- What follows the end of a line, after an optional comment. -/
def lineEnd? (cs : List Char) : Option (List Char) :=
  match cs.dropWhile isInlineBlank with
  | [] => some []
  | '\n' :: rest => some rest
  | '#' :: rest => some ((rest.dropWhile (· ≠ '\n')).drop 1)
  | _ => none

/-- A name that is mentioned, with the value as it is written if it is assigned one. -/
abbrev Mention := String × Option (List Char)

/-- The mention at the start of a text, if there is one, and the text after its line. -/
def mention (cs : List Char) : Option Mention × List Char :=
  let skip := fun (cs : List Char) => (cs.dropWhile (· ≠ '\n')).drop 1
  let cs := dropExport cs
  match name? cs with
  | none => (none, skip cs)
  | some (name, rest) =>
    let close := fun (value : Option (List Char)) (rest : List Char) =>
      match lineEnd? rest with
      | some rest => (name.map (·, value), rest)
      | none => (none, skip rest)
    match rest.dropWhile isInlineBlank with
    | '=' :: rest =>
      match value? rest with
      | some (value, rest) => close (some value) rest
      | none => (none, skip rest)
    | rest => close none rest

/-- The mentions of a text. Each takes at least a character of it. -/
def mentions (cs : List Char) : List Mention :=
  match cs.dropWhile Text.isBlank with
  | [] => []
  | c :: more =>
    let (found, rest) := mention (c :: more)
    if rest.length < cs.length then found.toList ++ mentions rest else found.toList
termination_by cs.length

/-- A reference to a variable inside a value, and what stands for a variable that is not known. -/
structure Reference where
  name : String
  fallback : Option String

/-- The reference at the beginning of a text, and its length. A name is followed by the closing
brace, or by a colon, a minus sign and the fallback. -/
def reference? (cs : List Char) : Option (Reference × Nat) :=
  match cs with
  | '$' :: '\x7b' :: body =>
    let name := body.takeWhile fun c => c ≠ '\x7d' && c ≠ ':'
    match body.drop name.length with
    | '\x7d' :: _ => some (⟨String.ofList name, none⟩, name.length + 3)
    | ':' :: '-' :: more =>
      let fallback := more.takeWhile (· ≠ '\x7d')
      if (more.drop fallback.length).isEmpty then none
      else
        some (⟨String.ofList name, some (String.ofList fallback)⟩,
          name.length + fallback.length + 5)
    | _ => none
  | _ => none

/-- Replace the references in a value. The number counts characters of a reference that has been
replaced already. -/
def expand (valueOf : Reference → String) : Nat → List Char → List Char
  | _, [] => []
  | skip + 1, _ :: rest => expand valueOf skip rest
  | 0, c :: rest =>
    match reference? (c :: rest) with
    | some (r, length) => (valueOf r).toList ++ expand valueOf (length - 1) rest
    | none => c :: expand valueOf 0 rest

/-- Names that have been mentioned so far; those that were not assigned a value have none. -/
abbrev Known := OrderedMap String (Option String)

/-- The value of a reference. What is set in the environment wins over earlier lines of the file. -/
def valueOf (environment : OrderedMap String String) (known : Known) (r : Reference) : String :=
  match environment.get? r.name with
  | some v => v
  | none =>
    match known.get? r.name with
    | some v => v.getD ""
    | none => r.fallback.getD ""

/-- Take a mention into account. -/
def resolve (environment : OrderedMap String String) (known : Known) (m : Mention) : Known :=
  known.insert m.1 (m.2.map fun cs => String.ofList (expand (valueOf environment known) 0 cs))

/-- The variables of a file. The last mention of a name counts, and sets nothing if it is no
assignment. -/
def read (environment : OrderedMap String String) (text : String) : OrderedMap String String :=
  let known := (mentions text.toList).foldl (resolve environment) {}
  .ofList (known.entries.filterMap fun m => m.2.map (m.1, ·))

end HotPath.EnvFile
