import HotPath.Text.Case
import HotPath.Value

/-! Text for terminals. Glyphs are replaced by plain characters on terminals that cannot show them.
-/

namespace HotPath

/-- What is known about a terminal: the encoding of the output, if there is one, and the encoding
that the system prefers, if it can tell. -/
structure Terminal where
  encoding : Option String
  preferred : Option String

namespace Terminal

/-- The encoding that text is written in, in lower case. -/
def encodingName (t : Terminal) : String :=
  match t.encoding.filter (!·.isEmpty) with
  | some name => Text.lower name
  | none =>
    match t.preferred with
    | some name => Text.lower name
    | none => "ascii"

/-- Whether every character can be written. -/
def showsAll (t : Terminal) : Bool := ["utf-8", "utf8", "utf_8"].contains t.encodingName

/-- Glyphs that are written and what takes their place. -/
def glyphs : List (Char × String) :=
  [('✓', "[OK]"), ('✗', "[FAIL]"), ('⚠', "[WARN]"), ('⚡', "[!]"), ('→', "->"), ('⇒', "=>"),
    ('│', "|"), ('─', "-"), ('…', "..."), ('•', "*")]

def plainChar (c : Char) : List Char :=
  match glyphs.lookup c with
  | some text => text.toList
  | none => [c]

/-- A text as the terminal can show it. No replacement contains a glyph, so one pass is enough. -/
def sanitize (t : Terminal) (s : String) : String :=
  if t.showsAll then s else String.ofList (s.toList.flatMap plainChar)

/-- Something to print. Only texts are sanitized. -/
def display (t : Terminal) : Value → String
  | .str s => t.sanitize s.repaired
  | v => v.shown

/-- A line with several things. -/
def line (t : Terminal) (items : List Value) : String :=
  " ".intercalate (items.map t.display) ++ "\n"

end Terminal

end HotPath
