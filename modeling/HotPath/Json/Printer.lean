import HotPath.Text.Quoted
import HotPath.Value

/-! Writing JSON. -/

namespace HotPath.Json

/-- How a document is written: whether characters outside ASCII are escaped, and how far each level
is indented; without an indentation everything stands on one line. -/
structure Style where
  asciiOnly : Bool
  indent : Option Nat

def unicodeEscape (n : Nat) : List Char := '\\' :: 'u' :: Text.hexDigits 4 n

/-- One character inside quotes. Outside the basic plane a pair of escapes is needed. -/
def writeChar (style : Style) (c : Char) : List Char :=
  if c = '"' then ['\\', '"']
  else if c = '\\' then ['\\', '\\']
  else if c = '\n' then ['\\', 'n']
  else if c = '\r' then ['\\', 'r']
  else if c = '\t' then ['\\', 't']
  else if c = '\x08' then ['\\', 'b']
  else if c = '\x0c' then ['\\', 'f']
  else if c.toNat < 32 then unicodeEscape c.toNat
  else if style.asciiOnly && c.toNat > 126 then
    if c.toNat < 0x10000 then unicodeEscape c.toNat
    else
      let n := c.toNat - 0x10000
      unicodeEscape (0xD800 + n / 0x400) ++ unicodeEscape (0xDC00 + n % 0x400)
  else [c]

/-- A text between its quotes. Half of a pair can only be escaped. -/
def writeText (style : Style) : RawText → List Char
  | .plain s => s.toList.flatMap (writeChar style)
  | .broken before half after =>
    before.toList.flatMap (writeChar style) ++ unicodeEscape half.code ++ writeText style after

def writeString (style : Style) (t : RawText) : String :=
  "\"" ++ String.ofList (writeText style t) ++ "\""

/-- A line end and the indentation of a level; nothing if everything stands on one line. -/
def lineBreak (style : Style) (level : Nat) : String :=
  match style.indent with
  | none => ""
  | some width => "\n" ++ String.ofList (List.replicate (width * level) ' ')

/-- What separates items: a comma, and a blank if no line end follows. -/
def separator (style : Style) (level : Nat) : String :=
  match style.indent with
  | none => ", "
  | some _ => "," ++ lineBreak style level

/-- Items between brackets. Empty brackets stay together. -/
def bracketed (style : Style) (level : Nat) (opening closing : String) (items : List String) :
    String :=
  if items.isEmpty then opening ++ closing
  else opening ++ lineBreak style (level + 1) ++ (separator style (level + 1)).intercalate items ++
    lineBreak style level ++ closing

def writeFloat (x : Binary64) : String :=
  match x with
  | .nan => "NaN"
  | .infinite negative => if negative then "-Infinity" else "Infinity"
  | x => x.text

mutual

/-- A value at a level of nesting. -/
def write (style : Style) (level : Nat) : Value → String
  | .null => "null"
  | .bool b => if b then "true" else "false"
  | .int i => toString i
  | .float x => writeFloat x
  | .str t => writeString style t
  | .list items => bracketed style level "[" "]" (writeAll style (level + 1) items)
  | .object members => bracketed style level "\x7b" "\x7d" (writeMembers style (level + 1) members)

def writeAll (style : Style) (level : Nat) : List Value → List String
  | [] => []
  | v :: rest => write style level v :: writeAll style level rest

def writeMembers (style : Style) (level : Nat) : List (RawText × Value) → List String
  | [] => []
  | (name, v) :: rest =>
    (writeString style name ++ ": " ++ write style level v) :: writeMembers style level rest

end

end HotPath.Json
