import HotPath.Text.Quoted

/-! Message templates. A template is text with places for the operation that was found and for the
context in which it runs. In written form a place is a name in braces, and a brace that is meant as
such is doubled. -/

namespace HotPath

/-- What is filled into a message. -/
inductive Placeholder
  | operation
  | context
deriving DecidableEq

def Placeholder.name : Placeholder → String
  | operation => "operation"
  | context => "context"

def Placeholder.ofName? (name : String) : Option Placeholder :=
  [operation, context].find? (·.name = name)

/-- A piece of a template. -/
inductive TemplatePart
  | text (s : String)
  | place (p : Placeholder)

/-- A message with places to fill in. -/
abbrev Template := List TemplatePart

/-- Why a written template cannot be filled in. -/
inductive TemplateError
  | unknownName (name : String)
  /-- A place without a name, or with a number for a name. -/
  | unknownIndex (index : Nat)
  | loneOpening
  | loneClosing
  | unclosed

namespace TemplateError

def message : TemplateError → String
  | unknownName name => Text.quoted name
  | unknownIndex index => s!"Replacement index {index} out of range for positional args tuple"
  | loneOpening => "Single '\x7b' encountered in format string"
  | loneClosing => "Single '\x7d' encountered in format string"
  | unclosed => "expected '\x7d' before end of string"

end TemplateError

namespace Template

def openBrace : Char := '\x7b'

def closeBrace : Char := '\x7d'

/-- A brace is doubled. -/
def writeChar (c : Char) : List Char :=
  if c = openBrace || c = closeBrace then [c, c] else [c]

def writePart : TemplatePart → List Char
  | .text s => s.toList.flatMap writeChar
  | .place p => openBrace :: p.name.toList ++ [closeBrace]

/-- A template in written form. -/
def written (t : Template) : String := String.ofList (t.flatMap writePart)

/-- What a name in braces stands for. -/
def placeOf (name : List Char) : Except TemplateError TemplatePart :=
  match Placeholder.ofName? (String.ofList name) with
  | some p => .ok (.place p)
  | none =>
    if name.all Char.isDigit then .error (.unknownIndex ((String.ofList name).toNat?.getD 0))
    else .error (.unknownName (String.ofList name))

/-- Read a template. The first argument is the name of a place that has been opened, in reverse. -/
def readFrom : Option (List Char) → List Char → Except TemplateError Template
  | some _, [] => .error .unclosed
  | some name, c :: rest =>
    if c = closeBrace then do
      let part ← placeOf name.reverse
      return part :: (← readFrom none rest)
    else readFrom (some (c :: name)) rest
  | none, [] => .ok []
  | none, c :: rest =>
    if c = openBrace then
      match rest with
      | [] => .error .loneOpening
      | d :: more =>
        if d = openBrace then do return .text (String.singleton c) :: (← readFrom none more)
        else if d = closeBrace then do
          let part ← placeOf []
          return part :: (← readFrom none more)
        else readFrom (some [d]) more
    else if c = closeBrace then
      match rest with
      | [] => .error .loneClosing
      | d :: more =>
        if d = closeBrace then do return .text (String.singleton c) :: (← readFrom none more)
        else .error .loneClosing
    else do return .text (String.singleton c) :: (← readFrom none rest)

/-- Read a template in written form. -/
def ofWritten (s : String) : Except TemplateError Template := readFrom none s.toList

/-- Fill in a template. -/
def fill (t : Template) (operation context : String) : String :=
  String.join (t.map fun
    | .text s => s
    | .place .operation => operation
    | .place .context => context)

end Template

end HotPath
