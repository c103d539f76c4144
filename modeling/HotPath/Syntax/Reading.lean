import HotPath.Syntax.Cursor

/-! What the analysis reads off a node: names, bodies, callees and arguments. -/

namespace HotPath

/-- Kinds of nodes that are functions. Keyword tokens are nodes too, and the keyword of a function
has one of these kinds. -/
def functionKinds : List String :=
  ["function_declaration", "generator_function_declaration", "function_expression", "function",
    "generator_function", "arrow_function", "method_definition"]

/-- Kinds of functions that may stand where a value is expected. -/
def functionLiteralKinds : List String :=
  ["function_expression", "function", "generator_function", "arrow_function"]

/-- The kind of a call. -/
def callKind : String := "call_expression"

namespace Cursor

def isFunction (c : Cursor) : Bool := functionKinds.contains c.kind

def isFunctionLiteral (c : Cursor) : Bool := functionLiteralKinds.contains c.kind

def isCall (c : Cursor) : Bool := c.kind == callKind

/-- The body of a function. For an arrow with an expression body it is that expression. -/
def body (c : Cursor) : Except Fault (Option Cursor) := c.field "body"

/-- The name that a function or class is written with; an empty name is none. -/
def declaredName (c : Cursor) : Except Fault (Option String) := do
  let name ← c.fieldText "name"
  return if name.isEmpty then none else some name

/-- What a call calls. -/
def callee (c : Cursor) : Except Fault (Option Cursor) := c.field "function"

/-- The callee with one pair of parentheses removed. Parentheses around anything but a single node
hide the callee. -/
def bareCallee (callee : Cursor) : Option Cursor :=
  if callee.kind = "parenthesized_expression" then
    match callee.namedChildren with
    | [inner] => some inner
    | _ => none
  else some callee

/-- The name of a callee: an identifier, or the property at the end of a member access. -/
def nameOfCallee (callee : Cursor) : Except Fault (Option String) := do
  if callee.kind = "identifier" then
    return some (← callee.text)
  if callee.kind = "member_expression" then
    match ← callee.field "property" with
    | none => return none
    | some property =>
      if property.kind = "property_identifier" || property.kind = "private_property_identifier" then
        return some (← property.text)
      return none
  return none

/-- The name that a call invokes. Calls of computed callees have none. -/
def calleeName (c : Cursor) : Except Fault (Option String) := do
  match ← c.callee with
  | none => return none
  | some callee =>
    match bareCallee callee with
    | none => return none
    | some bare => nameOfCallee bare

/-- The arguments of a call. -/
def arguments (c : Cursor) : Except Fault (List Cursor) := do
  match ← c.field "arguments" with
  | none => return []
  | some list => return list.namedChildren

/-- The arguments of a call that are written as functions. -/
def functionArguments (c : Cursor) : Except Fault (List Cursor) := do
  return (← c.arguments).filter (·.isFunctionLiteral)

/-- Wrappers that leave the value inside them as it is. -/
def wrapperKinds : List String :=
  ["parenthesized_expression", "as_expression", "satisfies_expression", "non_null_expression"]

/-- A value without the wrappers around it. -/
def unwrap (c : Cursor) : Cursor :=
  if wrapperKinds.contains c.kind then
    match h : c.namedChildren with
    | [] => c
    | inner :: _ =>
      have : inner.size < c.size :=
        size_lt_of_mem_children (mem_children_of_mem_namedChildren (h ▸ List.mem_cons_self))
      inner.unwrap
  else c
termination_by c.size

/-- Calls that return the function handed to them. -/
def functionWrappers : List String := ["useCallback"]

/-- The function that a wrapping call returns. -/
def wrappedFunction (c : Cursor) : Except Fault (Option Cursor) := do
  match ← c.calleeName with
  | none => return none
  | some name =>
    if functionWrappers.contains name then
      match ← c.arguments with
      | [] => return none
      | first :: _ => return if first.isFunctionLiteral then some first else none
    else return none

end Cursor

/-- The lines and columns that a finding covers: lines count from one, columns from zero. -/
structure SourceRange where
  line : Int
  column : Int
  endLine : Int
  endColumn : Int
deriving DecidableEq

def Cursor.range (c : Cursor) : SourceRange :=
  ⟨c.info.first.line, c.info.first.column, c.info.last.line, c.info.last.column⟩

end HotPath
