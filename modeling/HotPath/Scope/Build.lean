import HotPath.Scope.Basic
import HotPath.Scope.Pattern

/-! Building the scope table in one walk. Entering a function, a class body or a block opens a
scope, leaving it closes the scope, and declarations are made on the way. Nothing is looked up
during the walk, so a name may be used before it is declared. -/

namespace HotPath

/-- Kinds that open a block scope. -/
def blockKinds : List String :=
  ["statement_block", "for_statement", "for_in_statement", "catch_clause", "switch_body"]

/-- Kinds that define a class. -/
def classKinds : List String := ["class_declaration", "abstract_class_declaration", "class"]

/-- Kinds that define a field of a class. -/
def fieldKinds : List String := ["field_definition", "public_field_definition"]

/-- A table under construction, with the scopes that are open. There is always one. -/
structure ScopeBuilder where
  table : ScopeTable
  /-- The innermost open scope. -/
  top : Nat
  /-- The other open scopes, the innermost first. -/
  below : List Nat

namespace ScopeBuilder

/-- Begin with the scope of the whole program, whatever the kind of the root. -/
def start (t : ScopeTable) (root : Cursor) : ScopeBuilder :=
  ⟨t.addScope .program root [], t.scopes.length, []⟩

def topKind? (b : ScopeBuilder) : Option ScopeKind := (b.table.scope? b.top).map (·.kind)

/-- Open a scope inside the innermost one. -/
def push (kind : ScopeKind) (node : Cursor) (b : ScopeBuilder) : ScopeBuilder :=
  ⟨b.table.addScope kind node (b.top :: b.below), b.table.scopes.length, b.top :: b.below⟩

/-- Close the innermost scope if the given node opened it. A handler that failed early has opened
none, and the outermost scope is never closed. -/
def pop (node : Cursor) (b : ScopeBuilder) : ScopeBuilder :=
  match b.below with
  | [] => b
  | next :: rest =>
    if ((b.table.scope? b.top).any fun s => s.node.key = node.key) then ⟨b.table, next, rest⟩ else b

/-- Remember which scope is in effect at a node. -/
def place (node : Cursor) (b : ScopeBuilder) : ScopeBuilder :=
  { b with table := { b.table with placed := b.table.placed.insert node.key b.top } }

/-- Declare a name in a scope. An empty name declares nothing. -/
def declare (n : Nat) (d : Declaration) (b : ScopeBuilder) : ScopeBuilder :=
  if d.name.isEmpty then b else { b with table := b.table.declare n d }

end ScopeBuilder

/-- A step of the walk. -/
abbrev ScopeStep := Task ScopeBuilder

namespace ScopeStep

/-- The innermost open scope. -/
def top : ScopeStep Nat := do return (← Task.state).top

def topKind? : ScopeStep (Option ScopeKind) := do return (← Task.state).topKind?

def push (kind : ScopeKind) (node : Cursor) : ScopeStep Unit := Task.update (·.push kind node)

def declare (n : Nat) (d : Declaration) : ScopeStep Unit := Task.update (·.declare n d)

/-- Declare a name that may be missing. -/
def declareNamed (n : Nat) (name : Option String) (kind : BindingKind) (node : Cursor) :
    ScopeStep Unit :=
  match name with
  | none => return ()
  | some name => declare n { name, kind, node }

/-- Declare the names of a pattern. Names before a fault are declared. -/
def declarePattern (n : Nat) (kind : BindingKind) (initCallee : Option String)
    (pattern : Cursor) : ScopeStep Unit := do
  let found := pattern.boundNames none
  Task.each (fun p => declare n
    { name := p.name, kind, node := p.node, initCallee, patternIndex := p.index }) found.names
  match found.fault with
  | some fault => Task.stop fault
  | none => return ()

/-- Declare the parameters of a function: a list of patterns, or a single one. -/
def declareParameters (n : Nat) (c : Cursor) : ScopeStep Unit := do
  match ← c.field "parameters" with
  | some list => Task.each (declarePattern n .parameter none) list.namedChildren
  | none =>
    match ← c.field "parameter" with
    | some single => declarePattern n .parameter none single
    | none => return ()

/-- A function is declared around its scope, its parameters inside. A function literal with a name
sees itself, and a method is declared only in a class body. -/
def enterFunction (c : Cursor) : ScopeStep Unit := do
  let name ← c.declaredName
  let outside ← top
  if c.kind = "function_declaration" || c.kind = "generator_function_declaration" then
    declareNamed outside name (.function c) c
  else if c.kind = "method_definition" && (← topKind?) = some .classBody then
    declareNamed outside name (.method c) c
  push .function c
  let inside ← top
  if c.isFunctionLiteral then
    declareNamed inside name (.function c) c
  declareParameters inside c

/-- A class statement declares its name; a class expression does not. -/
def enterClass (c : Cursor) : ScopeStep Unit := do
  let name ← c.declaredName
  if c.kind = "class" then return ()
  declareNamed (← top) name .classDefinition c

def enterClassBody (c : Cursor) : ScopeStep Unit := push .classBody c

/-- The body of a function shares the scope of the function. -/
def isFunctionBody (c : Cursor) : Bool :=
  c.kind == "statement_block" && c.parent?.any (·.isFunction)

/-- A block opens a scope. A catch clause declares its parameter there, and a loop over a collection
its variable, unless it only assigns to one. -/
def enterBlock (c : Cursor) : ScopeStep Unit := do
  if isFunctionBody c then return ()
  push .block c
  let inside ← top
  if c.kind = "catch_clause" then
    match ← c.field "parameter" with
    | some parameter => declarePattern inside .parameter none parameter
    | none => return ()
  else if c.kind = "for_in_statement" then
    match ← c.field "left" with
    | none => return ()
    | some left =>
      match ← c.field "kind" with
      | none => return ()
      | some _ => declarePattern inside .value none left

/-- Declare a field that holds a function as a method of the given name. -/
def declareField (name : Option Cursor) (c : Cursor) : ScopeStep Unit := do
  let value ← c.field "value"
  match name, value with
  | some name, some value =>
    if value.isFunctionLiteral then
      declare (← top) { name := ← name.text, kind := .method value, node := c }
  | _, _ => return ()

/-- A field of a class that holds a function is a method. -/
def enterField (c : Cursor) : ScopeStep Unit := do
  if (← topKind?) ≠ some .classBody then return ()
  let property ← c.field "property"
  let name ← if property.isSome then pure property else c.field "name"
  declareField name c

/-- The scope that a declarator declares into: the nearest function or program for one that belongs
to a `var` statement, else the innermost scope. -/
def declaratorScope (c : Cursor) : ScopeStep Nat := do
  let inside ← top
  if c.parent?.any (·.kind = "variable_declaration") then
    return ((← Task.state).table.nearest? [.function, .program] inside).getD inside
  return inside

/-- What a single declared name is bound to, judged by its initializer. -/
def declarationOf (c : Cursor) (name : String) (value : Option Cursor) :
    Except Fault Declaration := do
  let plain : Declaration := { name, kind := .value, node := c }
  match value.map (·.unwrap) with
  | none => return plain
  | some value =>
    if value.isFunctionLiteral then
      return { plain with kind := .function value }
    if value.kind = "identifier" then
      return { plain with aliasOf := some (← value.text) }
    if value.isCall then
      match ← value.wrappedFunction with
      | some target => return { plain with kind := .function target }
      | none => return { plain with initCallee := ← value.calleeName }
    if value.kind = "class" then
      return { plain with kind := .classDefinition }
    return plain

/-- A declarator declares one name or the names of a pattern. -/
def enterDeclarator (c : Cursor) : ScopeStep Unit := do
  match ← c.field "name" with
  | none => return ()
  | some nameNode =>
    let value ← c.field "value"
    let n ← declaratorScope c
    if nameNode.kind = "identifier" then
      let name ← nameNode.text
      declare n (← declarationOf c name value)
    else
      let initCallee ← match value with
        | some value => if value.isCall then value.calleeName else pure none
        | none => pure none
      declarePattern n .value initCallee nameNode

/-- Quotes around a module name. -/
def isModuleQuote (ch : Char) : Bool := ch == '"' || ch == '\'' || ch == '`'

def stripQuotes (s : String) : String :=
  let dropped := s.toList.dropWhile isModuleQuote
  String.ofList (dropped.reverse.dropWhile isModuleQuote).reverse

/-- Declare what one part of an import clause brings in: the default export, the whole module, or
named exports, each perhaps under another name. -/
def declareImported (n : Nat) (source : Option String) (part : Cursor) : ScopeStep Unit := do
  if part.kind = "identifier" then
    declare n { name := ← part.text, kind := .imported source (some "default"), node := part }
  else if part.kind = "namespace_import" then
    Task.each (fun inner => do
      if inner.kind = "identifier" then
        declare n { name := ← inner.text, kind := .imported source none, node := inner })
      part.namedChildren
  else if part.kind = "named_imports" then
    Task.each (fun specifier => do
      if specifier.kind = "import_specifier" then
        let exported ← specifier.fieldText "name"
        let localName ← match ← specifier.field "alias" with
          | some other => other.text
          | none => pure exported
        declare n
          { name := localName, kind := .imported source (some exported), node := specifier })
      part.namedChildren

/-- Declare the names that an import takes from a module. -/
def declareImports (source : Option String) (c : Cursor) : ScopeStep Unit := do
  let n ← top
  match c.namedChildren.find? (·.kind = "import_clause") with
  | none => return ()
  | some clause => Task.each (declareImported n source) clause.namedChildren

def enterImport (c : Cursor) : ScopeStep Unit := do
  let source ← match ← c.field "source" with
    | some source => do pure (some (stripQuotes (← source.text)))
    | none => pure none
  declareImports source c

/-- The handler for entering a kind of node. -/
def enter (kind : String) : Option (Cursor → ScopeStep Unit) :=
  if functionKinds.contains kind then some enterFunction
  else if classKinds.contains kind then some enterClass
  else if blockKinds.contains kind then some enterBlock
  else if fieldKinds.contains kind then some enterField
  else if kind = "class_body" then some enterClassBody
  else if kind = "variable_declarator" then some enterDeclarator
  else if kind = "import_statement" then some enterImport
  else none

/-- Kinds whose scope is closed when they are left. -/
def closesScope (kind : String) : Bool :=
  kind == "program" || functionKinds.contains kind || blockKinds.contains kind ||
    kind == "class_body"

def leave (kind : String) : Option (Cursor → ScopeStep Unit) :=
  if closesScope kind then some fun c => Task.update (·.pop c) else none

/-- The handlers of the walk. The scope in effect at a node is noted after the node's own handler.
-/
def handlers : Handlers ScopeBuilder where
  enter := enter
  leave := leave
  every := some fun c => Task.update (·.place c)

end ScopeStep

/-- Build the scopes of a tree on top of those that the table already has. -/
def ScopeTable.build (root : Cursor) : Task ScopeTable Unit := do
  let start := ScopeBuilder.start (← Task.state) root
  let ((), b) ← Task.withState start (ScopeStep.handlers.walk root)
  Task.update fun _ => b.table
  Task.note (.scopesBuilt b.table.opened.size b.table.bindings.length)

end HotPath
