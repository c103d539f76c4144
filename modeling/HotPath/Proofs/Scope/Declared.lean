import HotPath.Proofs.Scope.Walk

/-! What the text declares. Entering a node declares names around the node, opens the scope of the
node if it has one, and declares names inside. In a tree without faults the handlers of the scope
walk make exactly these declarations, in this order. -/

namespace HotPath

namespace Cursor

/-! What can be read off a node. What cannot be read counts as absent. -/

def fieldAt (c : Cursor) (role : String) : Option Cursor := (c.field role).toOption.getD none

def spelling (c : Cursor) : String := c.text.toOption.getD ""

def givenName? (c : Cursor) : Option String := c.declaredName.toOption.getD none

def calledName? (c : Cursor) : Option String := c.calleeName.toOption.getD none

/-- The declaration of a name that may be missing. -/
def named (name : Option String) (kind : BindingKind) (c : Cursor) : List Declaration :=
  name.toList.map fun name => { name, kind, node := c }

/-- The declarations of the names of a pattern. -/
def patternDeclarations (kind : BindingKind) (initCallee : Option String) (pattern : Cursor) :
    List Declaration :=
  (pattern.boundNames none).names.map fun p =>
    { name := p.name, kind, node := p.node, initCallee, patternIndex := p.index }

/-- The parameters of a function: a list of patterns, or a single one. -/
def parameters (c : Cursor) : List Cursor :=
  match c.fieldAt "parameters" with
  | some list => list.namedChildren
  | none => (c.fieldAt "parameter").toList

/-- A field of a class that holds a function is a method. -/
def fieldDeclarations (c : Cursor) : List Declaration :=
  match (c.fieldAt "property").or (c.fieldAt "name"), c.fieldAt "value" with
  | some name, some value =>
    if value.isFunctionLiteral then
      [{ name := name.spelling, kind := .method value, node := c }]
    else []
  | _, _ => []

/-- The name that an initializer calls, if it is a call. -/
def initCallee? (value : Option Cursor) : Option String :=
  (value.filter (·.isCall)).bind (·.calledName?)

/-- A declarator declares one name, judged by its initializer, or the names of a pattern. -/
def declaratorDeclarations (c : Cursor) : List Declaration :=
  match c.fieldAt "name" with
  | none => []
  | some name =>
    if name.kind = "identifier" then
      (ScopeStep.declarationOf c name.spelling (c.fieldAt "value")).toOption.toList
    else name.patternDeclarations .value (initCallee? (c.fieldAt "value"))

/-- What one name of a list of imports brings in, perhaps under another name. -/
def specifierDeclaration (source : Option String) (specifier : Cursor) : Declaration :=
  let exported := (specifier.fieldText "name").toOption.getD ""
  { name := ((specifier.fieldAt "alias").map (·.spelling)).getD exported
    kind := .imported source (some exported), node := specifier }

/-- What one part of an import clause brings in. -/
def importedDeclarations (source : Option String) (part : Cursor) : List Declaration :=
  if part.kind = "identifier" then
    [{ name := part.spelling, kind := .imported source (some "default"), node := part }]
  else if part.kind = "namespace_import" then
    part.namedChildren.flatMap fun inner =>
      if inner.kind = "identifier" then
        [{ name := inner.spelling, kind := .imported source none, node := inner }]
      else []
  else if part.kind = "named_imports" then
    part.namedChildren.flatMap fun specifier =>
      if specifier.kind = "import_specifier" then [specifier.specifierDeclaration source] else []
  else []

/-- The names that an import takes from a module. -/
def importDeclarations (c : Cursor) : List Declaration :=
  let source := (c.fieldAt "source").map fun s => ScopeStep.stripQuotes s.spelling
  (c.namedChildren.find? (·.kind = "import_clause")).toList.flatMap fun clause =>
    clause.namedChildren.flatMap (importedDeclarations source)

/-- What a node declares around itself. Methods and fields are declared only right inside a class
body; a class expression and a function literal keep their names to themselves. -/
def outerDeclarations (inClass : Bool) (c : Cursor) : List Declaration :=
  if c.isFunction then
    if c.kind = "function_declaration" || c.kind = "generator_function_declaration" then
      named c.givenName? (.function c) c
    else if c.kind = "method_definition" && inClass then named c.givenName? (.method c) c
    else []
  else if classKinds.contains c.kind then
    if c.kind = "class" then [] else named c.givenName? .classDefinition c
  else if blockKinds.contains c.kind then []
  else if fieldKinds.contains c.kind then if inClass then c.fieldDeclarations else []
  else if c.kind = "class_body" then []
  else if c.kind = "variable_declarator" then c.declaratorDeclarations
  else if c.kind = "import_statement" then c.importDeclarations
  else []

/-- What a function declares inside: its name if it is a literal, and its parameters. -/
def functionDeclarations (c : Cursor) : List Declaration :=
  (if c.isFunctionLiteral then named c.givenName? (.function c) c else []) ++
    c.parameters.flatMap (patternDeclarations .parameter none)

/-- What a block declares inside: the parameter of a catch clause, or the variable of a loop over a
collection unless the loop only assigns to it. -/
def blockDeclarations (c : Cursor) : List Declaration :=
  if c.kind = "catch_clause" then
    (c.fieldAt "parameter").toList.flatMap (patternDeclarations .parameter none)
  else if c.kind = "for_in_statement" && (c.fieldAt "kind").isSome then
    (c.fieldAt "left").toList.flatMap (patternDeclarations .value none)
  else []

/-- What a node declares in the scope that it opens. -/
def innerDeclarations (c : Cursor) : List Declaration :=
  if c.isFunction then c.functionDeclarations
  else if classKinds.contains c.kind then []
  else if blockKinds.contains c.kind then c.blockDeclarations
  else []

/-- A declarator of a `var` statement declares for the whole function around it. -/
def isHoisted (c : Cursor) : Bool :=
  c.kind == "variable_declarator" && c.parent?.any (·.kind = "variable_declaration")

theorem fieldAt_of_field {c d : Cursor} {role : String} (h : c.field role = .ok (some d)) :
    c.fieldAt role = some d := by
  rw [fieldAt, h]
  rfl

/-- What a field holds can be examined. -/
instance decidableExistsField {read : Except Fault (Option Cursor)} {p : Cursor → Prop}
    [DecidablePred p] : Decidable (∃ c, read = .ok (some c) ∧ p c) :=
  match read with
  | .ok (some c) => decidable_of_iff (p c) (by simp)
  | .ok none => isFalse (by simp)
  | .error _ => isFalse (by simp)

namespace FaultFree

variable {root c : Cursor} (h : root.FaultFree) (hc : c ∈ root.preorder)

include h hc

theorem field_eq (role : String) : c.field role = .ok (c.fieldAt role) :=
  FailsOnly.eq_ok (ReadsFailOnly.field h hc role) none

theorem text_eq : c.text = .ok c.spelling := FailsOnly.eq_ok (ReadsFailOnly.text h hc) ""

theorem declaredName_eq : c.declaredName = .ok c.givenName? :=
  FailsOnly.eq_ok (ReadsFailOnly.declaredName h hc) none

theorem calleeName_eq : c.calleeName = .ok c.calledName? :=
  FailsOnly.eq_ok (ReadsFailOnly.calleeName h hc) none

theorem fieldText_eq (role : String) :
    c.fieldText role = .ok ((c.fieldText role).toOption.getD "") :=
  FailsOnly.eq_ok (ReadsFailOnly.fieldText h hc role) ""

theorem mem_of_fieldAt {d : Cursor} {role : String} (hd : c.fieldAt role = some d) :
    d ∈ root.preorder :=
  mem_preorder_of_field hc (hd ▸ h.field_eq hc role)

theorem boundNames_fault (index : Option Nat) : (c.boundNames index).fault = none := by
  cases hFault : (c.boundNames index).fault with
  | none => rfl
  | some fault => exact (ReadsFailOnly.boundNames h hc index hFault).elim

end FaultFree

end Cursor

namespace ScopeBuilder

/-- Declare names in a scope, one after the other. -/
def declareAll (n : Nat) (ds : List Declaration) (b : ScopeBuilder) : ScopeBuilder :=
  ds.foldl (fun b d => b.declare n d) b

@[simp] theorem declareAll_nil (n : Nat) (b : ScopeBuilder) : b.declareAll n [] = b := rfl

theorem declareAll_append (n : Nat) (xs ys : List Declaration) (b : ScopeBuilder) :
    b.declareAll n (xs ++ ys) = (b.declareAll n xs).declareAll n ys := List.foldl_append

theorem foldl_declareAll {α : Type} (n : Nat) (f : α → List Declaration) (l : List α)
    (b : ScopeBuilder) :
    l.foldl (fun b a => b.declareAll n (f a)) b = b.declareAll n (l.flatMap f) := by
  induction l generalizing b with
  | nil => rfl
  | cons a rest ih => rw [List.foldl_cons, ih, List.flatMap_cons, declareAll_append]

/-- The scope around a node into which it declares: the nearest function or program for what is
hoisted, else the innermost one. -/
def home (c : Cursor) (b : ScopeBuilder) : Nat :=
  if c.isHoisted then (b.table.nearest? [.function, .program] b.top).getD b.top else b.top

/-- What entering a node makes of a table. -/
def entered (c : Cursor) (b : ScopeBuilder) : ScopeBuilder :=
  let b := b.declareAll (b.home c) (c.outerDeclarations (b.topKind? = some .classBody))
  match c.opens? with
  | none => b
  | some kind => (b.push kind c).declareAll b.table.scopes.length c.innerDeclarations

/-- What an event of the walk makes of a table, in a tree without faults. -/
def step (b : ScopeBuilder) (e : Event) : ScopeBuilder :=
  match e.phase with
  | .enter => (b.entered e.cursor).place e.cursor
  | .leave => if ScopeStep.closesScope e.cursor.kind then b.pop e.cursor else b

theorem home_of_other {c : Cursor} (h : c.kind ≠ "variable_declarator") (b : ScopeBuilder) :
    b.home c = b.top := by
  simp [home, Cursor.isHoisted, h]

end ScopeBuilder

end HotPath
