import HotPath.OrderedMap
import HotPath.Syntax.Walk

/-! Scopes and the names declared in them. A table holds every scope and every binding by number, in
the order in which they were made. A scope knows the scopes around it, so a chain of scopes is
a list and cannot run in a circle. -/

namespace HotPath

/-- The constructs that open a scope. -/
inductive ScopeKind
  | program
  | function
  | classBody
  | block
deriving DecidableEq

def ScopeKind.name : ScopeKind → String
  | program => "program"
  | function => "function"
  | classBody => "class"
  | block => "block"

def ScopeKind.ofName? (name : String) : Option ScopeKind :=
  [program, function, classBody, block].find? (·.name = name)

/-- What a name is bound to. Functions and methods carry the function whose body runs when the name
is called. -/
inductive BindingKind
  | function (target : Cursor)
  | method (target : Cursor)
  | parameter
  | value
  | classDefinition
  /-- The module that the name comes from, and the name that it has there. -/
  | imported (source exported : Option String)

namespace BindingKind

def name : BindingKind → String
  | function _ => "function"
  | method _ => "method"
  | parameter => "parameter"
  | value => "variable"
  | classDefinition => "class"
  | imported .. => "import"

def isMethod : BindingKind → Bool
  | method _ => true
  | _ => false

/-- The module that an imported name comes from. -/
def source? : BindingKind → Option String
  | imported source _ => source
  | _ => none

/-- The name that an imported name has in its module. -/
def exported? : BindingKind → Option String
  | imported _ exported => exported
  | _ => none

/-- The function that runs when the name is called. -/
def target? : BindingKind → Option Cursor
  | function target | method target => some target
  | _ => none

end BindingKind

/-- A declaration of a name. -/
structure Declaration where
  name : String
  kind : BindingKind
  node : Cursor
  /-- Another name that the value was copied from. -/
  aliasOf : Option String := none
  /-- The name called by the initializer, if that is a call. -/
  initCallee : Option String := none
  /-- Position of the name in an array pattern. -/
  patternIndex : Option Nat := none

/-- A declaration with its number and the number of the scope that it was made in. -/
structure Binding extends Declaration where
  number : Nat
  scope : Nat

/-- The function that runs when the binding is called. -/
def Binding.target? (b : Binding) : Option Cursor := b.kind.target?

/-- One scope. -/
structure Scope where
  kind : ScopeKind
  node : Cursor
  /-- Numbers of the enclosing scopes, the innermost first. -/
  outer : List Nat
  /-- For each name the number of its last declaration, in the order of the first ones. -/
  names : OrderedMap String Nat

/-- A scope in one line: its kind, where it begins and the names declared in it. -/
def Scope.shown (s : Scope) : String :=
  let names := (s.names.keys.mergeSort fun a b => !(b < a : Bool)).map Text.quoted
  s!"Scope({s.kind.name}, line {s.node.line}, [" ++ ", ".intercalate names ++ "])"

/-- The scopes of one file. -/
structure ScopeTable where
  scopes : List Scope
  /-- The scope that a node opened last, by the key of the node. -/
  opened : OrderedMap Key Nat
  bindings : List Binding
  /-- The innermost scope in effect at each node that was visited. -/
  placed : OrderedMap Key Nat

namespace ScopeTable

def empty : ScopeTable := ⟨[], {}, [], {}⟩

/-- The first scope of a table is the one around everything. -/
def rootScope : Nat := 0

def scope? (t : ScopeTable) (n : Nat) : Option Scope := t.scopes[n]?

def binding? (t : ScopeTable) (n : Nat) : Option Binding := t.bindings[n]?

/-- A scope and the scopes around it, the innermost first. -/
def chain (t : ScopeTable) (n : Nat) : List Nat :=
  match t.scope? n with
  | none => []
  | some s => n :: s.outer

/-- The innermost scope of a chain that is of one of the given kinds. -/
def nearest? (t : ScopeTable) (kinds : List ScopeKind) (n : Nat) : Option Nat :=
  (t.chain n).find? fun m => (t.scope? m).any fun s => kinds.contains s.kind

/-- The last declaration of a name in one scope. -/
def localBinding? (t : ScopeTable) (n : Nat) (name : String) : Option Binding := do
  let s ← t.scope? n
  t.binding? (← s.names.get? name)

/-- Add a scope inside the given ones. -/
def addScope (t : ScopeTable) (kind : ScopeKind) (node : Cursor) (outer : List Nat) : ScopeTable :=
  { t with
    scopes := t.scopes ++ [⟨kind, node, outer, {}⟩]
    opened := t.opened.insert node.key t.scopes.length }

/-- Add a declaration to a scope. It hides an earlier one of the same name. -/
def declare (t : ScopeTable) (n : Nat) (d : Declaration) : ScopeTable :=
  let number := t.bindings.length
  { t with
    bindings := t.bindings ++ [{ d with number, scope := n }]
    scopes := t.scopes.modify n fun s => { s with names := s.names.insert d.name number } }

end ScopeTable

end HotPath
