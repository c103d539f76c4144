import HotPath.Scope.Build

/-! Looking up names in a finished table. -/

namespace HotPath.ScopeTable

/-- The innermost scope in effect at a node: the one noted for it, or for its nearest ancestor that
has one, or the scope of the program. -/
def scopeFor (t : ScopeTable) (c : Cursor) : Nat :=
  ((c :: c.above).findSome? fun d => t.placed.get? d.key).getD rootScope

/-- The innermost binding of a name that is visible from a scope. Members of a class are no names of
the text, so methods are passed over unless they are asked for. -/
def resolve (t : ScopeTable) (name : String) (n : Nat) (methods : Bool) : Option Binding :=
  (t.chain n).findSome? fun m =>
    (t.localBinding? m name).filter fun b => methods || !b.kind.isMethod

/-- How many bindings are looked at on the way from a name to a function. -/
def maxAliasLinks : Nat := 8

/-- Follow aliases from a binding to a function, looking at no more than the given number of
bindings. Those that have been met are not remembered: a circle only uses up the number. -/
def followAliases (t : ScopeTable) : Nat → Option Binding → Option Binding
  | 0, _ => none
  | _ + 1, none => none
  | steps + 1, some b =>
    if b.target?.isSome then some b
    else match b.aliasOf with
      | none => none
      | some other => t.followAliases steps (t.resolve other b.scope false)

/-- The function that a name stands for, through aliases. -/
def resolveFunction (t : ScopeTable) (name : String) (n : Nat) : Option Binding :=
  t.followAliases maxAliasLinks (t.resolve name n false)

/-- The function that a member of `this` stands for, in the nearest class. -/
def resolveMember (t : ScopeTable) (name : String) (n : Nat) : Option Binding := do
  let owner ← t.nearest? [.classBody] n
  (t.localBinding? owner name).filter (·.target?.isSome)

/-- The local function or method that a call invokes, if any. -/
def resolveCallee (t : ScopeTable) (call : Cursor) : Except Fault (Option Binding) := do
  match ← call.callee with
  | none => return none
  | some callee =>
    let n := t.scopeFor call
    if callee.kind = "identifier" then
      return t.resolveFunction (← callee.text) n
    if callee.kind = "member_expression" then
      let object ← callee.field "object"
      let property ← callee.field "property"
      match object, property with
      | some object, some property =>
        if object.kind = "this" then
          if (t.nearest? [.classBody] n).isNone then return none
          return t.resolveMember (← property.text) n
        return none
      | _, _ => return none
    return none

/-- The binding that an identifier refers to. Other nodes refer to none. -/
def resolveIdentifier (t : ScopeTable) (c : Cursor) : Except Fault (Option Binding) := do
  if c.kind = "identifier" then
    return t.resolve (← c.text) (t.scopeFor c) false
  return none

end HotPath.ScopeTable
