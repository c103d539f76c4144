import HotPath.Rule.Options
import HotPath.Scope.Resolve

/-! Calls that set component state, and whether a condition guards them. -/

namespace HotPath

/-- Global functions that are named like setters. -/
def timerGlobals : List String := ["setTimeout", "setInterval", "setImmediate"]

/-- Named like a setter: `set` and a capital letter of ASCII. -/
def looksLikeSetter (name : String) : Bool :=
  match name.toList with
  | 's' :: 'e' :: 't' :: c :: _ => 'A' ≤ c && c ≤ 'Z'
  | _ => false

/-- Whether a bound name is a setter: the second element taken from a state hook, or a parameter
that is named like one. -/
def Binding.isSetter (b : Binding) (stateHooks : List String) (name : String) : Bool :=
  match b.kind with
  | .value => b.patternIndex == some 1 && b.initCallee.any stateHooks.contains
  | .parameter => looksLikeSetter name
  | _ => false

/-- The name of the setter that a call invokes. A name without a local binding counts if it is named
like a setter, because state is often handed down from another component. -/
def RuleOptions.setterName (o : RuleOptions) (t : ScopeTable) (call : Cursor) :
    Except Fault (Option String) := do
  if !call.isCall then return none
  match ← call.callee with
  | none => return none
  | some callee =>
    if callee.kind ≠ "identifier" then return none
    let name ← callee.text
    match ← t.resolveIdentifier callee with
    | some b => return if b.isSetter o.stateHooks.texts name then some name else none
    | none =>
      if looksLikeSetter name && !timerGlobals.contains name && !o.timerApis.texts.contains name then
        return some name
      return none

/-- Kinds of nodes whose parts run under a condition. -/
def conditionalKinds : List String :=
  ["if_statement", "else_clause", "ternary_expression", "switch_case", "switch_default",
    "catch_clause"]

/-- Operators that may leave their right operand out. -/
def shortCircuits : List String := ["&&", "||", "??"]

namespace Cursor

/-- Whether a node guards one of its children. The condition of a conditional always runs itself. -/
def guards (c child : Cursor) : Except Fault Bool := do
  if conditionalKinds.contains c.kind then
    match ← c.field "condition" with
    | none => return true
    | some condition => return condition.key ≠ child.key
  else if c.kind = "binary_expression" then
    let operator ← c.fieldText "operator"
    match ← c.field "right" with
    | none => return false
    | some right => return shortCircuits.contains operator && right.key = child.key
  else return false

/-- Whether one of the ancestors guards what lies below it, up to the nearest function. -/
def guardedUnder (child : Cursor) : List Cursor → Except Fault Bool
  | [] => .ok false
  | c :: above => do
    if c.isFunction then return false
    if ← c.guards child then return true
    guardedUnder c above

/-- Whether a condition stands between a node and the function around it. -/
def isGuarded (c : Cursor) : Except Fault Bool := guardedUnder c c.above

end Cursor

end HotPath
