import HotPath.Number.Binary64
import HotPath.OrderedMap
import HotPath.RawText

/-! Dynamic values: what a configuration file or a caller may write where options are expected. -/

namespace HotPath

/-- A value. The members of an object keep their order. -/
inductive Value
  | null
  | bool (b : Bool)
  | int (i : Int)
  | float (x : Binary64)
  | str (t : RawText)
  | list (items : List Value)
  | object (members : List (RawText × Value))

instance : Inhabited Value := ⟨.null⟩

namespace Value

/-- A text of characters. -/
@[match_pattern] abbrev text (s : String) : Value := str (.plain s)

/-- An object whose members have plain names. -/
def record (members : List (String × Value)) : Value :=
  object (members.map fun m => (.plain m.1, m.2))

/-- What the type of a value is called in messages. -/
def typeName : Value → String
  | null => "NoneType"
  | bool _ => "bool"
  | int _ => "int"
  | float _ => "float"
  | str _ => "str"
  | list _ => "list"
  | object _ => "dict"

mutual

/-- A value as it is shown in messages. -/
def shown : Value → String
  | null => "None"
  | bool b => if b then "True" else "False"
  | int i => toString i
  | float x => x.text
  | str t => t.quoted
  | list items => "[" ++ ", ".intercalate (shownAll items) ++ "]"
  | object members => "\x7b" ++ ", ".intercalate (shownMembers members) ++ "\x7d"

def shownAll : List Value → List String
  | [] => []
  | v :: rest => v.shown :: shownAll rest

def shownMembers : List (RawText × Value) → List String
  | [] => []
  | (name, v) :: rest => (name.quoted ++ ": " ++ v.shown) :: shownMembers rest

end

/-- Whether a value counts as given: null, false, zero and everything empty do not. -/
def isTruthy : Value → Bool
  | null => false
  | bool b => b
  | int i => i ≠ 0
  | float x => !x.isZero
  | str t => !t.isEmpty
  | list items => !items.isEmpty
  | object members => !members.isEmpty

/-- A member of an object. -/
def member? (v : Value) (name : String) : Option Value :=
  match v with
  | object members => members.lookup (.plain name)
  | _ => none

/-- Whether a value can be a key: lists and objects cannot. -/
def isKey : Value → Bool
  | list _ | object _ => false
  | _ => true

/-- Numbers as keys: truth values count as one and zero. -/
def keyNumber? : Value → Option Int
  | bool b => some (if b then 1 else 0)
  | int i => some i
  | _ => none

/-- Whether two values are the same key. Equal numbers are, whatever their types. -/
def sameKey (a b : Value) : Bool :=
  match a, b with
  | null, null => true
  | str s, str t => s == t
  | float x, float y => (x.isZero && y.isZero) || (x == y && x ≠ .nan)
  | float x, other => other.keyNumber?.any x.equalsInt
  | other, float x => other.keyNumber?.any x.equalsInt
  | a, b => a.keyNumber?.isSome && a.keyNumber? == b.keyNumber?

end Value

end HotPath
