import HotPath.Diagnostic
import HotPath.Rule.Options

/-! Entries of a configuration: how severe a rule is, and its options. An entry is a severity or a
list of a severity and options. -/

namespace HotPath

/-- A value that has another shape than its use demands. Such an error is not worded for people who
write configurations. -/
inductive ShapeError
  | noMember (typeName member : String)
  | notKey (typeName : String)
  | notIterable (typeName : String)
  | notPair (index : Nat)
  | pairLength (index length : Nat)

def ShapeError.message : ShapeError → String
  | noMember typeName member => s!"'{typeName}' object has no attribute '{member}'"
  | notKey typeName => s!"unhashable type: '{typeName}'"
  | notIterable typeName => s!"'{typeName}' object is not iterable"
  | notPair index => s!"cannot convert dictionary update sequence element #{index} to a sequence"
  | pairLength index length =>
    s!"dictionary update sequence element #{index} has length {length}; 2 is required"

/-- Why a linter cannot be set up. -/
inductive SetupError
  | config (e : ConfigError)
  | shape (e : ShapeError)
  | undocumented (name : String)

def SetupError.ofOption : OptionError → SetupError
  | .config e => .config e
  | .undocumented name => .undocumented name

/-- The severity that is written for a rule: none if the rule is off. Anything else is no severity.
-/
def writtenSeverity? : Value → Option (Option Severity)
  | .text "off" => some none
  | .text "warn" => some (some .warning)
  | .text "warning" => some (some .warning)
  | .text "error" => some (some .error)
  | .int i => if i = 0 then some none else if i = 1 then some (some .warning)
      else if i = 2 then some (some .error) else none
  | _ => none

/-- A rule's severity and options, once the entry has been taken apart. -/
structure Setting where
  severity : Option Severity
  options : RawOptions

/-- An entry as it was written, or with its parts already known. -/
inductive Entry
  | written (v : Value)
  | settled (severity : Severity) (options : RawOptions)

namespace Entry

/-- Read a severity. -/
def readSeverity (rule : RawText) (v : Value) : Except ConfigError (Option Severity) :=
  match writtenSeverity? v with
  | some severity => .ok severity
  | none => .error ⟨some rule, .unknownSeverity v⟩

/-- Take an entry apart. The rule is named as it was written. -/
def read (rule : RawText) : Entry → Except ConfigError Setting
  | settled severity options => .ok ⟨some severity, options⟩
  | written (.list [severity]) => do return ⟨← readSeverity rule severity, .value .null⟩
  | written (.list [severity, options]) => do return ⟨← readSeverity rule severity, .value options⟩
  | written (.list items) => .error ⟨some rule, .malformedEntry (.list items)⟩
  | written v => do return ⟨← readSeverity rule v, .value .null⟩

end Entry

end HotPath
