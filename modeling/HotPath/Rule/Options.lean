import HotPath.ConfigError

/-! Options of rules. They are checked once, when a rule is set up, so that a bad value stops the
run instead of every file. -/

namespace HotPath

/-- The documented options. -/
inductive OptionName
  | frameLoopApis
  | bannedOperations
  | maxCallDepth
  | disallowedLiterals
  | timerApis
  | fastEvents
  | stateHooks
deriving DecidableEq

namespace OptionName

def all : List OptionName :=
  [frameLoopApis, bannedOperations, maxCallDepth, disallowedLiterals, timerApis, fastEvents,
    stateHooks]

def name : OptionName → String
  | frameLoopApis => "frameLoopApis"
  | bannedOperations => "bannedOperations"
  | maxCallDepth => "maxCallDepth"
  | disallowedLiterals => "disallowedLiterals"
  | timerApis => "timerApis"
  | fastEvents => "fastEvents"
  | stateHooks => "stateHooks"

def ofName? (s : String) : Option OptionName := all.find? (·.name = s)

end OptionName

/-- The options of a rule, those that it does not use included. -/
structure RuleOptions where
  frameLoopApis : NameSet := .ofTexts ["useFrame"]
  bannedOperations : NameSet := .ofTexts ["clone"]
  maxCallDepth : Int := 5
  disallowedLiterals : NameSet := {}
  timerApis : NameSet := .ofTexts ["setInterval"]
  fastEvents : NameSet := .ofTexts ["onPointerMove"]
  stateHooks : NameSet := .ofTexts ["useState", "useReducer"]
deriving DecidableEq

/-- Options as they were written. Usually they are a value, but options that were put together from
pairs may have keys of any type. -/
inductive RawOptions
  | value (v : Value)
  | members (ms : List (Value × Value))

/-- Why options were refused. -/
inductive OptionError
  | config (e : ConfigError)
  /-- An option that a caller recognizes but that is not documented. -/
  | undocumented (name : String)

namespace RuleOptions

/-- The value of one option. -/
def get (o : RuleOptions) : OptionName → Value
  | .frameLoopApis => names o.frameLoopApis
  | .bannedOperations => names o.bannedOperations
  | .maxCallDepth => .int o.maxCallDepth
  | .disallowedLiterals => names o.disallowedLiterals
  | .timerApis => names o.timerApis
  | .fastEvents => names o.fastEvents
  | .stateHooks => names o.stateHooks
where
  names (s : NameSet) : Value := .list (s.names.map .str)

/-- All options by name. -/
def toMembers (o : RuleOptions) : List (String × Value) :=
  OptionName.all.map fun n => (n.name, o.get n)

/-- A depth is an integer that is not negative. -/
def checkDepth (option : String) (v : Value) : Except ConfigProblem Int :=
  match v with
  | .int i => if i < 0 then .error (.depthNegative option i) else .ok i
  | _ => .error (.depthNotInteger option v)

/-- A name is a text that is not empty. -/
def checkName (option : String) (v : Value) : Except ConfigProblem RawText :=
  match v with
  | .str t => if t.isEmpty then .error (.badName option v) else .ok t
  | _ => .error (.badName option v)

/-- A set of names is a list of names. -/
def checkNames (option : String) (v : Value) : Except ConfigProblem NameSet :=
  match v with
  | .list items => do
    let names ← items.mapM (checkName option)
    return .ofList names
  | _ => .error (.namesNotList option v)

/-- Set one option. -/
def set (o : RuleOptions) (n : OptionName) (v : Value) : Except ConfigProblem RuleOptions :=
  match n with
  | .maxCallDepth => do return { o with maxCallDepth := ← checkDepth n.name v }
  | .frameLoopApis => do return { o with frameLoopApis := ← checkNames n.name v }
  | .bannedOperations => do return { o with bannedOperations := ← checkNames n.name v }
  | .disallowedLiterals => do return { o with disallowedLiterals := ← checkNames n.name v }
  | .timerApis => do return { o with timerApis := ← checkNames n.name v }
  | .fastEvents => do return { o with fastEvents := ← checkNames n.name v }
  | .stateHooks => do return { o with stateHooks := ← checkNames n.name v }

/-- Attach the rule to a problem. -/
def located {α : Type} (rule : Option RawText) : Except ConfigProblem α → Except OptionError α
  | .ok a => .ok a
  | .error p => .error (.config ⟨rule, p⟩)

/-- Set one option by its written name. -/
def setMember (rule : Option RawText) (recognized : List String) (o : RuleOptions)
    (member : Value × Value) : Except OptionError RuleOptions :=
  let refuse := OptionError.config ⟨rule, .unknownOption member.1 (.ofTexts recognized)⟩
  match member.1 with
  | .text name =>
    if recognized.contains name then
      match OptionName.ofName? name with
      | some n => located rule (o.set n member.2)
      | none => .error (.undocumented name)
    else .error refuse
  | _ => .error refuse

/-- Literals that cannot be disallowed. -/
def unsupported (o : RuleOptions) : List RawText :=
  o.disallowedLiterals.names.filter fun kind => !supportedLiterals.any (kind = .plain ·)

/-- Whether a member sets the disallowed literals. -/
def setsLiterals (member : Value × Value) : Bool :=
  match member.1 with
  | .text name => name == OptionName.disallowedLiterals.name
  | _ => false

/-- Options given by members, on top of others. Literals are checked after all members have been
read. -/
def ofMembers (rule : Option RawText) (recognized : List String) (base : RuleOptions)
    (members : List (Value × Value)) : Except OptionError RuleOptions := do
  let o ← members.foldlM (setMember rule recognized) base
  if members.any setsLiterals && !o.unsupported.isEmpty then
    .error (.config ⟨rule, .unsupportedLiterals o.unsupported⟩)
  else return o

/-- Options on top of others. Null leaves them as they are. -/
def ofRaw (rule : Option RawText) (recognized : List String) (base : RuleOptions) :
    RawOptions → Except OptionError RuleOptions
  | .value .null => .ok base
  | .value (.object members) =>
    ofMembers rule recognized base (members.map fun m => (.str m.1, m.2))
  | .value v => .error (.config ⟨rule, .optionsNotObject v.typeName⟩)
  | .members ms => ofMembers rule recognized base ms

/-- The names of all documented options. -/
def documented : List String := OptionName.all.map (·.name)

end RuleOptions

end HotPath
