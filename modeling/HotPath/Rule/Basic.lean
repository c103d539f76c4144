import HotPath.RawText

/-! The rules and the presets, and their names. A preset is a rule configuration to start from. -/

namespace HotPath

/-- The rules of the library. -/
inductive Rule
  | noCloneInLoop
  | noNewInLoop
  | noFastState
deriving DecidableEq

namespace Rule

/-- All rules, in the order in which presets list them. -/
def all : List Rule := [noCloneInLoop, noNewInLoop, noFastState]

def id : Rule → String
  | noCloneInLoop => "no-clone-in-loop"
  | noNewInLoop => "no-new-in-loop"
  | noFastState => "no-fast-state"

/-- The name under which the rules are offered to other tools. -/
def pluginName : String := "framelint"

def qualifiedId (r : Rule) : String := s!"{pluginName}/{r.id}"

/-- A text without the plugin in front of it. -/
def withoutPlugin (s : String) : String :=
  let front := (pluginName ++ "/").toList
  if front.isPrefixOf s.toList then String.ofList (s.toList.drop front.length) else s

/-- A rule name without the plugin in front of it. -/
def plainId : RawText → RawText
  | .plain s => .plain (withoutPlugin s)
  | .broken before half after => .broken (withoutPlugin before) half after

def ofPlainId? (id : RawText) : Option Rule := all.find? (.plain ·.id = id)

/-- The rule with a plain or qualified name. -/
def ofName? (name : RawText) : Option Rule := ofPlainId? (plainId name)

/-- Whether a text comes before another one or equals it, by code points. -/
def textPrecedes (a b : String) : Bool := !(b < a : Bool)

/-- All rules in the order of their names. -/
def sorted : List Rule := all.mergeSort fun a b => textPrecedes a.id b.id

def sortedIds : List String := sorted.map id

end Rule

/-- The presets of the library. -/
inductive Preset
  | all
  | recommended
deriving DecidableEq

namespace Preset

def name : Preset → String
  | all => "all"
  | recommended => "recommended"

/-- All presets, in the order in which they are offered. -/
def every : List Preset := [all, recommended]

def ofName? (s : String) : Option Preset := every.find? (·.name = s)

/-- The preset that is used where none is named. -/
def standard : Preset := recommended

end Preset

end HotPath
