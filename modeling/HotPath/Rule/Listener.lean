import HotPath.Analysis
import HotPath.Diagnostic
import HotPath.Rule.StateSetter

/-! What the rules say about themselves and what they report. Every rule listens to programs: it is
shown a node and analyses the tree below it. -/

namespace HotPath

namespace Rule

def isRecommended : Rule → Bool
  | noCloneInLoop | noNewInLoop => true
  | noFastState => false

def description : Rule → String
  | noCloneInLoop =>
    "Disallow cloning vectors in the frame loop which can cause performance problems."
  | noNewInLoop =>
    "Disallow instantiating new objects in the frame loop which can cause performance problems."
  | noFastState => "Disallow setting React state at frame rate or in fast pointer events."

/-- Where a rule is documented. -/
def url (r : Rule) : String := s!"docs/rules/{r.id}.md"

/-- The options that a rule recognizes. -/
def options : Rule → List OptionName
  | noCloneInLoop => [.frameLoopApis, .bannedOperations, .maxCallDepth]
  | noNewInLoop => [.frameLoopApis, .disallowedLiterals, .bannedOperations, .maxCallDepth]
  | noFastState => [.frameLoopApis, .timerApis, .fastEvents, .stateHooks, .maxCallDepth]

/-- The recognized options in the order of their names. -/
def optionNames (r : Rule) : List String := (NameSet.ofTexts (r.options.map (·.name))).texts

def defaults : Rule → RuleOptions
  | noCloneInLoop => {}
  | noNewInLoop => { bannedOperations := {}, disallowedLiterals := .ofTexts ["new_expression"] }
  | noFastState => {}

/-- Advice for whatever allocates. -/
def allocationAdvice : String :=
  "Instead, create once in a useMemo or a single, shared reference outside of the component."

/-- The messages of a rule by their names. -/
def messages : Rule → List (String × Template)
  | noCloneInLoop =>
    [("noClone", [.text "Calling `", .place .operation, .text "()` in ", .place .context,
      .text (" can cause performance problems. " ++ allocationAdvice)])]
  | noNewInLoop =>
    [("noNew", [.text "Allocating `", .place .operation, .text "` in ", .place .context,
      .text (" can cause performance problems. " ++ allocationAdvice)])]
  | noFastState =>
    [("noUnconditionalSet", [.text "Setting state with `", .place .operation,
      .text "()` unconditionally in ", .place .context,
      .text (" re-renders the component on every tick. Mutate a ref instead, or only set state " ++
        "when the value changes.")]),
      ("noFastEventSet", [.text "Setting state with `", .place .operation, .text "()` in ",
        .place .context,
        .text " re-renders the component on every event. Mutate a ref instead."])]

/-- The wording of one message of a rule. -/
def reporter (r : Rule) (messageId loop : String) : Reporter :=
  ⟨r.id, messageId, (r.messages.lookup messageId).getD [], loop⟩

end Rule

/-- What a rule has reported for one file. -/
abbrev Listener := Task (List Diagnostic)

namespace Listener

def report (r : Reporter) (ctx : ReportContext) (hazards : List Hazard) : Listener Unit :=
  Task.update (· ++ hazards.map (r.diagnostic ctx))

/-- A listener that reports what an engine finds. -/
def hotPath (engine : Engine) (r : Reporter) (ctx : ReportContext) (c : Cursor) :
    Listener Unit := do
  let (found, ()) ← Task.withState () (engine.analyze c)
  report r ctx found.hazards

/-- A call that sets state. -/
def stateSet (o : RuleOptions) (t : ScopeTable) (c : Cursor) :
    Except Fault (Option (HazardKind × String)) := do
  return (← o.setterName t c).map (HazardKind.state, ·)

/-- A call that sets state, and that no condition guards. -/
def unconditionalSet (o : RuleOptions) (t : ScopeTable) (c : Cursor) :
    Except Fault (Option (HazardKind × String)) := do
  match ← stateSet o t c with
  | none => return none
  | some found => return if ← c.isGuarded then none else some found

/-- State set in loops counts unless it is guarded; in fast events it counts in any case, once for
each call. -/
def fastState (o : RuleOptions) (ctx : ReportContext) (c : Cursor) : Listener Unit := do
  let rule := Rule.noFastState
  let loopEngine : Engine :=
    { detectors := [.frameLoop o.frameLoopApis.texts, .timerLoop o.timerApis.texts]
      maxCallDepth := o.maxCallDepth }
  let eventEngine : Engine :=
    { detectors := [.fastEvent o.fastEvents.texts], maxCallDepth := o.maxCallDepth }
  let (inLoops, ()) ← Task.withState () do
    let found ← loopEngine.propagate c
    Hazard.collect found.heat (unconditionalSet o found.scopes)
  report (rule.reporter "noUnconditionalSet" "a frame or interval callback") ctx inLoops
  let reported := inLoops.map (·.node.key)
  let (inEvents, ()) ← Task.withState () do
    let found ← eventEngine.propagate c
    Hazard.collect found.heat (stateSet o found.scopes)
  report (rule.reporter "noFastEventSet" "a fast pointer event handler") ctx
    (inEvents.filter fun h => !reported.contains h.node.key)

end Listener

/-- Show a node to a rule. -/
def Rule.listen (r : Rule) (o : RuleOptions) (ctx : ReportContext) (c : Cursor) : Listener Unit :=
  let engine := fun (matcher : Matcher) =>
    { detectors := [.frameLoop o.frameLoopApis.texts], matcher := some matcher
      maxCallDepth := o.maxCallDepth : Engine }
  match r with
  | .noCloneInLoop =>
    Listener.hotPath (engine ⟨o.bannedOperations.texts, []⟩)
      (r.reporter "noClone" "the frame loop") ctx c
  | .noNewInLoop =>
    Listener.hotPath (engine ⟨o.bannedOperations.texts, o.disallowedLiterals.texts⟩)
      (r.reporter "noNew" "the frame loop") ctx c
  | .noFastState => Listener.fastState o ctx c

end HotPath
