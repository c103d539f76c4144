import HotPath.Proofs.Reading
import HotPath.Proofs.Task

/-! The calls of handlers in a walk. Handlers are watched: each call of one is put on record with
the fault that it raised. A fault that is absorbed costs the rest of one call and leaves a note, so
the calls of a walk are those that would be made if no handler raised anything, up to the first call
whose fault is not absorbed. -/

namespace HotPath

variable {σ τ α β : Type}

namespace Outcome

/-- The fault that stopped a step, if one did. -/
def fault? (o : Outcome σ α) : Option Fault :=
  match o.result with
  | .ok _ => none
  | .error fault => some fault

theorem result_of_fault?_none {o : Outcome σ Unit} (h : o.fault? = none) : o.result = .ok () := by
  unfold fault? at h
  split at h
  · assumption
  · cases h

theorem result_of_fault?_some {o : Outcome σ α} {fault : Fault} (h : o.fault? = some fault) :
    o.result = .error fault := by
  unfold fault? at h
  split at h
  · cases h
  · cases h
    assumption

/-- The same end of a step with the state seen from elsewhere. -/
def mapState (view : σ → τ) (o : Outcome σ α) : Outcome τ α := ⟨o.result, view o.state, o.log⟩

end Outcome

namespace Task

theorem run_each_cons_of_ok {f : α → Task σ Unit} {a : α} {s : σ}
    (h : ((f a).run s).result = .ok ()) (rest : List α) :
    (each f (a :: rest)).run s =
      let later := (each f rest).run ((f a).run s).state
      ⟨later.result, later.state, ((f a).run s).log ++ later.log⟩ :=
  run_bind_of_ok h

theorem run_each_cons_of_error {f : α → Task σ Unit} {a : α} {s : σ} {fault : Fault}
    (h : ((f a).run s).result = .error fault) (rest : List α) :
    (each f (a :: rest)).run s = ⟨.error fault, ((f a).run s).state, ((f a).run s).log⟩ :=
  run_bind_of_error h

theorem each_append (f : α → Task σ Unit) (xs ys : List α) :
    each f (xs ++ ys) = each f xs >>= fun _ => each f ys := by
  funext s
  change (each f (xs ++ ys)).run s = (each f xs >>= fun _ => each f ys).run s
  induction xs generalizing s with
  | nil => rfl
  | cons a rest ih =>
      rw [List.cons_append]
      cases hFirst : ((f a).run s).result with
      | error fault =>
          have hAll := run_each_cons_of_error hFirst rest
          rw [run_each_cons_of_error hFirst, run_bind_of_error (congrArg Outcome.result hAll), hAll]
      | ok _ =>
          have hAll := run_each_cons_of_ok hFirst rest
          rw [run_each_cons_of_ok hFirst, ih]
          cases hRest : ((each f rest).run ((f a).run s).state).result with
          | error fault =>
              rw [run_bind_of_error hRest, run_bind_of_error (by rw [hAll]; exact hRest), hAll]
          | ok _ =>
              rw [run_bind_of_ok hRest, run_bind_of_ok (by rw [hAll]; exact hRest), hAll]
              simp only [List.append_assoc]

/-- Steps that are lists of steps can be run as one list. -/
theorem each_flatMap (f : α → Task σ Unit) (g : β → List α) (l : List β) :
    each f (l.flatMap g) = each (fun b => each f (g b)) l := by
  induction l with
  | nil => rfl
  | cons b rest ih =>
      rw [List.flatMap_cons, each_append, ih]
      rfl

theorem each_map (f : α → Task σ Unit) (g : β → α) (l : List β) :
    each f (l.map g) = each (fun b => f (g b)) l := by
  induction l with
  | nil => rfl
  | cons b rest ih =>
      rw [List.map_cons, each, ih]
      rfl

theorem run_absorb_of_ok {t : Task σ α} {s : σ} {a : α} (h : (t.run s).result = .ok a)
    (fallback : α) (remark : Fault → Note) :
    (t.absorb fallback remark).run s = ⟨.ok a, (t.run s).state, (t.run s).log⟩ := by
  rw [run_absorb, h]

theorem run_absorb_of_absorbed {t : Task σ α} {s : σ} {fault : Fault}
    (h : (t.run s).result = .error fault) (hAbsorbed : fault.absorbed = true) (fallback : α)
    (remark : Fault → Note) :
    (t.absorb fallback remark).run s =
      ⟨.ok fallback, (t.run s).state, (t.run s).log ++ [remark fault]⟩ := by
  rw [run_absorb, h]
  exact if_pos hAbsorbed

theorem run_absorb_of_escape {t : Task σ α} {s : σ} {fault : Fault}
    (h : (t.run s).result = .error fault) (hEscapes : fault.absorbed = false) (fallback : α)
    (remark : Fault → Note) :
    (t.absorb fallback remark).run s = ⟨.error fault, (t.run s).state, (t.run s).log⟩ := by
  rw [run_absorb, h]
  exact if_neg (by simp [hEscapes])

/-- A view of the state that goes with a step goes with it when faults are absorbed. -/
theorem run_absorb_of_view {t : Task τ α} {u : Task σ α} {view : τ → σ} {s : τ}
    (h : u.run (view s) = (t.run s).mapState view) (fallback : α) (remark : Fault → Note) :
    (u.absorb fallback remark).run (view s) =
      ((t.absorb fallback remark).run s).mapState view := by
  rw [run_absorb, run_absorb, h]
  simp only [Outcome.mapState]
  cases (t.run s).result with
  | ok a => rfl
  | error fault =>
      dsimp only
      split <;> rfl

/-- If a view of the state goes with each step of a list, it goes with the list. -/
theorem run_each_of_view {f : α → Task σ Unit} {g : α → Task τ Unit} {view : τ → σ}
    (h : ∀ a t, (f a).run (view t) = ((g a).run t).mapState view) (l : List α) (t : τ) :
    (each f l).run (view t) = ((each g l).run t).mapState view := by
  induction l generalizing t with
  | nil => rfl
  | cons a rest ih =>
      have hFirst := h a t
      cases hResult : ((g a).run t).result with
      | error fault =>
          have hError : ((f a).run (view t)).result = .error fault := by
            rw [hFirst]
            exact hResult
          rw [run_each_cons_of_error hError, run_each_cons_of_error hResult, hFirst]
          rfl
      | ok _ =>
          have hOk : ((f a).run (view t)).result = .ok () := by
            rw [hFirst]
            exact hResult
          rw [run_each_cons_of_ok hOk, run_each_cons_of_ok hResult, hFirst]
          simp only [Outcome.mapState, ih]

end Task

/-- Where a handler stands: among those for entering or for leaving a kind of node, or as the one
for every node. -/
inductive Handlers.Slot
  | enter
  | leave
  | every
deriving DecidableEq

/-- The phase in which a handler is called. -/
def Handlers.Slot.phase : Slot → Phase
  | enter | every => .enter
  | leave => .leave

/-- The handlers that are called in a phase, in their order. -/
def Phase.slots : Phase → List Handlers.Slot
  | .enter => [.enter, .every]
  | .leave => [.leave]

namespace Handlers

/-- A call of a handler on record: where the handler stands, the node, the fault that it raised, if
any, and the notes that it wrote itself. -/
structure Call where
  slot : Slot
  node : Cursor
  raised? : Option Fault
  notes : Log

namespace Call

def site (call : Call) : Slot × Cursor := (call.slot, call.node)

/-- The call raised nothing, or a fault that is absorbed. -/
def Absorbed (call : Call) : Prop := ∀ fault ∈ call.raised?, fault.absorbed = true

/-- The note on a call that was given up. -/
def remark (call : Call) (fault : Fault) : Note :=
  .handlerSkipped call.slot.phase ⟨call.node.kind, call.node.position, fault⟩

/-- All that such a call adds to the log: its own notes, and one more if it raised a fault. -/
def log (call : Call) : Log := call.notes ++ (call.raised?.map call.remark).toList

end Call

/-- The handler for a kind of node. -/
def handler? (hs : Handlers σ) (kind : String) : Slot → Option (Cursor → Task σ Unit)
  | .enter => hs.enter kind
  | .leave => hs.leave kind
  | .every => hs.every

/-- Put other handlers in the places of those that there are. -/
def replace (f : Slot → (Cursor → Task σ Unit) → Cursor → Task τ Unit) (hs : Handlers σ) :
    Handlers τ where
  enter kind := (hs.enter kind).map (f .enter)
  leave kind := (hs.leave kind).map (f .leave)
  every := hs.every.map (f .every)

/-- A handler whose calls are put on record. -/
def watch (slot : Slot) (handler : Cursor → Task σ Unit) (c : Cursor) :
    Task (σ × List Call) Unit := fun s =>
  let out := (handler c).run s.1
  ⟨out.result, (out.state, s.2 ++ [⟨slot, c, out.fault?, out.log⟩]), out.log⟩

/-- A handler that ends where it ended, but raises nothing. -/
def mute (handler : Cursor → Task σ Unit) (c : Cursor) : Task σ Unit := fun s =>
  let out := (handler c).run s
  ⟨.ok (), out.state, out.log⟩

def watched (hs : Handlers σ) : Handlers (σ × List Call) := hs.replace watch

def muted (hs : Handlers σ) : Handlers σ := hs.replace fun _ => mute

/-- A handler that is to be called at a node. -/
structure Due (σ : Type) where
  slot : Slot
  node : Cursor
  handler : Cursor → Task σ Unit

/-- The handlers that are to be called at an event, the one for the kind of the node first. -/
def dueAt (hs : Handlers σ) (e : Event) : List (Due σ) :=
  e.phase.slots.filterMap fun slot =>
    (hs.handler? e.cursor.kind slot).map (⟨slot, e.cursor, ·⟩)

/-- The handlers that are to be called in a walk. -/
def due (hs : Handlers σ) (c : Cursor) : List (Due σ) := c.events.flatMap hs.dueAt

namespace Due

def site (d : Due σ) : Slot × Cursor := (d.slot, d.node)

/-- Call a handler in a walk. -/
def invoke (d : Due σ) : Task σ Unit := dispatch d.handler ⟨d.slot.phase, d.node⟩

def replace (f : Slot → (Cursor → Task σ Unit) → Cursor → Task τ Unit) (d : Due σ) : Due τ :=
  ⟨d.slot, d.node, f d.slot d.handler⟩

/-- How a call ends from a state. -/
def outcome (d : Due σ) (s : σ) : Outcome σ Unit := (d.handler d.node).run s

/-- The record of a call from a state. -/
def call (d : Due σ) (s : σ) : Call := ⟨d.slot, d.node, (d.outcome s).fault?, (d.outcome s).log⟩

end Due

section Walk

variable (f : Slot → (Cursor → Task σ Unit) → Cursor → Task τ Unit) (hs : Handlers σ)

theorem handler?_replace (kind : String) (slot : Slot) :
    (hs.replace f).handler? kind slot = (hs.handler? kind slot).map (f slot) := by
  cases slot <;> rfl

theorem dueAt_replace (e : Event) :
    (hs.replace f).dueAt e = (hs.dueAt e).map (Due.replace f) := by
  rw [dueAt, dueAt, List.map_filterMap]
  congr 1
  funext slot
  rw [handler?_replace, Option.map_map, Option.map_map]
  rfl

theorem due_replace (c : Cursor) : (hs.replace f).due c = (hs.due c).map (Due.replace f) := by
  rw [due, due, List.map_flatMap]
  exact List.flatMap_congr fun e _ => dueAt_replace f hs e

theorem handle_eq (e : Event) : hs.handle e = Task.each Due.invoke (hs.dueAt e) := by
  obtain ⟨phase, c⟩ := e
  cases phase with
  | enter =>
      simp only [handle, handlersAt, dueAt, Phase.slots, handler?]
      cases hs.enter c.kind <;> cases hs.every <;> rfl
  | leave =>
      simp only [handle, handlersAt, dueAt, Phase.slots, handler?]
      cases hs.leave c.kind <;> rfl

/-- A walk calls the handlers that are due, one after the other. -/
theorem walk_eq (c : Cursor) : hs.walk c = Task.each Due.invoke (hs.due c) := by
  rw [walk, due, Task.each_flatMap]
  congr 1
  funext e
  exact hs.handle_eq e

theorem walk_replace (c : Cursor) :
    (hs.replace f).walk c = Task.each (fun d => (Due.replace f d).invoke) (hs.due c) := by
  rw [walk_eq, due_replace, Task.each_map]

end Walk

/-- The records of calls from a state. Each call starts from the state that the one before it left,
also if that one raised a fault. -/
def calls : List (Due σ) → σ → List Call
  | [], _ => []
  | d :: rest, s => d.call s :: calls rest (d.outcome s).state

/-- The state after these calls. -/
def after (ds : List (Due σ)) (s : σ) : σ := ds.foldl (fun s d => (d.outcome s).state) s

theorem site_calls (ds : List (Due σ)) (s : σ) :
    (calls ds s).map Call.site = ds.map Due.site := by
  induction ds generalizing s with
  | nil => rfl
  | cons d rest ih =>
      rw [calls, List.map_cons, List.map_cons, ih]
      rfl

namespace Due

variable {d : Due σ} {s : σ}

/-- Call a handler that is watched. -/
def perform (d : Due σ) : Task (σ × List Call) Unit := (d.replace watch).invoke

/-- Call a handler that is watched and raises nothing. -/
def rehearse (d : Due σ) : Task (σ × List Call) Unit :=
  ((d.replace watch).replace fun _ => mute).invoke

theorem run_rehearse (d : Due σ) (s : σ) (made : List Call) :
    d.rehearse.run (s, made) =
      ⟨.ok (), ((d.outcome s).state, made ++ [d.call s]), (d.outcome s).log⟩ := rfl

/-- A fault that is absorbed does not show but for its note. -/
theorem run_perform_of_absorbed (h : (d.call s).Absorbed) (made : List Call) :
    d.perform.run (s, made) =
      ⟨.ok (), ((d.outcome s).state, made ++ [d.call s]), (d.call s).log⟩ := by
  rw [Call.log]
  cases hRaised : (d.call s).raised? with
  | none =>
      have hOk : ((watch d.slot d.handler d.node).run (s, made)).result = .ok () :=
        Outcome.result_of_fault?_none hRaised
      rw [Option.map_none, Option.toList_none, List.append_nil]
      exact Task.run_absorb_of_ok hOk () _
  | some fault =>
      have hError : ((watch d.slot d.handler d.node).run (s, made)).result = .error fault :=
        Outcome.result_of_fault?_some hRaised
      exact Task.run_absorb_of_absorbed hError (h fault hRaised) () _

theorem run_perform_of_escape {fault : Fault} (hRaised : (d.call s).raised? = some fault)
    (hEscapes : fault.absorbed = false) (made : List Call) :
    d.perform.run (s, made) =
      ⟨.error fault, ((d.outcome s).state, made ++ [d.call s]), (d.call s).notes⟩ := by
  have hError : ((watch d.slot d.handler d.node).run (s, made)).result = .error fault :=
    Outcome.result_of_fault?_some hRaised
  exact Task.run_absorb_of_escape hError hEscapes () _

/-- Watching a handler changes nothing. -/
theorem run_invoke (d : Due σ) (s : σ × List Call) :
    d.invoke.run s.1 = (d.perform.run s).mapState Prod.fst :=
  Task.run_absorb_of_view (t := watch d.slot d.handler d.node) rfl () _

end Due

/-- Calls that raise nothing are all made. -/
theorem run_each_rehearse (ds : List (Due σ)) (s : σ) (made : List Call) :
    ((Task.each Due.rehearse ds).run (s, made)).result = .ok () ∧
      ((Task.each Due.rehearse ds).run (s, made)).state = (after ds s, made ++ calls ds s) := by
  induction ds generalizing s made with
  | nil =>
      rw [calls, List.append_nil]
      exact ⟨rfl, rfl⟩
  | cons d rest ih =>
      have hFirst := d.run_rehearse s made
      rw [Task.run_each_cons_of_ok (congrArg Outcome.result hFirst), hFirst]
      obtain ⟨hResult, hState⟩ := ih (d.outcome s).state (made ++ [d.call s])
      refine ⟨hResult, hState.trans ?_⟩
      rw [calls, List.append_assoc, List.singleton_append]
      rfl

/-- So are calls whose faults are absorbed. -/
theorem run_each_perform_of_absorbed {ds : List (Due σ)} {s : σ}
    (h : ∀ call ∈ calls ds s, call.Absorbed) (made : List Call) :
    (Task.each Due.perform ds).run (s, made) =
      ⟨.ok (), (after ds s, made ++ calls ds s), (calls ds s).flatMap Call.log⟩ := by
  induction ds generalizing s made with
  | nil =>
      rw [calls, List.append_nil]
      rfl
  | cons d rest ih =>
      obtain ⟨hCall, hRest⟩ := List.forall_mem_cons.1 h
      have hFirst := Due.run_perform_of_absorbed hCall made
      rw [Task.run_each_cons_of_ok (congrArg Outcome.result hFirst), hFirst, ih hRest, calls,
        List.append_assoc, List.singleton_append]
      rfl

/-- The first call whose fault is not absorbed is the last one that is made. -/
theorem run_each_perform_of_escape {ds : List (Due σ)} {s : σ} {before later : List Call}
    {call : Call} {fault : Fault} (hCalls : calls ds s = before ++ call :: later)
    (hBefore : ∀ x ∈ before, x.Absorbed) (hRaised : call.raised? = some fault)
    (hEscapes : fault.absorbed = false) (made : List Call) :
    ((Task.each Due.perform ds).run (s, made)).result = .error fault ∧
      ((Task.each Due.perform ds).run (s, made)).state.2 = made ++ (before ++ [call]) ∧
      ((Task.each Due.perform ds).run (s, made)).log = before.flatMap Call.log ++ call.notes := by
  induction ds generalizing s made before with
  | nil => cases before <;> cases hCalls
  | cons d rest ih =>
      cases before with
      | nil =>
          obtain ⟨rfl, -⟩ := List.cons.inj hCalls
          have hFirst := Due.run_perform_of_escape hRaised hEscapes made
          rw [Task.run_each_cons_of_error (congrArg Outcome.result hFirst), hFirst]
          exact ⟨rfl, rfl, rfl⟩
      | cons first before =>
          obtain ⟨rfl, hRest⟩ := List.cons.inj hCalls
          obtain ⟨hCall, hBefore⟩ := List.forall_mem_cons.1 hBefore
          have hFirst := Due.run_perform_of_absorbed hCall made
          rw [Task.run_each_cons_of_ok (congrArg Outcome.result hFirst), hFirst]
          obtain ⟨hResult, hState, hLog⟩ := ih hRest hBefore (made ++ [d.call s])
          refine ⟨hResult, ?_, ?_⟩
          · rw [hState, List.append_assoc, List.singleton_append]
            rfl
          · dsimp only
            rw [hLog, List.flatMap_cons, List.append_assoc]

theorem Call.not_absorbed_iff {call : Call} :
    ¬ call.Absorbed ↔ ∃ fault, call.raised? = some fault ∧ fault.absorbed = false := by
  simp [Absorbed]

/-- If the fault of some call is not absorbed, there is a first such call. -/
theorem exists_first_escape {made : List Call} (h : ∃ call ∈ made, ¬ call.Absorbed) :
    ∃ before call later fault, made = before ++ call :: later ∧ (∀ x ∈ before, x.Absorbed) ∧
      call.raised? = some fault ∧ fault.absorbed = false := by
  induction made with
  | nil => simp at h
  | cons first rest ih =>
      by_cases hFirst : first.Absorbed
      · have hRest : ∃ call ∈ rest, ¬ call.Absorbed := by simpa [hFirst] using h
        obtain ⟨before, call, later, fault, rfl, hBefore, hFault⟩ := ih hRest
        exact ⟨first :: before, call, later, fault, rfl, by simpa [hFirst] using hBefore, hFault⟩
      · obtain ⟨fault, hFault⟩ := Call.not_absorbed_iff.1 hFirst
        exact ⟨[], first, rest, fault, rfl, by simp, hFault⟩

theorem walk_watched (hs : Handlers σ) (c : Cursor) :
    hs.watched.walk c = Task.each Due.perform (hs.due c) :=
  walk_replace watch hs c

theorem walk_watched_muted (hs : Handlers σ) (c : Cursor) :
    hs.watched.muted.walk c = Task.each Due.rehearse (hs.due c) := by
  rw [muted, walk_replace, watched, due_replace, Task.each_map]
  rfl

/-- A failing handler costs only itself. Watching the handlers of a walk changes nothing. If none of
them raised anything, the calls would be those that are due at the events, in their order. If the
faults that they do raise are absorbed, the walk returns and makes the same calls, and the log has
one note for each fault. Otherwise it makes them up to the first one whose fault is not absorbed,
and stops with that fault. -/
theorem walk_isolates (hs : Handlers σ) (c : Cursor) (s : σ) :
    let planned := (hs.watched.muted.walk c).run (s, [])
    let made := (hs.watched.walk c).run (s, [])
    (hs.walk c).run s = made.mapState Prod.fst ∧
      planned.result = .ok () ∧
      planned.state.2.map Call.site = (hs.due c).map Due.site ∧
      ((∀ call ∈ planned.state.2, call.Absorbed) →
        made.result = .ok () ∧ made.state = planned.state ∧
          made.log = planned.state.2.flatMap Call.log) ∧
      ((∃ call ∈ planned.state.2, ¬ call.Absorbed) →
        ∃ before call later fault, planned.state.2 = before ++ call :: later ∧
          (∀ x ∈ before, x.Absorbed) ∧ call.raised? = some fault ∧ fault.absorbed = false ∧
          made.result = .error fault ∧ made.state.2 = before ++ [call] ∧
          made.log = before.flatMap Call.log ++ call.notes) := by
  rw [walk_watched_muted, walk_watched, walk_eq]
  intro planned made
  obtain ⟨hResult, hState⟩ := run_each_rehearse (hs.due c) s []
  have hCalls : planned.state.2 = calls (hs.due c) s := congrArg Prod.snd hState
  refine ⟨Task.run_each_of_view Due.run_invoke (hs.due c) (s, []), hResult, ?_, ?_, ?_⟩
  · rw [hCalls, site_calls]
  · intro hAbsorbed
    rw [hCalls] at hAbsorbed ⊢
    have hMade := run_each_perform_of_absorbed hAbsorbed []
    exact ⟨congrArg Outcome.result hMade, (congrArg Outcome.state hMade).trans hState.symm,
      congrArg Outcome.log hMade⟩
  · intro hEscape
    obtain ⟨before, call, later, fault, hFirst, hBefore, hRaised, hEscapes⟩ :=
      exists_first_escape hEscape
    exact ⟨before, call, later, fault, hFirst, hBefore, hRaised, hEscapes,
      run_each_perform_of_escape (hCalls.symm.trans hFirst) hBefore hRaised hEscapes []⟩

instance (call : Call) : Decidable call.Absorbed :=
  inferInstanceAs (Decidable (∀ fault ∈ call.raised?, fault.absorbed = true))

/-- Handlers that fail on entering a word and on leaving a call, the second time with a fault that
is given. -/
def failing (cause : Fault.Cause) : Handlers Unit where
  enter kind := if kind = "identifier" then some fun _ => .stop ⟨.badValue, "odd"⟩ else none
  leave kind := if kind = "call_expression" then some fun _ => .stop ⟨cause, "late"⟩ else none
  every := some fun _ => .done ()

end Handlers

open Node in
/-- A call and a word: `f(); x`. -/
def Node.callAndWord : Node :=
  inner "program" "" 0 6 [
    inner "call_expression" "" 0 3 [word "function" 0 1 (.text "f")],
    word "" 5 6 (.text "x")]

/-- Faults of single nodes at three calls leave seven calls and three notes. If the host breaks down
on leaving the call, nothing is called at the word behind it. -/
theorem Handlers.walk_isolates_callAndWord :
    let planned := fun cause =>
      (((failing cause).watched.muted.walk (.root .callAndWord)).run ((), [])).state.2
    let made := fun cause => ((failing cause).watched.walk (.root .callAndWord)).run ((), [])
    ((∀ call ∈ planned .missing, call.Absorbed) ∧ (planned .missing).length = 7 ∧
      (made .missing).result = .ok () ∧ (made .missing).log.length = 3) ∧
    (∃ call ∈ planned .crash, ¬ call.Absorbed) ∧ (planned .crash).length = 7 ∧
      (∃ fault, fault.absorbed = false ∧ (made .crash).result = .error fault) ∧
      (made .crash).state.2.length = 5 ∧ (made .crash).log.length = 1 := by
  intro planned made
  have hAbsorbed : ∀ call ∈ planned .missing, call.Absorbed := by decide +kernel
  have hEscape : ∃ call ∈ planned .crash, ¬ call.Absorbed := by decide +kernel
  obtain ⟨-, -, -, hReturns, -⟩ := walk_isolates (failing .missing) (.root .callAndWord) ()
  obtain ⟨-, -, -, -, hStops⟩ := walk_isolates (failing .crash) (.root .callAndWord) ()
  obtain ⟨hOk, -, hLog⟩ := hReturns hAbsorbed
  obtain ⟨_, _, _, fault, -, -, -, hEscapes, hError, -⟩ := hStops hEscape
  refine ⟨⟨hAbsorbed, by decide +kernel, hOk, ?_⟩, hEscape, by decide +kernel,
    ⟨fault, hEscapes, hError⟩, by decide +kernel, by decide +kernel⟩
  rw [hLog]
  decide +kernel

end HotPath
