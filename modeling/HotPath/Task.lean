import HotPath.Log

/-! Steps of an analysis. A step works on a state, may stop with a fault and writes notes. The state
that was reached when a fault stopped a step is kept, and so are the notes, because whoever
absorbs the fault goes on from there. -/

namespace HotPath

/-- How a step ended: its result or the fault that stopped it, the state that it left, and the notes
that it wrote. -/
structure Outcome (σ α : Type) where
  result : Except Fault α
  state : σ
  log : Log

/-- A step from a state. -/
def Task (σ α : Type) : Type := σ → Outcome σ α

namespace Task

variable {σ τ α β : Type}

def run (t : Task σ α) (s : σ) : Outcome σ α := t s

/-- Do nothing. -/
def done (a : α) : Task σ α := fun s => ⟨.ok a, s, []⟩

/-- One step, then the next one from the state that it left, unless a fault stopped it. -/
def andThen (t : Task σ α) (next : α → Task σ β) : Task σ β := fun s =>
  let first := t.run s
  match first.result with
  | .error fault => ⟨.error fault, first.state, first.log⟩
  | .ok a =>
    let second := (next a).run first.state
    ⟨second.result, second.state, first.log ++ second.log⟩

instance : Monad (Task σ) where
  pure := done
  bind := andThen

/-- Stop with a fault. -/
def stop (fault : Fault) : Task σ α := fun s => ⟨.error fault, s, []⟩

/-- The result of a read. -/
def ofExcept : Except Fault α → Task σ α
  | .ok a => done a
  | .error fault => stop fault

instance : MonadLift (Except Fault) (Task σ) := ⟨ofExcept⟩

/-- The present state. -/
def state : Task σ σ := fun s => ⟨.ok s, s, []⟩

def update (f : σ → σ) : Task σ Unit := fun s => ⟨.ok (), f s, []⟩

def note (n : Note) : Task σ Unit := fun s => ⟨.ok (), s, [n]⟩

/-- Run a step and skip it if a fault of a single node stops it: the value is then the fallback, and
a note is written. Other faults pass. -/
def absorb (fallback : α) (remark : Fault → Note) (t : Task σ α) : Task σ α := fun s =>
  let first := t.run s
  match first.result with
  | .ok a => ⟨.ok a, first.state, first.log⟩
  | .error fault =>
    if fault.absorbed then ⟨.ok fallback, first.state, first.log ++ [remark fault]⟩
    else ⟨.error fault, first.state, first.log⟩

/-- Run a step on a state of its own and leave the present one alone. -/
def withState (s : τ) (t : Task τ α) : Task σ (α × τ) := fun outer =>
  let inner := t.run s
  ⟨inner.result.map (·, inner.state), outer, inner.log⟩

/-- Run a step on a part of the state. -/
def focus (get : σ → τ) (set : τ → σ → σ) (t : Task τ α) : Task σ α := fun s =>
  let inner := t.run (get s)
  ⟨inner.result, set inner.state s, inner.log⟩

/-- Run a step for each element of a list, from left to right. -/
def each (f : α → Task σ Unit) : List α → Task σ Unit
  | [] => done ()
  | a :: rest => do f a; each f rest

/-- Run a step for each element of a list and collect the results. -/
def collect (f : α → Task σ β) : List α → Task σ (List β)
  | [] => done []
  | a :: rest => do
    let b ← f a
    let bs ← collect f rest
    return b :: bs

@[simp] theorem run_done (a : α) (s : σ) : (done a).run s = ⟨.ok a, s, []⟩ := rfl

@[simp] theorem run_pure (a : α) (s : σ) : (pure a : Task σ α).run s = ⟨.ok a, s, []⟩ := rfl

@[simp] theorem run_stop (fault : Fault) (s : σ) :
    (stop fault : Task σ α).run s = ⟨.error fault, s, []⟩ := rfl

@[simp] theorem run_state (s : σ) : (state : Task σ σ).run s = ⟨.ok s, s, []⟩ := rfl

@[simp] theorem run_update (f : σ → σ) (s : σ) : (update f).run s = ⟨.ok (), f s, []⟩ := rfl

@[simp] theorem run_note (n : Note) (s : σ) : (note n).run s = ⟨.ok (), s, [n]⟩ := rfl

/-- What follows a step that succeeds runs from the state that the step left. -/
theorem run_bind_of_ok {t : Task σ α} {next : α → Task σ β} {s : σ} {a : α}
    (h : (t.run s).result = .ok a) :
    (t >>= next).run s =
      let second := (next a).run (t.run s).state
      ⟨second.result, second.state, (t.run s).log ++ second.log⟩ := by
  show (andThen t next).run s = _
  simp only [andThen, run] at h ⊢
  rw [h]

/-- What follows a step that a fault stops does not run. -/
theorem run_bind_of_error {t : Task σ α} {next : α → Task σ β} {s : σ} {fault : Fault}
    (h : (t.run s).result = .error fault) :
    (t >>= next).run s = ⟨.error fault, (t.run s).state, (t.run s).log⟩ := by
  show (andThen t next).run s = _
  simp only [andThen, run] at h ⊢
  rw [h]

end Task

end HotPath
