import HotPath.Task

/-! Judging steps. A step is judged by the faults that may stop it and by how the state that it
leaves is related to the one from which it began. Both judgements hold however the step ends,
because a fault keeps the state that was reached. -/

namespace HotPath

variable {σ τ α β : Type}

/-- Every fault of a read satisfies a predicate. A read without faults is the case of `False`. -/
def FailsOnly (P : Fault → Prop) (e : Except Fault α) : Prop :=
  ∀ fault, e = .error fault → P fault

namespace FailsOnly

variable {P : Fault → Prop}

theorem ok (a : α) : FailsOnly P (.ok a : Except Fault α) := by
  intro fault h
  cases h

/-- What is read second may depend on the first read having succeeded. -/
theorem bind {e : Except Fault α} {next : α → Except Fault β} (hFirst : FailsOnly P e)
    (hNext : ∀ a, e = .ok a → FailsOnly P (next a)) : FailsOnly P (e >>= next) := by
  intro fault h
  cases e with
  | error first =>
      apply hFirst
      cases h
      rfl
  | ok a => exact hNext a rfl fault h

theorem map {e : Except Fault α} (f : α → β) (h : FailsOnly P e) : FailsOnly P (e.map f) := by
  intro fault hFault
  cases e with
  | error first =>
      apply h
      cases hFault
      rfl
  | ok a => cases hFault

instance [DecidablePred P] : (e : Except Fault α) → Decidable (FailsOnly P e)
  | .ok a => .isTrue (ok a)
  | .error fault => decidable_of_iff (P fault)
      ⟨fun h fault' hSame => by cases hSame; exact h, fun h => h fault rfl⟩

/-- A read that cannot fail gives a value. -/
theorem exists_ok {e : Except Fault α} (h : FailsOnly (fun _ => False) e) : ∃ a, e = .ok a := by
  cases e with
  | error fault => exact (h fault rfl).elim
  | ok a => exact ⟨a, rfl⟩

/-- A read that cannot fail gives its value, whatever would take its place. -/
theorem eq_ok {e : Except Fault α} (h : FailsOnly (fun _ => False) e) (fallback : α) :
    e = .ok (e.toOption.getD fallback) := by
  obtain ⟨a, rfl⟩ := h.exists_ok
  rfl

end FailsOnly

/-- Reads in sequence succeed only if both do. -/
theorem exists_of_bind_eq_ok {e : Except Fault α} {next : α → Except Fault β} {b : β}
    (h : (e >>= next) = .ok b) : ∃ a, e = .ok a ∧ next a = .ok b := by
  cases e with
  | error fault => cases h
  | ok a => exact ⟨a, rfl, h⟩

/-- A read that falls back to nothing finds something only if it succeeds. -/
theorem getD_toOption_eq_some_iff {e : Except Fault (Option α)} {a : α} :
    e.toOption.getD none = some a ↔ e = .ok (some a) := by
  cases e with
  | error fault => simp [Except.toOption]
  | ok found => simp [Except.toOption]

/-- A relation along which steps can be put together. -/
class Composable (R : σ → σ → Prop) : Prop where
  refl : ∀ s, R s s
  trans : ∀ {a b c}, R a b → R b c → R a c

/-- Any two states are related, where only the faults of a step matter. -/
def Anywhere (_ _ : σ) : Prop := True

instance : Composable (Anywhere : σ → σ → Prop) := ⟨fun _ => trivial, fun _ _ => trivial⟩

namespace Task

/-- All faults of a step satisfy a predicate, and the state moves along a relation, also when a
fault stops the step. -/
structure Keeps (P : Fault → Prop) (R : σ → σ → Prop) (t : Task σ α) : Prop where
  fault : ∀ s, FailsOnly P (t.run s).result
  state : ∀ s, R s (t.run s).state

/-- A step of several parts succeeds only if each part does, and the second part starts from the
state that the first one left. -/
theorem exists_of_bind_ok {t : Task σ α} {next : α → Task σ β} {s : σ} {b : β}
    (h : ((t >>= next).run s).result = .ok b) :
    ∃ a, (t.run s).result = .ok a ∧ ((next a).run (t.run s).state).result = .ok b ∧
      ((t >>= next).run s).state = ((next a).run (t.run s).state).state := by
  cases hFirst : (t.run s).result with
  | error fault =>
      rw [run_bind_of_error hFirst] at h
      cases h
  | ok a =>
      rw [run_bind_of_ok hFirst] at h ⊢
      exact ⟨a, rfl, h, rfl⟩

/-- Without a state, what follows a step that succeeds depends on its value alone. -/
theorem result_bind_of_ok {t : Task Unit α} {next : α → Task Unit β} {a : α}
    (h : (t.run ()).result = .ok a) :
    ((t >>= next).run ()).result = ((next a).run ()).result := by
  rw [run_bind_of_ok h]

/-- If a list of steps succeeds, each of them succeeded from the state that it met. -/
theorem exists_ok_of_collect_ok {f : α → Task σ β} {l : List α} {s : σ} {bs : List β}
    (h : ((collect f l).run s).result = .ok bs) {a : α} (ha : a ∈ l) :
    ∃ s' b, ((f a).run s').result = .ok b := by
  induction l generalizing s bs with
  | nil => cases ha
  | cons first rest ih =>
      obtain ⟨b, hFirst, h, -⟩ := exists_of_bind_ok h
      obtain ⟨later, hLater, -, -⟩ := exists_of_bind_ok h
      rcases List.mem_cons.1 ha with rfl | ha
      · exact ⟨s, b, hFirst⟩
      · exact ih hLater ha

/-- Whatever a list of steps collects is the value of one of them. -/
theorem exists_of_mem_collect_ok {f : α → Task σ β} {l : List α} {s : σ} {bs : List β}
    (h : ((collect f l).run s).result = .ok bs) {b : β} (hb : b ∈ bs) :
    ∃ a ∈ l, ∃ s', ((f a).run s').result = .ok b := by
  induction l generalizing s bs with
  | nil =>
      cases h
      cases hb
  | cons first rest ih =>
      obtain ⟨value, hFirst, h, -⟩ := exists_of_bind_ok h
      obtain ⟨later, hLater, h, -⟩ := exists_of_bind_ok h
      cases h
      rcases List.mem_cons.1 hb with rfl | hb
      · exact ⟨first, List.mem_cons_self, s, hFirst⟩
      · obtain ⟨a, ha, hValue⟩ := ih hLater hb
        exact ⟨a, List.mem_cons_of_mem first ha, hValue⟩

/-- If each step of a list returns a fixed value whenever it succeeds, so does the list. -/
theorem eq_map_of_collect_ok {f : α → Task σ β} {value : α → β} {l : List α} {s : σ} {bs : List β}
    (hValue : ∀ a ∈ l, ∀ s b, ((f a).run s).result = .ok b → b = value a)
    (h : ((collect f l).run s).result = .ok bs) : bs = l.map value := by
  induction l generalizing s bs with
  | nil =>
      cases h
      rfl
  | cons first rest ih =>
      obtain ⟨b, hFirst, h, -⟩ := exists_of_bind_ok h
      obtain ⟨later, hLater, h, -⟩ := exists_of_bind_ok h
      cases h
      rw [List.map_cons, hValue first List.mem_cons_self s b hFirst,
        ih (fun a ha => hValue a (List.mem_cons_of_mem first ha)) hLater]

@[simp] theorem result_ofExcept (e : Except Fault α) (s : σ) :
    ((ofExcept e : Task σ α).run s).result = e := by
  cases e with
  | error fault => rfl
  | ok a => rfl

@[simp] theorem state_ofExcept (e : Except Fault α) (s : σ) :
    ((ofExcept e : Task σ α).run s).state = s := by
  cases e with
  | error fault => rfl
  | ok a => rfl

theorem result_withState_of_ok {t : Task τ α} {s : τ} {a : α} (h : (t.run s).result = .ok a)
    (outer : σ) :
    ((withState s t : Task σ (α × τ)).run outer).result = .ok (a, (t.run s).state) := by
  change (t.run s).result.map (·, (t.run s).state) = .ok (a, (t.run s).state)
  rw [h]
  rfl

theorem result_withState_of_error {t : Task τ α} {s : τ} {fault : Fault}
    (h : (t.run s).result = .error fault) (outer : σ) :
    ((withState s t : Task σ (α × τ)).run outer).result = .error fault := by
  change (t.run s).result.map (·, (t.run s).state) = .error fault
  rw [h]
  rfl

/-- A step on a state of its own hands over its result and the state that it reached. -/
theorem of_withState_ok {t : Task τ α} {s : τ} {outer : σ} {p : α × τ}
    (h : ((withState s t : Task σ (α × τ)).run outer).result = .ok p) :
    (t.run s).result = .ok p.1 ∧ p.2 = (t.run s).state := by
  change (t.run s).result.map (·, (t.run s).state) = .ok p at h
  cases hResult : (t.run s).result with
  | error fault =>
      rw [hResult] at h
      cases h
  | ok a =>
      rw [hResult] at h
      cases h
      exact ⟨rfl, rfl⟩

theorem run_absorb (fallback : α) (remark : Fault → Note) (t : Task σ α) (s : σ) :
    (t.absorb fallback remark).run s =
      match (t.run s).result with
      | .ok a => ⟨.ok a, (t.run s).state, (t.run s).log⟩
      | .error fault =>
        if fault.absorbed then ⟨.ok fallback, (t.run s).state, (t.run s).log ++ [remark fault]⟩
        else ⟨.error fault, (t.run s).state, (t.run s).log⟩ := rfl

@[simp] theorem state_absorb (fallback : α) (remark : Fault → Note) (t : Task σ α) (s : σ) :
    ((t.absorb fallback remark).run s).state = (t.run s).state := by
  rw [run_absorb]
  cases (t.run s).result with
  | ok a => rfl
  | error fault =>
      dsimp only
      split <;> rfl

/-- A step that absorbs single faults succeeds with the value of the step, or with the fallback. -/
theorem result_absorb (fallback : α) (remark : Fault → Note) (t : Task σ α) (s : σ) :
    ((t.absorb fallback remark).run s).result =
      match (t.run s).result with
      | .ok a => .ok a
      | .error fault => if fault.absorbed then .ok fallback else .error fault := by
  rw [run_absorb]
  cases (t.run s).result with
  | ok a => rfl
  | error fault =>
      dsimp only
      split <;> rfl

/-- A read that succeeds after faults have been absorbed gives what was read or the fallback. -/
theorem eq_of_absorb_read_ok {e : Except Fault α} {fallback : α} {remark : Fault → Note} {s : σ}
    {found : α}
    (h : (((ofExcept e : Task σ α).absorb fallback remark).run s).result = .ok found) :
    found = e.toOption.getD fallback := by
  rw [result_absorb, result_ofExcept] at h
  cases e with
  | ok a =>
      cases h
      rfl
  | error fault =>
      simp only at h
      split at h
      · cases h
        rfl
      · cases h

/-- Such a read succeeds if and only if the fault, if any, is one that is absorbed. -/
theorem absorb_read_ok_iff {e : Except Fault α} {fallback : α} {remark : Fault → Note} {s : σ} :
    (∃ a, (((ofExcept e : Task σ α).absorb fallback remark).run s).result = .ok a) ↔
      FailsOnly (fun fault => fault.absorbed = true) e := by
  rw [result_absorb, result_ofExcept]
  cases e with
  | ok a => exact ⟨fun _ => FailsOnly.ok a, fun _ => ⟨a, rfl⟩⟩
  | error fault =>
      by_cases hAbsorbed : fault.absorbed = true
      · simp [hAbsorbed, FailsOnly]
      · simp [hAbsorbed, FailsOnly]

/-! Steps that cannot fail hand on at once to what follows them. -/

@[simp] theorem result_update_bind (f : σ → σ) (next : Unit → Task σ β) (s : σ) :
    ((update f >>= next).run s).result = ((next ()).run (f s)).result := rfl

@[simp] theorem state_update_bind (f : σ → σ) (next : Unit → Task σ β) (s : σ) :
    ((update f >>= next).run s).state = ((next ()).run (f s)).state := rfl

@[simp] theorem result_state_bind (next : σ → Task σ β) (s : σ) :
    (((state : Task σ σ) >>= next).run s).result = ((next s).run s).result := rfl

@[simp] theorem state_state_bind (next : σ → Task σ β) (s : σ) :
    (((state : Task σ σ) >>= next).run s).state = ((next s).run s).state := rfl

@[simp] theorem result_note_bind (n : Note) (next : Unit → Task σ β) (s : σ) :
    ((note n >>= next).run s).result = ((next ()).run s).result := rfl

theorem result_each_note (notes : List Note) (s : σ) :
    ((each note notes).run s).result = .ok () := by
  induction notes with
  | nil => rfl
  | cons n rest ih => exact ih

section Keeps

variable {P : Fault → Prop} {R : σ → σ → Prop}

theorem Keeps.pure [Composable R] (a : α) : Keeps P R (Pure.pure a : Task σ α) :=
  ⟨fun _ => FailsOnly.ok a, Composable.refl⟩

theorem Keeps.stop [Composable R] {fault : Fault} (h : P fault) :
    Keeps P R (Task.stop fault : Task σ α) := by
  refine ⟨?_, Composable.refl⟩
  intro s other hOther
  cases hOther
  exact h

theorem Keeps.getState [Composable R] : Keeps P R (Task.state : Task σ σ) :=
  ⟨fun s => FailsOnly.ok s, Composable.refl⟩

theorem Keeps.update {f : σ → σ} (h : ∀ s, R s (f s)) : Keeps P R (Task.update f) :=
  ⟨fun _ => FailsOnly.ok (), h⟩

theorem Keeps.bind [Composable R] {t : Task σ α} {next : α → Task σ β} (hFirst : Keeps P R t)
    (hNext : ∀ a, Keeps P R (next a)) : Keeps P R (t >>= next) := by
  constructor
  · intro s
    cases hResult : (t.run s).result with
    | error fault =>
        rw [run_bind_of_error hResult]
        intro other hOther
        cases hOther
        exact hFirst.fault s fault hResult
    | ok a =>
        rw [run_bind_of_ok hResult]
        exact (hNext a).fault _
  · intro s
    cases hResult : (t.run s).result with
    | error fault =>
        rw [run_bind_of_error hResult]
        exact hFirst.state s
    | ok a =>
        rw [run_bind_of_ok hResult]
        exact Composable.trans (hFirst.state s) ((hNext a).state _)

/-- A step that cannot fail and what follows it may move the state in different ways. -/
theorem Keeps.bind_of_total {Q R S : σ → σ → Prop} {t : Task σ α} {next : α → Task σ β}
    (hFirst : Keeps (fun _ => False) Q t) (hNext : ∀ a, Keeps P R (next a))
    (hTrans : ∀ {a b c}, Q a b → R b c → S a c) : Keeps P S (t >>= next) := by
  have hRun : ∀ s, ∃ a, ((t >>= next).run s).result = ((next a).run (t.run s).state).result ∧
      ((t >>= next).run s).state = ((next a).run (t.run s).state).state := by
    intro s
    obtain ⟨a, hOk⟩ := (hFirst.fault s).exists_ok
    rw [run_bind_of_ok hOk]
    exact ⟨a, rfl, rfl⟩
  constructor
  · intro s
    obtain ⟨a, hResult, -⟩ := hRun s
    rw [hResult]
    exact (hNext a).fault _
  · intro s
    obtain ⟨a, -, hState⟩ := hRun s
    rw [hState]
    exact hTrans (hFirst.state s) ((hNext a).state _)

/-- After a read the rest has to be judged only for the value that was read. -/
theorem Keeps.read [Composable R] {e : Except Fault α} {next : α → Task σ β}
    (hRead : FailsOnly P e) (hNext : ∀ a, e = .ok a → Keeps P R (next a)) :
    Keeps P R ((ofExcept e : Task σ α) >>= next) := by
  cases e with
  | error fault => exact Keeps.stop (hRead fault rfl)
  | ok a => exact hNext a rfl

theorem Keeps.read_ok {e : Except Fault α} {a : α} {next : α → Task σ β} (hRead : e = .ok a)
    (hNext : Keeps P R (next a)) : Keeps P R ((ofExcept e : Task σ α) >>= next) := by
  subst hRead
  exact hNext

theorem Keeps.ite {c : Prop} [Decidable c] {t t' : Task σ α} (hThen : Keeps P R t)
    (hElse : Keeps P R t') : Keeps P R (if c then t else t') := by
  split
  · exact hThen
  · exact hElse

theorem Keeps.each [Composable R] {f : α → Task σ Unit} {l : List α}
    (h : ∀ a ∈ l, Keeps P R (f a)) : Keeps P R (Task.each f l) := by
  induction l with
  | nil => exact Keeps.pure ()
  | cons a rest ih =>
      refine Keeps.bind (h a List.mem_cons_self) fun _ => ?_
      exact ih fun b hb => h b (List.mem_cons_of_mem a hb)

theorem Keeps.collect [Composable R] {f : α → Task σ β} {l : List α}
    (h : ∀ a ∈ l, Keeps P R (f a)) : Keeps P R (Task.collect f l) := by
  induction l with
  | nil => exact Keeps.pure []
  | cons a rest ih =>
      refine Keeps.bind (h a List.mem_cons_self) fun b => ?_
      refine Keeps.bind (ih fun c hc => h c (List.mem_cons_of_mem a hc)) fun bs => ?_
      exact Keeps.pure (b :: bs)

/-- Faults of single nodes do not leave a step that absorbs them. -/
theorem Keeps.absorb {t : Task σ α} (h : Keeps P R t) (fallback : α) (remark : Fault → Note) :
    Keeps (fun fault => P fault ∧ fault.absorbed = false) R (t.absorb fallback remark) := by
  constructor
  · intro s fault hFault
    rw [result_absorb] at hFault
    split at hFault
    · cases hFault
    · next first hFirst =>
        split at hFault
        · cases hFault
        · next hEscapes =>
            cases hFault
            exact ⟨h.fault s fault hFirst, by simpa using hEscapes⟩
  · intro s
    rw [state_absorb]
    exact h.state s

theorem Keeps.absorb_read [Composable R] {e : Except Fault α}
    (h : FailsOnly (fun fault => fault.absorbed = true) e) (fallback : α) (remark : Fault → Note) :
    Keeps (fun _ => False) R ((ofExcept e : Task σ α).absorb fallback remark) := by
  constructor
  · intro s fault hFault
    obtain ⟨a, hOk⟩ := absorb_read_ok_iff.2 h
    rw [hOk] at hFault
    cases hFault
  · intro s
    rw [state_absorb, state_ofExcept]
    exact Composable.refl s

/-- A step on a state of its own leaves the present one alone. -/
theorem Keeps.withState [Composable R] {t : Task τ α} {s : τ} (h : FailsOnly P (t.run s).result) :
    Keeps P R (Task.withState s t : Task σ (α × τ)) :=
  ⟨fun _ => h.map _, Composable.refl⟩

theorem Keeps.mono {Q : Fault → Prop} {t : Task σ α} (h : Keeps P R t)
    (hPQ : ∀ fault, P fault → Q fault) : Keeps Q R t :=
  ⟨fun s fault hFault => hPQ fault (h.fault s fault hFault), h.state⟩

theorem Keeps.imp {S : σ → σ → Prop} {t : Task σ α} (h : Keeps P R t)
    (hRS : ∀ {a b}, R a b → S a b) : Keeps P S t :=
  ⟨h.fault, fun s => hRS (h.state s)⟩

theorem Keeps.exists_ok {t : Task σ α} (h : Keeps (fun _ => False) R t) (s : σ) :
    ∃ a, (t.run s).result = .ok a :=
  (h.fault s).exists_ok

end Keeps

/-- A step succeeds with a value and leaves a state. -/
structure Yields (t : Task σ α) (s : σ) (a : α) (s' : σ) : Prop where
  result : (t.run s).result = .ok a
  state : (t.run s).state = s'

namespace Yields

variable {s s' s'' : σ} {a : α} {b : β}

theorem pure (a : α) (s : σ) : Yields (Pure.pure a : Task σ α) s a s := ⟨rfl, rfl⟩

theorem update (f : σ → σ) (s : σ) : Yields (Task.update f) s () (f s) := ⟨rfl, rfl⟩

theorem getState (s : σ) : Yields (Task.state : Task σ σ) s s s := ⟨rfl, rfl⟩

theorem bind {t : Task σ α} {next : α → Task σ β} (hFirst : Yields t s a s')
    (hNext : Yields (next a) s' b s'') : Yields (t >>= next) s b s'' := by
  constructor
  · rw [run_bind_of_ok hFirst.result, hFirst.state]
    exact hNext.result
  · rw [run_bind_of_ok hFirst.result, hFirst.state]
    exact hNext.state

theorem read {e : Except Fault α} {next : α → Task σ β} (hRead : e = .ok a)
    (hNext : Yields (next a) s b s') : Yields ((ofExcept e : Task σ α) >>= next) s b s' := by
  subst hRead
  exact hNext

theorem ite {c : Prop} [Decidable c] {t t' : Task σ α} (hThen : c → Yields t s a s')
    (hElse : ¬ c → Yields t' s a s') : Yields (if c then t else t') s a s' := by
  split
  · next hc => exact hThen hc
  · next hc => exact hElse hc

theorem absorb {t : Task σ α} (h : Yields t s a s') (fallback : α) (remark : Fault → Note) :
    Yields (t.absorb fallback remark) s a s' := by
  constructor
  · rw [result_absorb, h.result]
  · rw [state_absorb, h.state]

/-- A list of steps, each of which returns a known value and leaves the state alone. -/
theorem collect {f : α → Task σ β} {value : α → β} {l : List α}
    (h : ∀ a ∈ l, Yields (f a) s (value a) s) : Yields (Task.collect f l) s (l.map value) s := by
  induction l with
  | nil => exact pure [] s
  | cons a rest ih =>
      apply (h a List.mem_cons_self).bind
      exact (ih fun b hb => h b (List.mem_cons_of_mem a hb)).bind (pure _ s)

/-- A list of steps, each of which changes the state in a known way. -/
theorem each {f : α → Task σ Unit} {g : σ → α → σ} {l : List α}
    (h : ∀ a ∈ l, ∀ s, Yields (f a) s () (g s a)) (s : σ) :
    Yields (Task.each f l) s () (l.foldl g s) := by
  induction l generalizing s with
  | nil => exact pure () s
  | cons a rest ih =>
      apply (h a List.mem_cons_self s).bind
      exact ih (fun b hb => h b (List.mem_cons_of_mem a hb)) _

end Yields

end Task

end HotPath
