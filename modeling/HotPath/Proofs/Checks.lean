import Mathlib.Data.List.Forall2

/-! Checks in sequence. A list is gone through until a check fails, so a run that succeeds is one in
which every check does, and a run that fails has a first check that does. -/

namespace HotPath.Checks

variable {ε ε' α β σ : Type}

/-- Two checks in sequence succeed only if both do. -/
theorem bind_eq_ok_iff {x : Except ε α} {next : α → Except ε β} {b : β} :
    (x >>= next) = .ok b ↔ ∃ a, x = .ok a ∧ next a = .ok b := by
  cases x <;> simp [bind, Except.bind]

/-- They fail if the first one does, or else the second one. -/
theorem bind_eq_error_iff {x : Except ε α} {next : α → Except ε β} {e : ε} :
    (x >>= next) = .error e ↔ x = .error e ∨ ∃ a, x = .ok a ∧ next a = .error e := by
  cases x <;> simp [bind, Except.bind]

theorem map_eq_ok_iff {x : Except ε α} {f : α → β} {b : β} :
    x.map f = .ok b ↔ ∃ a, x = .ok a ∧ f a = b := by
  cases x <;> simp [Except.map]

/-- Rewording an error changes no success. -/
theorem mapError_eq_ok_iff {x : Except ε α} {f : ε → ε'} {a : α} :
    x.mapError f = .ok a ↔ x = .ok a := by
  cases x <;> simp [Except.mapError]

/-- What a check that is run shows of its result. -/
theorem exists_of_toOption_map {x : Except ε α} {f : α → β} {b : β}
    (h : x.toOption.map f = some b) : ∃ a, x = .ok a ∧ f a = b := by
  cases x with
  | error e => cases h
  | ok a => exact ⟨a, rfl, Option.some.inj h⟩

theorem mapM_eq_ok_iff {f : α → Except ε β} {xs : List α} {ys : List β} :
    xs.mapM f = .ok ys ↔ List.Forall₂ (fun x y => f x = .ok y) xs ys := by
  induction xs generalizing ys with
  | nil => cases ys <;> simp [pure, Except.pure]
  | cons x rest ih =>
      rw [List.mapM_cons, bind_eq_ok_iff]
      cases ys with
      | nil => simp [bind_eq_ok_iff, pure, Except.pure]
      | cons y ys =>
          simp only [bind_eq_ok_iff, ih, pure, Except.pure, Except.ok.injEq, List.cons.injEq,
            List.forall₂_cons]
          constructor
          · rintro ⟨b, hFirst, bs, hRest, rfl, rfl⟩
            exact ⟨hFirst, hRest⟩
          · rintro ⟨hFirst, hRest⟩
            exact ⟨y, hFirst, ys, hRest, rfl, rfl⟩

theorem mapM_isOk_iff {f : α → Except ε β} {xs : List α} :
    (∃ ys, xs.mapM f = .ok ys) ↔ ∀ x ∈ xs, ∃ y, f x = .ok y := by
  induction xs with
  | nil => simp [pure, Except.pure]
  | cons x rest ih =>
      rw [List.forall_mem_cons, ← ih]
      simp only [mapM_eq_ok_iff]
      constructor
      · rintro ⟨_, hAll⟩
        cases hAll with
        | cons hFirst hRest => exact ⟨⟨_, hFirst⟩, _, hRest⟩
      · rintro ⟨⟨y, hFirst⟩, ys, hRest⟩
        exact ⟨y :: ys, .cons hFirst hRest⟩

/-- Every result comes from an item. -/
theorem exists_of_mem_mapM {f : α → Except ε β} {xs : List α} {ys : List β}
    (h : xs.mapM f = .ok ys) {y : β} (hy : y ∈ ys) : ∃ x ∈ xs, f x = .ok y := by
  rw [mapM_eq_ok_iff] at h
  induction h with
  | nil => cases hy
  | @cons x _ _ _ hFirst _ ih =>
      rcases List.mem_cons.1 hy with rfl | hRest
      · exact ⟨x, by simp, hFirst⟩
      · obtain ⟨z, hz, hResult⟩ := ih hRest
        exact ⟨z, by simp [hz], hResult⟩

/-- Going through a list fails at the first item whose check fails. -/
theorem mapM_eq_error_iff {f : α → Except ε β} {xs : List α} {e : ε} :
    xs.mapM f = .error e ↔ ∃ before x after, xs = before ++ x :: after ∧
      (∀ y ∈ before, ∃ b, f y = .ok b) ∧ f x = .error e := by
  induction xs with
  | nil => simp [pure, Except.pure]
  | cons x rest ih =>
      rw [List.mapM_cons, bind_eq_error_iff]
      simp only [bind_eq_error_iff, ih, pure, Except.pure, reduceCtorEq, and_false, exists_false,
        or_false]
      constructor
      · rintro (hFirst | ⟨b, hFirst, before, y, after, rfl, hBefore, hError⟩)
        · exact ⟨[], x, rest, rfl, by simp, hFirst⟩
        · refine ⟨x :: before, y, after, rfl, ?_, hError⟩
          simpa using ⟨⟨b, hFirst⟩, hBefore⟩
      · rintro ⟨before, y, after, hSplit, hBefore, hError⟩
        cases before with
        | nil =>
            obtain ⟨rfl, rfl⟩ := List.cons.inj hSplit
            exact .inl hError
        | cons z before =>
            obtain ⟨rfl, rfl⟩ := List.cons.inj hSplit
            simp only [List.mem_cons, forall_eq_or_imp] at hBefore
            obtain ⟨b, hFirst⟩ := hBefore.1
            exact .inr ⟨b, hFirst, before, y, after, rfl, hBefore.2, hError⟩

/-- What every step keeps is kept by a run that succeeds. -/
theorem foldlM_keeps {f : σ → α → Except ε σ} (P : σ → Prop)
    (hStep : ∀ s x t, P s → f s x = .ok t → P t) {xs : List α} {s t : σ} (hs : P s)
    (h : xs.foldlM f s = .ok t) : P t := by
  induction xs generalizing s with
  | nil =>
      cases h
      exact hs
  | cons x rest ih =>
      rw [List.foldlM_cons, bind_eq_ok_iff] at h
      obtain ⟨middle, hFirst, hRest⟩ := h
      exact ih (hStep s x middle hs hFirst) hRest

/-- If it depends on the item alone whether a step succeeds, a run succeeds if all items allow it.
-/
theorem foldlM_isOk_iff {f : σ → α → Except ε σ} {P : α → Prop}
    (hStep : ∀ s x, (∃ t, f s x = .ok t) ↔ P x) (xs : List α) (s : σ) :
    (∃ t, xs.foldlM f s = .ok t) ↔ ∀ x ∈ xs, P x := by
  induction xs generalizing s with
  | nil => simp [pure, Except.pure]
  | cons x rest ih =>
      simp only [List.foldlM_cons, bind_eq_ok_iff, List.mem_cons, forall_eq_or_imp]
      constructor
      · rintro ⟨t, middle, hFirst, hRest⟩
        exact ⟨(hStep s x).1 ⟨middle, hFirst⟩, (ih middle).1 ⟨t, hRest⟩⟩
      · rintro ⟨hFirst, hRest⟩
        obtain ⟨middle, hMiddle⟩ := (hStep s x).2 hFirst
        obtain ⟨t, ht⟩ := (ih middle).2 hRest
        exact ⟨t, middle, hMiddle, ht⟩

/-- A run fails with the error of one of its steps. -/
theorem exists_of_foldlM_eq_error {f : σ → α → Except ε σ} {xs : List α} {s : σ} {e : ε}
    (h : xs.foldlM f s = .error e) : ∃ t, ∃ x ∈ xs, f t x = .error e := by
  induction xs generalizing s with
  | nil => cases h
  | cons x rest ih =>
      rw [List.foldlM_cons, bind_eq_error_iff] at h
      rcases h with hFirst | ⟨middle, -, hRest⟩
      · exact ⟨s, x, by simp, hFirst⟩
      · obtain ⟨t, y, hy, hError⟩ := ih hRest
        exact ⟨t, y, by simp [hy], hError⟩

end HotPath.Checks
