import HotPath.Proofs.Resolve

/-! Chains of aliases. From a name the way leads to the binding that the name has, and from an alias
to the binding of the name that it was copied from, seen from the scope of the alias. The search for
a function goes along this way and looks at a fixed number of bindings. It need not remember which
bindings it has met: a way that comes back to one of them meets no function. -/

namespace HotPath

namespace ScopeTable

variable {t : ScopeTable} {start : Option Binding} {b c : Binding} {i j k : Nat}

/-- The binding that an alias was copied from. What stands for a function leads no further. -/
def original? (t : ScopeTable) (b : Binding) : Option Binding :=
  if b.target?.isSome then none else b.aliasOf.bind fun other => t.resolve other b.scope false

/-- The binding that is the given number of links away from the start. -/
def linked? (t : ScopeTable) (start : Option Binding) : Nat → Option Binding
  | 0 => start
  | k + 1 => (t.linked? start k).bind t.original?

@[simp]
theorem linked?_zero : t.linked? start 0 = start := rfl

theorem linked?_succ : t.linked? start (k + 1) = (t.linked? start k).bind t.original? := rfl

theorem original?_of_target (h : b.target?.isSome) : t.original? b = none := by
  simp [original?, h]

@[simp]
theorem linked?_none : t.linked? none k = none := by
  induction k with
  | zero => rfl
  | succ k ih => rw [linked?_succ, ih, Option.bind_none]

theorem linked?_add : t.linked? start (i + j) = t.linked? (t.linked? start i) j := by
  induction j with
  | zero => rfl
  | succ j ih => rw [← Nat.add_assoc, linked?_succ, ih, linked?_succ]

/-- The first link can be taken off the way. -/
theorem linked?_succ_some : t.linked? (some b) (k + 1) = t.linked? (t.original? b) k := by
  rw [Nat.add_comm, linked?_add, linked?_succ, linked?_zero, Option.bind_some]

/-- A function is the end of the way. -/
theorem linked?_eq_none_of_target (hb : t.linked? start i = some b) (hTarget : b.target?.isSome)
    (hij : i < j) : t.linked? start j = none := by
  obtain ⟨d, rfl⟩ : ∃ d, j = i + (d + 1) := ⟨j - i - 1, by omega⟩
  rw [linked?_add, hb, linked?_succ_some, original?_of_target hTarget, linked?_none]

/-- So only aliases lie before a binding of the way. -/
theorem exists_linked?_of_lt (hb : t.linked? start j = some b) (hij : i < j) :
    ∃ c, t.linked? start i = some c ∧ c.target? = none := by
  cases hc : t.linked? start i with
  | none =>
      obtain ⟨d, rfl⟩ := Nat.exists_eq_add_of_lt hij
      rw [Nat.add_assoc, linked?_add, hc, linked?_none] at hb
      cases hb
  | some c =>
      refine ⟨c, rfl, Option.not_isSome_iff_eq_none.1 fun hTarget => ?_⟩
      rw [linked?_eq_none_of_target hc hTarget hij] at hb
      cases hb

/-- The way never ends once it has come back to a binding. -/
theorem exists_linked?_of_repeat (hij : i < j) (hi : t.linked? start i = some b)
    (hj : t.linked? start j = some b) (k : Nat) : ∃ m ≥ k, t.linked? start m = some b := by
  induction k with
  | zero => exact ⟨i, Nat.zero_le i, hi⟩
  | succ k ih =>
      -- From the binding at `m` it is `j - i` links to the same binding.
      obtain ⟨m, hkm, hm⟩ := ih
      refine ⟨m + (j - i), by omega, ?_⟩
      rw [linked?_add, hm, ← hi, ← linked?_add, show i + (j - i) = j by omega, hj, hi]

/-- A way that comes back to a binding meets no function. -/
theorem target?_eq_none_of_repeat (hij : i < j) (hi : t.linked? start i = some b)
    (hj : t.linked? start j = some b) (hc : t.linked? start k = some c) : c.target? = none := by
  obtain ⟨m, hkm, hm⟩ := exists_linked?_of_repeat hij hi hj (k + 1)
  obtain ⟨c', hc', hTarget⟩ := exists_linked?_of_lt hm hkm
  rw [hc] at hc'
  cases hc'
  exact hTarget

theorem followAliases_of_target {steps : Nat} (h : b.target?.isSome) :
    t.followAliases (steps + 1) (some b) = some b := by
  rw [followAliases, if_pos h]

theorem followAliases_of_alias {steps : Nat} (h : ¬b.target?.isSome) :
    t.followAliases (steps + 1) (some b) = t.followAliases steps (t.original? b) := by
  rw [followAliases, original?, if_neg h, if_neg h]
  cases b.aliasOf with
  | none => cases steps <;> rfl
  | some other => rfl

/-- The search finds the function that fewer links than its steps lead to. -/
theorem followAliases_eq_some_iff {steps : Nat} :
    t.followAliases steps start = some b ↔
      ∃ k < steps, t.linked? start k = some b ∧ b.target?.isSome := by
  induction steps generalizing start with
  | zero => simp [followAliases]
  | succ steps ih =>
      cases start with
      | none => simp [followAliases]
      | some first =>
          by_cases hTarget : first.target?.isSome
          · rw [followAliases_of_target hTarget]
            constructor
            · rintro ⟨⟩
              exact ⟨0, steps.succ_pos, rfl, hTarget⟩
            · rintro ⟨k, -, hb, -⟩
              cases k with
              | zero => exact hb
              | succ k =>
                  rw [linked?_succ_some, original?_of_target hTarget, linked?_none] at hb
                  cases hb
          · rw [followAliases_of_alias hTarget, ih]
            constructor
            · rintro ⟨k, hk, hb, hFound⟩
              exact ⟨k + 1, Nat.succ_lt_succ hk, linked?_succ_some.trans hb, hFound⟩
            · rintro ⟨k, hk, hb, hFound⟩
              cases k with
              | zero =>
                  cases hb
                  exact absurd hFound hTarget
              | succ k =>
                  exact ⟨k, Nat.lt_of_succ_lt_succ hk, linked?_succ_some.symm.trans hb, hFound⟩

theorem followAliases_eq_none_iff {steps : Nat} :
    t.followAliases steps start = none ↔
      ∀ k < steps, ∀ b, t.linked? start k = some b → b.target? = none := by
  rw [Option.eq_none_iff_forall_ne_some]
  constructor
  · intro h k hk b hb
    refine Option.not_isSome_iff_eq_none.1 fun hTarget => ?_
    exact h b (followAliases_eq_some_iff.2 ⟨k, hk, hb, hTarget⟩)
  · intro h b hb
    obtain ⟨k, hk, hLinked, hTarget⟩ := followAliases_eq_some_iff.1 hb
    rw [h k hk b hLinked] at hTarget
    cases hTarget

/-- The search as it would be if it remembered the bindings that it has met and gave up at one of
them. When two bindings are the same one is left open. -/
def followUnmet (t : ScopeTable) (same : Binding → Binding → Bool) :
    Nat → List Binding → Option Binding → Option Binding
  | 0, _, _ => none
  | _ + 1, _, none => none
  | steps + 1, met, some b =>
    if b.target?.isSome then some b
    else match b.aliasOf with
      | none => none
      | some other =>
        if met.any (same b) then none
        else t.followUnmet same steps (b :: met) (t.resolve other b.scope false)

/-- Remembering changes nothing. The bindings that have been met lie on the way before the present
one, so if it is one of them, the way runs in a circle and the search would find nothing anyway. -/
theorem followUnmet_eq_followAliases {same : Binding → Binding → Bool}
    (hSame : ∀ a b, same a b = true → a = b) {steps : Nat} {met : List Binding}
    {current : Option Binding} (hCurrent : t.linked? start k = current)
    (hMet : ∀ b ∈ met, ∃ i < k, t.linked? start i = some b) :
    t.followUnmet same steps met current = t.followAliases steps current := by
  induction steps generalizing met current k with
  | zero => rfl
  | succ steps ih =>
      cases current with
      | none => rfl
      | some b =>
          by_cases hTarget : b.target?.isSome
          · rw [followUnmet, if_pos hTarget, followAliases_of_target hTarget]
          · cases hAlias : b.aliasOf with
            | none => simp only [followUnmet, followAliases, hTarget, hAlias]
            | some other =>
                by_cases hAgain : met.any (same b) = true
                · obtain ⟨c, hc, hSameOne⟩ := List.any_eq_true.1 hAgain
                  obtain rfl := hSame b c hSameOne
                  obtain ⟨i, hik, hi⟩ := hMet b hc
                  have hNone : t.followAliases (steps + 1) (some b) = none := by
                    rw [followAliases_eq_none_iff]
                    intro j _ d hd
                    rw [← hCurrent, ← linked?_add] at hd
                    exact target?_eq_none_of_repeat hik hi hCurrent hd
                  simp only [followUnmet, hTarget, hAlias, hAgain, hNone]
                  rfl
                · simp only [followUnmet, followAliases, hTarget, hAlias, hAgain]
                  refine ih (k := k + 1) ?_ ?_
                  · simp [linked?_succ, hCurrent, original?, hTarget, hAlias]
                  · intro c hc
                    rcases List.mem_cons.1 hc with rfl | hc
                    · exact ⟨k, k.lt_succ_self, hCurrent⟩
                    · obtain ⟨i, hik, hi⟩ := hMet c hc
                      exact ⟨i, by omega, hi⟩

/-- A name stands for the function that its aliases lead to, whatever the scopes that they cross, if
the function is fewer links away than the number of bindings that are looked at. A function is the
first and the only one on the way. A name stands for none if its aliases lead to no function so
near, as is the case when they run in a circle. A search that remembers the bindings that it has met
gives the same. -/
theorem resolveFunction_along_aliases (t : ScopeTable) (name : String) (n : Nat) :
    let way := t.linked? (t.resolve name n false)
    (∀ b, t.resolveFunction name n = some b ↔
      ∃ k < maxAliasLinks, way k = some b ∧ b.target?.isSome) ∧
    (∀ k b, way k = some b → b.target?.isSome →
      (∀ i < k, ∃ c, way i = some c ∧ c.target? = none) ∧ ∀ j > k, way j = none) ∧
    (t.resolveFunction name n = none ↔
      ∀ k < maxAliasLinks, ∀ b, way k = some b → b.target? = none) ∧
    (∀ i j b, i < j → way i = some b → way j = some b →
      t.resolveFunction name n = none ∧ ∀ k c, way k = some c → c.target? = none) ∧
    ∀ same : Binding → Binding → Bool, (∀ a b, same a b = true → a = b) →
      t.followUnmet same maxAliasLinks [] (t.resolve name n false) = t.resolveFunction name n := by
  intro way
  refine ⟨fun b => followAliases_eq_some_iff, fun k b hb hTarget => ⟨?_, ?_⟩,
    followAliases_eq_none_iff, fun i j b hij hi hj => ?_, fun same hSame => ?_⟩
  · exact fun i hik => exists_linked?_of_lt hb hik
  · exact fun j hkj => linked?_eq_none_of_target hb hTarget hkj
  · have hCircle : ∀ k c, way k = some c → c.target? = none := fun k c hc =>
      target?_eq_none_of_repeat hij hi hj hc
    exact ⟨followAliases_eq_none_iff.2 fun k _ => hCircle k, hCircle⟩
  · exact followUnmet_eq_followAliases hSame (linked?_zero (t := t)) (by simp)

end ScopeTable

open Node in
/-- A function and eight names for it, each copied from the one before:
`function a() {} const b = a; const c = b;` and so on up to `const i = h;`. -/
def Cursor.copies : Cursor :=
  .root <| inner "program" "" 0 119 <|
    inner "function_declaration" "" 0 15 [
      word "name" 9 10 (.text "a"),
      inner "statement_block" "body" 13 15 []] ::
    [("b", "a"), ("c", "b"), ("d", "c"), ("e", "d"), ("f", "e"), ("g", "f"), ("h", "g"),
      ("i", "h")].mapIdx fun k (copy, original) =>
        let start := 16 + 13 * k
        inner "lexical_declaration" "" start (start + 12) [
          inner "variable_declarator" "" (start + 6) (start + 11) [
            word "name" (start + 6) (start + 7) (.text copy),
            word "value" (start + 10) (start + 11) (.text original)]]

/-- The function is found through seven links. It is not through eight, although as many are
allowed for. -/
theorem ScopeTable.resolveFunction_misses_eighth_link :
    let t := ((ScopeTable.build .copies).run ScopeTable.empty).state
    Cursor.copies.FaultFree ∧ Cursor.copies.DistinctKeys ∧ maxAliasLinks = 8 ∧
      (t.resolveFunction "h" rootScope).map (·.name) = some "a" ∧
      ((t.linked? (t.resolve "i" rootScope false) 8).any fun b =>
        b.name = "a" ∧ b.target?.isSome) = true ∧
      (t.resolveFunction "i" rootScope).isNone = true := by
  decide +kernel

end HotPath
