import HotPath.Proofs.Marks

/-! Mark tables and their histories. A table that starts empty holds, for each key, the first of the
marks of least depth that were made for it, and its marks come out in the order of their keys,
whatever the order in which they were made. -/

namespace HotPath

namespace Key

/-- Strict order of the text on keys: by start, then outer ones before inner ones, then by kind. -/
def Before (a b : Key) : Prop :=
  a.start < b.start ∨ (a.start = b.start ∧
    (b.stop < a.stop ∨ (a.stop = b.stop ∧ a.kind < b.kind)))

/-- The place of a key in the order of the text. -/
def place (k : Key) : ℤ ×ₗ ℤᵒᵈ ×ₗ String :=
  toLex (k.start, toLex (OrderDual.toDual k.stop, k.kind))

theorem place_lt_iff (a b : Key) : a.place < b.place ↔ a.Before b := by
  simp only [place, Prod.Lex.toLex_lt_toLex, OrderDual.toDual_lt_toDual, OrderDual.toDual_inj,
    Before]

theorem place_injective : Function.Injective place := by
  rintro ⟨kind, start, stop⟩ ⟨kind', start', stop'⟩ h
  simp only [place, EmbeddingLike.apply_eq_iff_eq, Prod.mk.injEq] at h
  obtain ⟨rfl, rfl, rfl⟩ := h
  rfl

/-- The order is strict, and any two keys can be compared. -/
instance : IsStrictTotalOrder Key Before where
  irrefl a := by
    rw [← place_lt_iff]
    exact lt_irrefl _
  trans a b c := by
    simp only [← place_lt_iff]
    exact lt_trans
  trichotomous a b := by
    simp only [← place_lt_iff, not_lt]
    exact fun hba hab => place_injective (le_antisymm hab hba)

end Key

/-- Nodes are ordered as their keys are. -/
theorem Cursor.before_iff_key (a b : Cursor) : a.Before b ↔ a.key.Before b.key := by
  change _ ↔ (a.start : Int) < b.start ∨ ((a.start : Int) = b.start ∧
    ((b.stop : Int) < a.stop ∨ ((a.stop : Int) = b.stop ∧ a.kind < b.kind)))
  rw [Before]
  norm_cast

namespace MarkTable

/-- The table after marks were made one after the other, from an empty one. -/
def marked (calls : List Mark) : MarkTable :=
  calls.foldl (fun t m => t.mark m.node m.depth m.region) {}

theorem marked_concat (calls : List Mark) (m : Mark) :
    marked (calls ++ [m]) = (marked calls).mark m.node m.depth m.region := by
  simp [marked]

theorem keyed_marked (calls : List Mark) : (marked calls).Keyed := by
  induction calls using List.reverseRecOn with
  | nil => exact keyed_empty
  | append_singleton calls m ih =>
      rw [marked_concat]
      exact ih.mark m.node m.depth m.region

/-- A mark is the first one of least depth among those made for a key. -/
structure FirstLeast (calls : List Mark) (k : Key) (m : Mark) : Prop where
  key_eq : m.node.key = k
  first : ∃ before later, calls = before ++ m :: later ∧
    (∀ x ∈ before, x.node.key = k → m.depth < x.depth) ∧
    ∀ x ∈ later, x.node.key = k → m.depth ≤ x.depth

namespace FirstLeast

variable {calls : List Mark} {k : Key} {m m' : Mark}

theorem mem (h : FirstLeast calls k m) : m ∈ calls := by
  obtain ⟨before, later, rfl, -, -⟩ := h.first
  simp

theorem le (h : FirstLeast calls k m) {x : Mark} (hx : x ∈ calls) (hKey : x.node.key = k) :
    m.depth ≤ x.depth := by
  obtain ⟨before, later, rfl, hBefore, hLater⟩ := h.first
  rcases List.mem_append.1 hx with hx | hx
  · exact (hBefore x hx hKey).le
  · rcases List.mem_cons.1 hx with rfl | hx
    · exact le_rfl
    · exact hLater x hx hKey

/-- There is one such mark at most. -/
theorem unique (h : FirstLeast calls k m) (h' : FirstLeast calls k m') : m = m' := by
  have hLe := h.le h'.mem h'.key_eq
  have hLe' := h'.le h.mem h.key_eq
  obtain ⟨before, later, hCalls, hBefore, -⟩ := h.first
  obtain ⟨before', later', hCalls', hBefore', -⟩ := h'.first
  -- If one of them came earlier, the depth of the other one would be smaller.
  rcases List.append_eq_append_iff.1 (hCalls.symm.trans hCalls') with
    ⟨between, rfl, hSplit⟩ | ⟨between, rfl, hSplit⟩
  · cases between with
    | nil => exact (List.cons.inj hSplit).1
    | cons y rest =>
        obtain ⟨rfl, -⟩ := List.cons.inj hSplit
        have := hBefore' m (by simp) h.key_eq
        omega
  · cases between with
    | nil => exact (List.cons.inj hSplit).1.symm
    | cons y rest =>
        obtain ⟨rfl, -⟩ := List.cons.inj hSplit
        have := hBefore m' (by simp) h'.key_eq
        omega

/-- It stays the first one unless one of smaller depth is made for the key. -/
theorem concat (h : FirstLeast calls k m) {x : Mark}
    (hLe : x.node.key = k → m.depth ≤ x.depth) : FirstLeast (calls ++ [x]) k m := by
  obtain ⟨before, later, rfl, hBefore, hLater⟩ := h.first
  refine ⟨h.key_eq, before, later ++ [x], by simp, hBefore, ?_⟩
  intro y hy hKey
  rcases List.mem_append.1 hy with hy | hy
  · exact hLater y hy hKey
  · cases List.mem_singleton.1 hy
    exact hLe hKey

end FirstLeast

theorem get?_marked_concat (calls : List Mark) (m : Mark) (k : Key) :
    (marked (calls ++ [m])).get? k =
      if k = m.node.key ∧ (marked calls).improves m.node m.depth = true then some m
      else (marked calls).get? k := by
  rw [marked_concat, get?_mark]

/-- What was never marked has no mark. -/
theorem get?_marked_eq_none_iff (calls : List Mark) (k : Key) :
    (marked calls).get? k = none ↔ ∀ x ∈ calls, x.node.key ≠ k := by
  induction calls using List.reverseRecOn with
  | nil => exact iff_of_true rfl fun _ h => by cases h
  | append_singleton calls m ih =>
      rw [get?_marked_concat]
      by_cases hKey : k = m.node.key
      · subst hKey
        have hMarked : ¬ ∀ x ∈ calls ++ [m], x.node.key ≠ m.node.key :=
          fun h => h m (by simp) rfl
        refine iff_of_false ?_ hMarked
        split
        · simp
        · next hStays =>
            intro hNone
            refine hStays ⟨rfl, ((marked calls).improves_iff m.node m.depth).2 ?_⟩
            simp [hNone]
      · simp [hKey, ih, or_imp, forall_and, Ne.symm hKey]

theorem exists_get?_marked {calls : List Mark} {x : Mark} (hx : x ∈ calls) :
    ∃ m, (marked calls).get? x.node.key = some m := by
  rw [← Option.ne_none_iff_exists']
  exact fun hNone => (get?_marked_eq_none_iff calls x.node.key).1 hNone x hx rfl

/-- If a table holds first marks of least depth, a mark improves on it exactly if its depth is
smaller than those of all marks for its key. -/
theorem improves_iff_of_firstLeast {calls : List Mark}
    (h : ∀ k m, (marked calls).get? k = some m → FirstLeast calls k m) (c : Cursor) (depth : Int) :
    (marked calls).improves c depth = true ↔
      ∀ x ∈ calls, x.node.key = c.key → depth < x.depth := by
  rw [improves_iff]
  constructor
  · intro hImproves x hx hKey
    obtain ⟨m, hm⟩ := exists_get?_marked hx
    rw [hKey] at hm
    exact (hImproves m hm).trans_le ((h c.key m hm).le hx hKey)
  · intro hLess m hm
    exact hLess m (h c.key m hm).mem (h c.key m hm).key_eq

/-- What a table holds for a key is the first mark of least depth that was made for it. -/
theorem firstLeast_of_get? {calls : List Mark} {k : Key} {m : Mark}
    (h : (marked calls).get? k = some m) : FirstLeast calls k m := by
  induction calls using List.reverseRecOn generalizing k m with
  | nil => cases h
  | append_singleton calls x ih =>
      rw [get?_marked_concat] at h
      split at h
      · next hNew =>
          obtain ⟨rfl, hImproves⟩ := hNew
          cases h
          rw [improves_iff_of_firstLeast fun _ _ => ih] at hImproves
          exact ⟨rfl, calls, [], rfl, hImproves, by simp⟩
      · next hOld =>
          refine (ih h).concat fun hKey => ?_
          by_contra hLess
          refine hOld ⟨hKey.symm, ((marked calls).improves_iff x.node x.depth).2 ?_⟩
          intro old hold
          rw [hKey, h] at hold
          cases hold
          omega

theorem get?_marked_eq_some_iff {calls : List Mark} {k : Key} {m : Mark} :
    (marked calls).get? k = some m ↔ FirstLeast calls k m := by
  refine ⟨firstLeast_of_get?, fun h => ?_⟩
  obtain ⟨m', hm'⟩ := exists_get?_marked h.mem
  rw [h.key_eq] at hm'
  rw [hm', h.unique (firstLeast_of_get? hm')]

theorem mem_inOrder_marked_iff {calls : List Mark} {m : Mark} :
    m ∈ (marked calls).inOrder ↔ FirstLeast calls m.node.key m := by
  rw [mem_inOrder_iff (keyed_marked calls), get?_marked_eq_some_iff]

theorem exists_mem_inOrder_marked {calls : List Mark} {x : Mark} (hx : x ∈ calls) :
    ∃ m ∈ (marked calls).inOrder, m.node.key = x.node.key := by
  obtain ⟨m, hm⟩ := exists_get?_marked hx
  have hKey := (firstLeast_of_get? hm).key_eq
  rw [← hKey] at hm
  exact ⟨m, (mem_inOrder_iff (keyed_marked calls)).2 hm, hKey⟩

/-- Every key that was marked comes out. -/
theorem mem_keys_inOrder_iff {calls : List Mark} {k : Key} :
    k ∈ (marked calls).inOrder.map (·.node.key) ↔ ∃ x ∈ calls, x.node.key = k := by
  rw [List.mem_map]
  constructor
  · rintro ⟨m, hm, hKey⟩
    exact ⟨m, (mem_inOrder_marked_iff.1 hm).mem, hKey⟩
  · rintro ⟨x, hx, rfl⟩
    exact exists_mem_inOrder_marked hx

/-- It comes out with the least of the depths that were given for it. -/
theorem mem_depths_inOrder_iff {calls : List Mark} {k : Key} {depth : Int} :
    (k, depth) ∈ (marked calls).inOrder.map (fun m => (m.node.key, m.depth)) ↔
      (∃ x ∈ calls, x.node.key = k ∧ x.depth = depth) ∧
        ∀ x ∈ calls, x.node.key = k → depth ≤ x.depth := by
  simp only [List.mem_map, Prod.mk.injEq]
  constructor
  · rintro ⟨m, hm, rfl, rfl⟩
    have hFirst := mem_inOrder_marked_iff.1 hm
    exact ⟨⟨m, hFirst.mem, rfl, rfl⟩, fun x => hFirst.le⟩
  · rintro ⟨⟨x, hx, rfl, rfl⟩, hLeast⟩
    obtain ⟨m, hm, hKey⟩ := exists_mem_inOrder_marked hx
    have hFirst := mem_inOrder_marked_iff.1 hm
    exact ⟨m, hm, hKey, le_antisymm (hFirst.le hx hKey.symm) (hLeast m hFirst.mem hKey)⟩

/-- The keys come out in the order of the text. -/
theorem pairwise_keys_inOrder (calls : List Mark) :
    ((marked calls).inOrder.map (·.node.key)).Pairwise Key.Before := by
  rw [List.pairwise_map]
  exact (keyed_marked calls).pairwise_inOrder.imp fun {a b} => (a.node.before_iff_key b.node).1

/-- The order in which marks are made does not show in the keys and depths that come out. -/
theorem inOrder_marked_of_perm {calls calls' : List Mark} (h : calls'.Perm calls) :
    (marked calls').inOrder.map (fun m => (m.node.key, m.depth)) =
      (marked calls).inOrder.map (fun m => (m.node.key, m.depth)) := by
  have hStrict : ∀ calls, ((marked calls).inOrder.map fun m => (m.node.key, m.depth)).Pairwise
      fun p q => p.1.Before q.1 := by
    intro calls
    exact List.pairwise_map.2 (List.pairwise_map.1 (pairwise_keys_inOrder calls))
  have hNodup : ∀ calls, ((marked calls).inOrder.map fun m => (m.node.key, m.depth)).Nodup := by
    intro calls
    refine (hStrict calls).imp ?_
    rintro p _ hBefore rfl
    exact irrefl _ hBefore
  have hSame := (List.perm_ext_iff_of_nodup (hNodup calls') (hNodup calls)).2 fun (k, depth) => by
    simp only [mem_depths_inOrder_iff, h.mem_iff]
  refine hSame.eq_of_pairwise ?_ (hStrict calls') (hStrict calls)
  intro p q _ _ hpq hqp
  exact (asymm hpq hqp).elim

/-- A table holds the first minimum of its history. It has a mark for a key exactly if one was made,
namely the first one of least depth. Marking says that something changed exactly if the depth is
smaller than at all earlier marks for the key. The marks come out with every key once, in strict
order of the text, and the order in which they were made does not show in the keys and depths. -/
theorem marked_exact (calls : List Mark) :
    (∀ k, (marked calls).get? k = none ↔ ∀ x ∈ calls, x.node.key ≠ k) ∧
      (∀ k m, (marked calls).get? k = some m ↔ FirstLeast calls k m) ∧
      (∀ before call later, calls = before ++ call :: later →
        ((marked before).improves call.node call.depth = true ↔
          ∀ x ∈ before, x.node.key = call.node.key → call.depth < x.depth)) ∧
      (∀ m, m ∈ (marked calls).inOrder ↔ (marked calls).get? m.node.key = some m) ∧
      (∀ k, k ∈ (marked calls).inOrder.map (·.node.key) ↔ ∃ x ∈ calls, x.node.key = k) ∧
      ((marked calls).inOrder.map (·.node.key)).Nodup ∧
      ((marked calls).inOrder.map (·.node.key)).Pairwise Key.Before ∧
      ∀ calls', calls'.Perm calls →
        (marked calls').inOrder.map (fun m => (m.node.key, m.depth)) =
          (marked calls).inOrder.map (fun m => (m.node.key, m.depth)) := by
  refine ⟨get?_marked_eq_none_iff calls, fun k m => get?_marked_eq_some_iff, ?_,
    fun m => mem_inOrder_iff (keyed_marked calls), fun k => mem_keys_inOrder_iff,
    (pairwise_keys_inOrder calls).nodup, pairwise_keys_inOrder calls,
    fun calls' => inOrder_marked_of_perm⟩
  rintro before call later rfl
  exact improves_iff_of_firstLeast (fun _ _ => firstLeast_of_get?) call.node call.depth

end MarkTable

end HotPath
