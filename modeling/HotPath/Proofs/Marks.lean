import HotPath.Heat.Mark
import HotPath.Proofs.OrderedMap
import Mathlib.Data.Prod.Lex
import Mathlib.Data.String.Basic
import Mathlib.Order.Lattice

/-! Mark tables. Marking changes one key at most and never raises a depth, and the marks come out
in the strict order of the text whatever the order in which they were made. -/

namespace HotPath

/-- Strict order of the text: by start, then outer nodes before inner ones, then by kind. -/
def Cursor.Before (a b : Cursor) : Prop :=
  a.start < b.start ∨ (a.start = b.start ∧
    (b.stop < a.stop ∨ (a.stop = b.stop ∧ a.kind < b.kind)))

namespace MarkTable

/-- The place of a mark in the order of the text. -/
def rank (m : Mark) : ℕ ×ₗ ℕᵒᵈ ×ₗ String :=
  toLex (m.node.start, toLex (OrderDual.toDual m.node.stop, m.node.kind))

theorem rank_lt_iff (a b : Mark) : rank a < rank b ↔ a.node.Before b.node := by
  simp only [rank, Prod.Lex.toLex_lt_toLex, OrderDual.toDual_lt_toDual, OrderDual.toDual_inj,
    Cursor.Before]

/-- Marks are compared by their places in the text. -/
theorem precedes_iff (a b : Mark) : precedes a b = true ↔ rank a ≤ rank b := by
  rw [← not_lt, rank_lt_iff]
  unfold precedes Cursor.Before
  simp only [Bool.or_eq_true, Bool.and_eq_true, decide_eq_true_eq, beq_iff_eq, Bool.not_eq_true',
    decide_eq_false_iff_not]
  by_cases hKind : b.node.kind < a.node.kind
  · simp only [hKind, not_true_eq_false, and_false, and_true, or_false]
    omega
  · simp only [hKind, not_false_eq_true, and_false, and_true, or_false]
    omega

/-- Marks in one place are marks of one key. -/
theorem key_eq_of_rank_eq {a b : Mark} (h : rank a = rank b) : a.node.key = b.node.key := by
  simp only [rank, EmbeddingLike.apply_eq_iff_eq, Prod.mk.injEq] at h
  obtain ⟨hStart, hStop, hKind⟩ := h
  have hStop' : a.node.info.stop = b.node.info.stop := hStop
  have hStart' : a.node.info.start = b.node.info.start := hStart
  have hKind' : a.node.info.kind = b.node.info.kind := hKind
  unfold Cursor.key Node.key
  change (⟨a.node.info.kind, a.node.info.start, a.node.info.stop⟩ : Key) =
    ⟨b.node.info.kind, b.node.info.start, b.node.info.stop⟩
  rw [hStop', hStart', hKind']

/-- Marks stand under the keys of their nodes, one for each key. -/
structure Keyed (t : MarkTable) : Prop where
  distinct : t.Distinct
  key_eq : ∀ {k m}, t.get? k = some m → m.node.key = k

theorem keyed_empty : Keyed {} :=
  ⟨OrderedMap.distinct_empty, fun h => by cases h⟩

theorem get?_mark (t : MarkTable) (c : Cursor) (depth : Int) (region k : Key) :
    (t.mark c depth region).get? k =
      if k = c.key ∧ t.improves c depth = true then some ⟨c, depth, region⟩ else t.get? k := by
  unfold mark
  split
  · next h => rw [OrderedMap.get?_insert]; simp [h]
  · next h => simp [h]

/-- A mark improves on nothing and on larger depths. -/
theorem improves_iff (t : MarkTable) (c : Cursor) (depth : Int) :
    t.improves c depth = true ↔ ∀ m, t.get? c.key = some m → depth < m.depth := by
  unfold improves
  cases h : t.get? c.key with
  | none => simp
  | some m => simp

theorem Keyed.mark {t : MarkTable} (h : t.Keyed) (c : Cursor) (depth : Int) (region : Key) :
    (t.mark c depth region).Keyed := by
  constructor
  · unfold MarkTable.mark
    split
    · exact h.distinct.insert _ _
    · exact h.distinct
  · intro k m hk
    rw [get?_mark] at hk
    split at hk
    · next hSame =>
        cases hk
        exact hSame.1.symm
    · exact h.key_eq hk

/-- A key has a mark at the given depth or a smaller one. -/
def Within (t : MarkTable) (k : Key) (depth : Int) : Prop :=
  ∃ m, t.get? k = some m ∧ m.depth ≤ depth

theorem Within.mono {t : MarkTable} {k : Key} {depth depth' : Int} (h : t.Within k depth)
    (hLe : depth ≤ depth') : t.Within k depth' := by
  obtain ⟨m, hm, hDepth⟩ := h
  exact ⟨m, hm, hDepth.trans hLe⟩

theorem within_mark (t : MarkTable) (c : Cursor) (depth : Int) (region : Key) :
    (t.mark c depth region).Within c.key depth := by
  unfold Within
  rw [get?_mark]
  by_cases h : t.improves c depth = true
  · exact ⟨⟨c, depth, region⟩, by simp [h], Int.le_refl _⟩
  · have hOld := mt (t.improves_iff c depth).2 h
    push Not at hOld
    obtain ⟨m, hm, hDepth⟩ := hOld
    exact ⟨m, by simp [h, hm], hDepth⟩

/-- Marking never takes a mark away and never raises a depth. -/
theorem Within.mark {t : MarkTable} {k : Key} {depth : Int} (h : t.Within k depth)
    (c : Cursor) (depth' : Int) (region : Key) : (t.mark c depth' region).Within k depth := by
  obtain ⟨m, hm, hDepth⟩ := h
  unfold Within
  rw [get?_mark]
  split
  · next hSame =>
      obtain ⟨rfl, hImproves⟩ := hSame
      have := (t.improves_iff c depth').1 hImproves m hm
      exact ⟨_, rfl, by simp only; omega⟩
  · exact ⟨m, hm, hDepth⟩

/-- Mark several nodes at one depth, from left to right. -/
def markAll (t : MarkTable) (cs : List Cursor) (depth : Int) (region : Key) : MarkTable :=
  cs.foldl (fun t c => t.mark c depth region) t

theorem Keyed.markAll {t : MarkTable} (h : t.Keyed) (cs : List Cursor) (depth : Int)
    (region : Key) : (t.markAll cs depth region).Keyed := by
  induction cs generalizing t with
  | nil => exact h
  | cons c rest ih => exact ih (h.mark c depth region)

theorem Within.markAll {t : MarkTable} {k : Key} {depth : Int} (h : t.Within k depth)
    (cs : List Cursor) (depth' : Int) (region : Key) :
    (t.markAll cs depth' region).Within k depth := by
  induction cs generalizing t with
  | nil => exact h
  | cons c rest ih => exact ih (h.mark c depth' region)

/-- Every node of the list ends up at the given depth or a smaller one. -/
theorem within_markAll (t : MarkTable) {cs : List Cursor} {c : Cursor} (hc : c ∈ cs)
    (depth : Int) (region : Key) : (t.markAll cs depth region).Within c.key depth := by
  induction cs generalizing t with
  | nil => cases hc
  | cons first rest ih =>
      rcases List.mem_cons.1 hc with rfl | hc
      · exact (within_mark t c depth region).markAll rest depth region
      · exact ih _ hc

/-- Every mark was there before or is a new one of a node of the list, at a smaller depth than the
mark that it replaces. -/
theorem get?_markAll {t : MarkTable} {cs : List Cursor} {depth : Int} {region k : Key} {m : Mark}
    (h : (t.markAll cs depth region).get? k = some m) :
    t.get? k = some m ∨
      (∃ c ∈ cs, c.key = k ∧ m = ⟨c, depth, region⟩) ∧
        ∀ old, t.get? k = some old → depth < old.depth := by
  induction cs generalizing t with
  | nil => exact .inl h
  | cons c rest ih =>
      rcases ih h with hMark | ⟨⟨d, hd, hKey, rfl⟩, hSmaller⟩
      · rw [get?_mark] at hMark
        split at hMark
        · next hSame =>
            cases hMark
            obtain ⟨rfl, hImproves⟩ := hSame
            exact .inr ⟨⟨c, List.mem_cons_self, rfl, rfl⟩, (t.improves_iff c depth).1 hImproves⟩
        · exact .inl hMark
      · refine .inr ⟨⟨d, List.mem_cons_of_mem c hd, hKey, rfl⟩, ?_⟩
        intro old hOld
        obtain ⟨m, hm, hLe⟩ := Within.mark ⟨old, hOld, Int.le_refl _⟩ c depth region
        exact (hSmaller m hm).trans_le hLe

theorem mem_inOrder_iff {t : MarkTable} (h : t.Keyed) {m : Mark} :
    m ∈ t.inOrder ↔ t.get? m.node.key = some m := by
  rw [inOrder, List.mem_mergeSort, h.distinct.mem_values_iff]
  constructor
  · rintro ⟨k, hk⟩
    rw [h.key_eq hk]
    exact hk
  · exact fun hm => ⟨_, hm⟩

theorem Keyed.nodup_values {t : MarkTable} (h : t.Keyed) : t.values.Nodup := by
  have hPairs : t.entries.Nodup := List.Nodup.of_map Prod.fst h.distinct
  refine hPairs.map_on ?_
  rintro ⟨k, m⟩ hm ⟨k', m'⟩ hm' rfl
  have hKey := h.key_eq (h.distinct.mem_entries_iff.1 hm)
  have hKey' := h.key_eq (h.distinct.mem_entries_iff.1 hm')
  rw [← hKey, ← hKey']

theorem Keyed.nodup_inOrder {t : MarkTable} (h : t.Keyed) : t.inOrder.Nodup :=
  (List.mergeSort_perm t.values precedes).nodup_iff.2 h.nodup_values

/-- The marks come out in strict order: no two of them share a place in the text. -/
theorem Keyed.pairwise_inOrder {t : MarkTable} (h : t.Keyed) :
    t.inOrder.Pairwise fun a b => a.node.Before b.node := by
  have hSorted : t.inOrder.Pairwise fun a b => precedes a b = true := by
    apply List.pairwise_mergeSort
    · intro a b c hab hbc
      rw [precedes_iff] at hab hbc ⊢
      exact hab.trans hbc
    · intro a b
      rw [Bool.or_eq_true, precedes_iff, precedes_iff]
      exact le_total _ _
  refine (hSorted.and h.nodup_inOrder).imp_of_mem ?_
  rintro a b ha hb ⟨hab, hne⟩
  rw [← rank_lt_iff, lt_iff_le_and_ne]
  refine ⟨(precedes_iff a b).1 hab, fun hRank => hne ?_⟩
  have hA := (mem_inOrder_iff h).1 ha
  rw [key_eq_of_rank_eq hRank, (mem_inOrder_iff h).1 hb] at hA
  exact (Option.some.inj hA).symm

end MarkTable

end HotPath
