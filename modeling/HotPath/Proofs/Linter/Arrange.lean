import HotPath.Diagnostic
import Mathlib.Data.Prod.Lex
import Mathlib.Data.String.Basic
import Mathlib.Order.Compare

/-! The order of diagnostics. Sorting puts diagnostics in the order of their places and leaves those
that share a place as they were, and there is only one list of which that is true. So the order in
which diagnostics come in matters only where they share a place. -/

namespace HotPath.Diagnostic

/-- What a diagnostic is ordered by: file, line, column, rule and message. -/
def place (d : Diagnostic) : String ×ₗ Int ×ₗ Int ×ₗ String ×ₗ String :=
  toLex (d.filePath.getD "", toLex (d.range.line, toLex (d.range.column,
    toLex (d.ruleId, d.message))))

theorem ruleId_of_place_eq {a b : Diagnostic} (h : a.place = b.place) : a.ruleId = b.ruleId := by
  simp only [place, EmbeddingLike.apply_eq_iff_eq, Prod.mk.injEq] at h
  exact h.2.2.2.1

theorem isLE_then (x y : Ordering) :
    (x.then y).isLE = true ↔ x = .lt ∨ (x = .eq ∧ y.isLE = true) := by
  cases x <;> simp

/-- Diagnostics are compared by their places. -/
theorem precedes_iff (a b : Diagnostic) : precedes a b = true ↔ a.place ≤ b.place := by
  simp only [precedes, order, place, isLE_then, compare_lt_iff_lt, compare_eq_iff_eq,
    Prod.Lex.toLex_le_toLex]
  simp only [← compare_le_iff_le, Ordering.isLE_iff_ne_gt]

theorem precedes_trans (a b c : Diagnostic) (hab : precedes a b = true)
    (hbc : precedes b c = true) : precedes a c = true := by
  rw [precedes_iff] at hab hbc ⊢
  exact hab.trans hbc

theorem precedes_total (a b : Diagnostic) : (precedes a b || precedes b a) = true := by
  simp only [Bool.or_eq_true, precedes_iff]
  exact le_total _ _

/-- A list holds the diagnostics of another one in order, those of one place as they were. -/
structure Arranged (ds arranged : List Diagnostic) : Prop where
  perm : arranged.Perm ds
  ordered : arranged.Pairwise fun a b => a.place ≤ b.place
  ties : ∀ k, arranged.filter (·.place = k) = ds.filter (·.place = k)

theorem arranged_sorted (ds : List Diagnostic) : Arranged ds (sorted ds) := by
  have hPerm : (sorted ds).Perm ds := List.mergeSort_perm ds precedes
  constructor
  case perm => exact hPerm
  case ordered =>
    exact (List.pairwise_mergeSort precedes_trans precedes_total ds).imp (precedes_iff _ _).1
  case ties =>
    intro k
    have hSame : (ds.filter (·.place = k)).Pairwise fun a b => precedes a b = true := by
      apply List.pairwise_of_forall_mem_list
      intro a ha b hb
      simp only [List.mem_filter, decide_eq_true_eq] at ha hb
      rw [precedes_iff, ha.2, hb.2]
    have hSub := (List.sublist_mergeSort precedes_trans precedes_total hSame
      List.filter_sublist).filter (·.place = k)
    rw [List.filter_filter] at hSub
    simp only [Bool.and_self] at hSub
    exact (hSub.eq_of_length (hPerm.filter _).length_eq.symm).symm

/-- Lists in order are equal if they have the same diagnostics at each place. -/
theorem eq_of_ordered {xs ys : List Diagnostic} (hxs : xs.Pairwise fun a b => a.place ≤ b.place)
    (hys : ys.Pairwise fun a b => a.place ≤ b.place)
    (hTies : ∀ k, xs.filter (·.place = k) = ys.filter (·.place = k)) : xs = ys := by
  induction xs generalizing ys with
  | nil =>
      cases ys with
      | nil => rfl
      | cons y ys => simpa using hTies y.place
  | cons x xs ih =>
      cases ys with
      | nil => simpa using hTies x.place
      | cons y ys =>
          rw [List.pairwise_cons] at hxs hys
          have hMem : ∀ d, d ∈ x :: xs ↔ d ∈ y :: ys := by
            intro d
            have := congrArg (d ∈ ·) (hTies d.place)
            simpa using this
          -- Each head is the least of its list, so they share a place and are the same.
          have hPlace : x.place = y.place := by
            apply le_antisymm
            · rcases List.mem_cons.1 ((hMem y).2 List.mem_cons_self) with rfl | hy
              · exact le_refl _
              · exact hxs.1 y hy
            · rcases List.mem_cons.1 ((hMem x).1 List.mem_cons_self) with rfl | hx
              · exact le_refl _
              · exact hys.1 x hx
          have hHead := hTies x.place
          simp only [List.filter_cons, hPlace, decide_true, if_true, List.cons.injEq] at hHead
          obtain rfl := hHead.1
          congr 1
          apply ih hxs.2 hys.2
          intro k
          have hk := hTies k
          simp only [List.filter_cons] at hk
          split at hk
          · exact (List.cons.inj hk).2
          · exact hk

/-- There is one arrangement, and it depends only on the diagnostics at each place. -/
theorem Arranged.unique {ds ds' xs ys : List Diagnostic} (hxs : Arranged ds xs)
    (hys : Arranged ds' ys)
    (hTies : ∀ k, ds.filter (·.place = k) = ds'.filter (·.place = k)) : xs = ys := by
  apply eq_of_ordered hxs.ordered hys.ordered
  intro k
  rw [hxs.ties, hys.ties, hTies]

/-- Leaving diagnostics out before or after arranging is the same. -/
theorem Arranged.filter {ds xs : List Diagnostic} (h : Arranged ds xs) (p : Diagnostic → Bool) :
    Arranged (ds.filter p) (xs.filter p) := by
  constructor
  case perm => exact h.perm.filter p
  case ordered => exact h.ordered.sublist List.filter_sublist
  case ties =>
    intro k
    rw [List.filter_comm, h.ties k, List.filter_comm]

/-- Parts may be sorted before they are put together. -/
theorem arranged_flatten_sorted (parts : List (List Diagnostic)) :
    Arranged (parts.map sorted).flatten (sorted parts.flatten) := by
  have hAll := arranged_sorted parts.flatten
  constructor
  case perm =>
    apply hAll.perm.trans
    induction parts with
    | nil => exact List.Perm.nil
    | cons ds rest ih => exact (arranged_sorted ds).perm.symm.append (ih (arranged_sorted _))
  case ordered => exact hAll.ordered
  case ties =>
    intro k
    rw [hAll.ties, List.filter_flatten, List.filter_flatten, List.map_map]
    congr 2
    funext ds
    exact ((arranged_sorted ds).ties k).symm

end HotPath.Diagnostic
