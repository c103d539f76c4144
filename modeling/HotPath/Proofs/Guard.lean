import HotPath.Proofs.FastState
import HotPath.Proofs.Scope.Declared
import Mathlib.Data.List.TakeWhile

/-! Guards. Whether a condition stands between a node and the function around it shows on the way up
from the node to that function: somewhere on the way a node guards the one right below it. So what
guards a node guards everything below the node as well, down to the functions inside. -/

namespace HotPath

namespace Cursor

variable {root c child : Cursor}

/-- A node runs one of its children on a condition. A conditional does so with all of them but its
condition, and an operator that may stop early with its right operand. -/
inductive Guards (c child : Cursor) : Prop
  | conditional (hKind : c.kind ∈ conditionalKinds)
      (hOther : c.field "condition" ≠ .ok (some child))
  | operand (hKind : c.kind = "binary_expression")
      (hOperator : ∃ operator ∈ shortCircuits, c.fieldText "operator" = .ok operator)
      (hRight : c.field "right" = .ok (some child))

/-- A node and the ancestors that it tells, up to the function around it. -/
def wayUp (c : Cursor) : List Cursor := c :: c.above.takeWhile (!·.isFunction)

theorem guards_conditional_iff (hKeys : root.DistinctKeys) (hFree : root.FaultFree)
    (hc : c ∈ root.preorder) (hChild : child ∈ root.preorder) (hKind : c.kind ∈ conditionalKinds) :
    c.guards child = .ok true ↔ c.Guards child := by
  have hOperator : c.kind ≠ "binary_expression" := by
    intro hSame
    rw [hSame] at hKind
    exact absurd hKind (by decide)
  have hSpec : c.Guards child ↔ c.field "condition" ≠ .ok (some child) := by
    constructor
    · rintro (⟨-, hOther⟩ | ⟨hSame, -, -⟩)
      · exact hOther
      · exact absurd hSame hOperator
    · exact .conditional hKind
  rw [hSpec, guards, if_pos (List.contains_iff_mem.2 hKind), hFree.field_eq hc "condition"]
  cases hCondition : c.fieldAt "condition" with
  | none => simp [bind, Except.bind, pure, Except.pure]
  | some condition =>
      have hMem := hFree.mem_of_fieldAt hc hCondition
      have hSame : condition.key = child.key ↔ condition = child :=
        ⟨hKeys.eq_of_key_eq hMem hChild, congrArg key⟩
      simp [bind, Except.bind, pure, Except.pure, hSame]

theorem guards_operand_iff (hKeys : root.DistinctKeys) (hFree : root.FaultFree)
    (hc : c ∈ root.preorder) (hChild : child ∈ root.preorder) (hKind : c.kind ∉ conditionalKinds) :
    c.guards child = .ok true ↔ c.Guards child := by
  have hSpec : c.Guards child ↔ c.kind = "binary_expression" ∧
      (∃ operator ∈ shortCircuits, c.fieldText "operator" = .ok operator) ∧
      c.field "right" = .ok (some child) := by
    constructor
    · rintro (⟨hOther, -⟩ | ⟨hBinary, hOperator, hRight⟩)
      · exact absurd hOther hKind
      · exact ⟨hBinary, hOperator, hRight⟩
    · exact fun ⟨hBinary, hOperator, hRight⟩ => .operand hBinary hOperator hRight
  rw [hSpec, guards, if_neg (mt List.contains_iff_mem.1 hKind)]
  by_cases hBinary : c.kind = "binary_expression"
  · rw [if_pos hBinary, hFree.fieldText_eq hc "operator", hFree.field_eq hc "right"]
    cases hRight : c.fieldAt "right" with
    | none => simp [bind, Except.bind, pure, Except.pure]
    | some right =>
        have hMem := hFree.mem_of_fieldAt hc hRight
        have hSame : right.key = child.key ↔ right = child :=
          ⟨hKeys.eq_of_key_eq hMem hChild, congrArg key⟩
        simp [bind, Except.bind, pure, Except.pure, hSame, hBinary]
  · simp [hBinary, pure, Except.pure]

/-- In a tree without faults and with distinct keys the check of a node is that it guards the
child. -/
theorem guards_iff (hKeys : root.DistinctKeys) (hFree : root.FaultFree) (hc : c ∈ root.preorder)
    (hChild : child ∈ root.preorder) : c.guards child = .ok true ↔ c.Guards child := by
  by_cases hKind : c.kind ∈ conditionalKinds
  · exact guards_conditional_iff hKeys hFree hc hChild hKind
  · exact guards_operand_iff hKeys hFree hc hChild hKind

/-- The search upward finds a guard if and only if one of the nodes on the way, up to the first
function, guards the one right below it. -/
theorem guardedUnder_iff (hKeys : root.DistinctKeys) (hFree : root.FaultFree) {nodes : List Cursor}
    (hNodes : ∀ a ∈ nodes, a ∈ root.preorder) (hChild : child ∈ root.preorder) :
    child.guardedUnder nodes = .ok true ↔
      ∃ i lower upper, (child :: nodes.takeWhile (!·.isFunction))[i]? = some lower ∧
        (child :: nodes.takeWhile (!·.isFunction))[i + 1]? = some upper ∧
        upper.Guards lower := by
  induction nodes generalizing child with
  | nil => simp [guardedUnder]
  | cons a above ih =>
      obtain ⟨ha, hAbove⟩ := List.forall_mem_cons.1 hNodes
      obtain ⟨guarded, hGuards⟩ := (ReadsFailOnly.guards hFree ha child).exists_ok
      have hHere := guards_iff hKeys hFree ha hChild
      rw [hGuards] at hHere
      cases hFunction : a.isFunction with
      | true => simp [guardedUnder, hFunction, pure, Except.pure]
      | false =>
          rw [List.takeWhile_cons_of_pos (by simp [hFunction]), guardedUnder, hFunction,
            if_neg Bool.false_ne_true, hGuards]
          cases guarded with
          | true =>
              refine ⟨fun _ => ⟨0, child, a, rfl, rfl, hHere.1 rfl⟩, fun _ => rfl⟩
          | false =>
              refine (ih hAbove ha).trans ?_
              constructor
              · rintro ⟨i, lower, upper, hLower, hUpper, hGuard⟩
                exact ⟨i + 1, lower, upper, hLower, hUpper, hGuard⟩
              · rintro ⟨i, lower, upper, hLower, hUpper, hGuard⟩
                cases i with
                | zero =>
                    cases hLower
                    cases hUpper
                    cases hHere.2 hGuard
                | succ i => exact ⟨i, lower, upper, hLower, hUpper, hGuard⟩

/-- What comes above an ancestor of a node are the ancestors of that ancestor. -/
theorem above_of_split {a : Cursor} {between rest : List Cursor}
    (h : c.above = between ++ a :: rest) : rest = a.above := by
  unfold above at h
  generalize c.info.tellsParent = told at h
  generalize c.ancestors = nodes at h
  fun_induction above.go told nodes generalizing between with
  | case1 n nodes ih =>
      cases between with
      | nil =>
          obtain ⟨rfl, rfl⟩ := List.cons.inj h
          rfl
      | cons _ between => exact ih (List.cons.inj h).2
  | case2 => simp at h

/-- The way up from a node goes through its ancestors, and on from them, up to the first one that is
a function. -/
theorem wayUp_of_split {a : Cursor} {between rest : List Cursor}
    (h : c.above = between ++ a :: rest) (hBetween : ∀ b ∈ between, b.isFunction = false)
    (ha : a.isFunction = false) : c.wayUp = c :: between ++ a.wayUp := by
  obtain rfl := above_of_split h
  unfold wayUp
  rw [h, List.takeWhile_append_of_pos (by simpa using hBetween),
    List.takeWhile_cons_of_pos (by simp [ha]), List.cons_append]

/-- In a whole tree without faults and with distinct keys, a node is guarded if and only if on the
way up to the function around it some node guards the one right below it. What is guarded and no
function keeps the guard for all nodes below it that no function separates from it. -/
theorem isGuarded_exact (tree : Node) (hKeys : (Cursor.root tree).DistinctKeys)
    (hFree : (Cursor.root tree).FaultFree) {n : Cursor} (hn : n ∈ (Cursor.root tree).preorder) :
    ∃ guarded, n.isGuarded = .ok guarded ∧
      (guarded = true ↔ ∃ i lower upper, n.wayUp[i]? = some lower ∧
        n.wayUp[i + 1]? = some upper ∧ upper.Guards lower) ∧
      (guarded = true → n.isFunction = false → ∀ m ∈ (Cursor.root tree).preorder,
        ∀ between rest, m.above = between ++ n :: rest →
          (∀ b ∈ between, b.isFunction = false) → m.isGuarded = .ok true) := by
  have hExact : ∀ m ∈ (Cursor.root tree).preorder, m.isGuarded = .ok true ↔
      ∃ i lower upper, m.wayUp[i]? = some lower ∧ m.wayUp[i + 1]? = some upper ∧
        upper.Guards lower := fun m hm =>
    guardedUnder_iff hKeys hFree (fun _ ha => mem_preorder_of_mem_above hm ha) hm
  obtain ⟨guarded, hGuarded⟩ := hFree.isGuarded hn
  have hn := hExact n hn
  rw [hGuarded, Except.ok.injEq] at hn
  refine ⟨guarded, hGuarded, hn, fun hTrue hFunction m hm between rest hAbove hBetween => ?_⟩
  -- The pair that guards the node is on the way up from below as well, further along.
  obtain ⟨i, lower, upper, hLower, hUpper, hGuard⟩ := hn.1 hTrue
  refine (hExact m hm).2 ⟨(m :: between).length + i, lower, upper, ?_, ?_, hGuard⟩
  · rw [wayUp_of_split hAbove hBetween hFunction, List.getElem?_append_right (by omega),
      Nat.add_sub_cancel_left]
    exact hLower
  · rw [wayUp_of_split hAbove hBetween hFunction, List.getElem?_append_right (by omega),
      Nat.add_assoc, Nat.add_sub_cancel_left]
    exact hUpper

end Cursor

open Node in
/-- Calls in and behind conditions, and one in a function that is handed on under a condition:
`() => { if (hit()) go(() => up(x)); on && set() }`. -/
def Node.callback : Node :=
  inner "arrow_function" "" 0 49 [
    inner "statement_block" "body" 6 49 [
      inner "if_statement" "" 8 35 [
        inner "parenthesized_expression" "condition" 11 18 [
          inner "call_expression" "" 12 17 [word "function" 12 15 (.text "hit")]],
        inner "expression_statement" "consequence" 19 35 [
          inner "call_expression" "" 19 34 [
            word "function" 19 21 (.text "go"),
            inner "arguments" "arguments" 21 34 [
              inner "arrow_function" "" 22 33 [
                inner "call_expression" "body" 28 33 [
                  word "function" 28 30 (.text "up"),
                  inner "arguments" "arguments" 30 33 [word "" 31 32 (.text "x")]]]]]]],
      inner "binary_expression" "" 36 47 [
        word "left" 36 38 (.text "on"),
        word "operator" 39 41 (.text "&&"),
        inner "call_expression" "right" 42 47 [word "function" 42 45 (.text "set")]]]]

/-- The condition runs in any case, and the inner function is on its own. The call of `go` is
guarded, and with it the function that is handed to it. -/
theorem Cursor.isGuarded_exact_callback :
    (root .callback).DistinctKeys ∧ (root .callback).FaultFree ∧
      ((root .callback).preorder.filter (·.isCall)).map (·.isGuarded.toOption) =
        [some false, some true, some false, some true] ∧
      ∃ n ∈ (root .callback).preorder, n.isFunction = false ∧ n.start = 19 ∧
        (∃ i lower upper, n.wayUp[i]? = some lower ∧ n.wayUp[i + 1]? = some upper ∧
          upper.Guards lower) ∧
        ∃ m ∈ (root .callback).preorder, m.isFunction = true ∧ n ∈ m.above ∧
          m.isGuarded = .ok true := by
  have hKeys : (root .callback).DistinctKeys := by decide +kernel
  have hFree : (root .callback).FaultFree := by decide +kernel
  have hFound : ∃ m ∈ (root .callback).preorder, m.isFunction = true ∧
      ∃ n ∈ m.above.takeWhile (!·.isFunction), n.isCall = true ∧ n.start = 19 ∧
        n.isGuarded.toOption = some true := by decide +kernel
  obtain ⟨m, hm, hFunction, n, hNear, hCall, hStart, hTrue⟩ := hFound
  have hAbove : n ∈ m.above := List.takeWhile_subset _ hNear
  have hn := mem_preorder_of_mem_above hm hAbove
  have hNone := isFunction_eq_false_of_isCall hCall
  obtain ⟨guarded, hGuarded, hWay, hBelow⟩ := isGuarded_exact .callback hKeys hFree hn
  rw [hGuarded] at hTrue
  obtain rfl : guarded = true := Option.some.inj hTrue
  obtain ⟨between, rest, hSplit⟩ := List.append_of_mem hNear
  have hPath : m.above = between ++ n :: (rest ++ m.above.dropWhile (!·.isFunction)) := by
    rw [← List.cons_append, ← List.append_assoc, ← hSplit, List.takeWhile_append_dropWhile]
  have hBetween : ∀ b ∈ between, b.isFunction = false := by
    intro b hb
    have hb : b ∈ m.above.takeWhile (!·.isFunction) := hSplit ▸ List.mem_append_left _ hb
    simpa using List.mem_takeWhile_imp hb
  exact ⟨hKeys, hFree, by decide +kernel, n, hn, hNone, hStart, hWay.1 rfl, m, hm, hFunction,
    hAbove, hBelow rfl hNone m hm between _ hPath hBetween⟩

end HotPath
