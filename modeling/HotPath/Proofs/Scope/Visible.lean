import HotPath.Proofs.Scope.Recorded

/-! Which binding a name refers to. Each scope of a built table knows the last declaration of every
name in it, so looking a name up along the chain of a node finds the innermost scope around the node
that has one, and the last declaration there, wherever in the text it stands. -/

namespace HotPath

namespace ScopeTable

variable {t : ScopeTable}

/-- The last of the declarations of a name in a scope. -/
def lastDeclared? (t : ScopeTable) (i : Nat) (name : String) : Option Binding :=
  (t.bindings.filter fun x => x.scope = i && x.name = name).getLast?

/-- The scopes of a table point to the last declarations of their names. -/
structure Indexed (t : ScopeTable) : Prop where
  number : ∀ k x, t.binding? k = some x → x.number = k
  scope : ∀ x ∈ t.bindings, x.scope < t.scopes.length
  names : ∀ i s, t.scope? i = some s →
    ∀ name, s.names.get? name = (t.lastDeclared? i name).map (·.number)

theorem lastDeclared?_declare (t : ScopeTable) (n : Nat) (d : Declaration) (i : Nat)
    (name : String) :
    (t.declare n d).lastDeclared? i name =
      if n = i ∧ d.name = name then some { d with number := t.bindings.length, scope := n }
      else t.lastDeclared? i name := by
  unfold lastDeclared? declare
  rw [List.filter_append]
  by_cases hSame : n = i ∧ d.name = name
  · rw [if_pos hSame, List.filter_cons_of_pos (by simp [hSame]), List.filter_nil,
      List.getLast?_concat]
  · rw [if_neg hSame, List.filter_cons_of_neg (by simpa using hSame), List.filter_nil,
      List.append_nil]

namespace Indexed

theorem lastDeclared?_of_length_le (h : t.Indexed) {i : Nat} (hi : t.scopes.length ≤ i)
    (name : String) : t.lastDeclared? i name = none := by
  unfold lastDeclared?
  rw [List.getLast?_eq_none_iff, List.filter_eq_nil_iff]
  intro x hx hSame
  have := h.scope x hx
  simp only [Bool.and_eq_true, decide_eq_true_eq] at hSame
  omega

/-- A new scope declares nothing yet. -/
theorem addScope (h : t.Indexed) (kind : ScopeKind) (node : Cursor) (outer : List Nat) :
    (t.addScope kind node outer).Indexed where
  number := h.number
  scope := by
    intro x hx
    have := h.scope x hx
    simp only [ScopeTable.addScope, List.length_append]
    omega
  names := by
    intro i s hs name
    change _ = (t.lastDeclared? i name).map _
    change (t.scopes ++ [_])[i]? = some s at hs
    rcases Nat.lt_or_ge i t.scopes.length with hi | hi
    · rw [List.getElem?_append_left hi] at hs
      exact h.names i s hs name
    · rw [h.lastDeclared?_of_length_le hi]
      rw [List.getElem?_append_right hi] at hs
      obtain rfl := List.mem_singleton.1 (List.mem_of_getElem? hs)
      rfl

/-- A declaration in a scope takes the place of an earlier one of the same name there. -/
theorem declare (h : t.Indexed) {n : Nat} (hn : n < t.scopes.length) (d : Declaration) :
    (t.declare n d).Indexed where
  number := by
    intro k x hx
    change (t.bindings ++ [_])[k]? = some x at hx
    rcases Nat.lt_or_ge k t.bindings.length with hk | hk
    · rw [List.getElem?_append_left hk] at hx
      exact h.number k x hx
    · rw [List.getElem?_append_right hk] at hx
      have hLast := (List.getElem?_eq_some_iff.1 hx).1
      obtain rfl := List.mem_singleton.1 (List.mem_of_getElem? hx)
      simp only [List.length_singleton] at hLast
      simp only
      omega
  scope := by
    intro x hx
    rw [ScopeTable.declare, List.length_modify]
    rcases List.mem_append.1 hx with hx | hx
    · exact h.scope x hx
    · obtain rfl := List.mem_singleton.1 hx
      exact hn
  names := by
    intro i s hs name
    rw [lastDeclared?_declare]
    change (t.scopes.modify n _)[i]? = some s at hs
    rw [List.getElem?_modify] at hs
    obtain ⟨s', hs', rfl⟩ := Option.map_eq_some_iff.1 hs
    have hOld := h.names i s' hs' name
    by_cases hi : n = i
    · simp only [hi, if_true, true_and, OrderedMap.get?_insert]
      by_cases hName : d.name = name
      · simp [hName]
      · simp [hName, Ne.symm hName, hOld]
    · simp [hi, hOld]

theorem localBinding?_eq (h : t.Indexed) (i : Nat) (name : String) :
    t.localBinding? i name = t.lastDeclared? i name := by
  unfold localBinding?
  cases hScope : t.scope? i with
  | none => exact (h.lastDeclared?_of_length_le (List.getElem?_eq_none_iff.1 hScope) name).symm
  | some s =>
      change ((s.names.get? name).bind t.binding?) = _
      rw [h.names i s hScope name]
      cases hLast : t.lastDeclared? i name with
      | none => rfl
      | some x =>
          have hMem := (List.mem_filter.1 (List.mem_of_getLast? hLast)).1
          obtain ⟨k, hk⟩ := List.mem_iff_getElem?.1 hMem
          change t.binding? x.number = some x
          rw [h.number k x hk]
          exact hk

end Indexed

/-- A scope tells nothing about a name if it does not declare it or its last declaration is a
method. -/
def Silent (t : ScopeTable) (name : String) (i : Nat) : Prop :=
  ∀ x, t.lastDeclared? i name = some x → x.kind.isMethod = true

theorem scope_of_lastDeclared? {i : Nat} {name : String} {x : Binding}
    (h : t.lastDeclared? i name = some x) : x ∈ t.bindings ∧ x.scope = i := by
  obtain ⟨hMem, hSame⟩ := List.mem_filter.1 (List.mem_of_getLast? h)
  rw [Bool.and_eq_true, decide_eq_true_eq] at hSame
  exact ⟨hMem, hSame.1⟩

theorem filter_lastDeclared?_eq_none_iff {name : String} {i : Nat} :
    (t.lastDeclared? i name).filter (fun x => !x.kind.isMethod) = none ↔ t.Silent name i := by
  simp [Silent, Option.filter_eq_none_iff]

namespace Indexed

/-- A name refers to the last declaration in the innermost scope that tells about it. -/
theorem resolve_eq_some_iff (h : t.Indexed) {name : String} {n : Nat} {x : Binding} :
    t.resolve name n false = some x ↔ ∃ inner outer,
      t.chain n = inner ++ x.scope :: outer ∧ t.lastDeclared? x.scope name = some x ∧
        x.kind.isMethod = false ∧ ∀ i ∈ inner, t.Silent name i := by
  simp only [resolve, h.localBinding?_eq, List.findSome?_eq_some_iff,
    filter_lastDeclared?_eq_none_iff, Option.filter_eq_some_iff, Bool.false_or,
    Bool.not_eq_true']
  constructor
  · rintro ⟨inner, i, outer, hChain, ⟨hLast, hMethod⟩, hInner⟩
    obtain ⟨-, rfl⟩ := scope_of_lastDeclared? hLast
    exact ⟨inner, outer, hChain, hLast, hMethod, hInner⟩
  · rintro ⟨inner, outer, hChain, hLast, hMethod, hInner⟩
    exact ⟨inner, x.scope, outer, hChain, ⟨hLast, hMethod⟩, hInner⟩

theorem resolve_eq_none_iff (h : t.Indexed) {name : String} {n : Nat} :
    t.resolve name n false = none ↔ ∀ i ∈ t.chain n, t.Silent name i := by
  simp only [resolve, h.localBinding?_eq, List.findSome?_eq_none_iff, Bool.false_or,
    filter_lastDeclared?_eq_none_iff]

end Indexed

/-! The walk keeps a table indexed. -/

variable {b : ScopeBuilder} {root c : Cursor}

theorem indexed_declareAll {n : Nat} (ds : List Declaration) (h : b.table.Indexed)
    (hn : n < b.table.scopes.length) : (b.declareAll n ds).table.Indexed := by
  induction ds generalizing b with
  | nil => exact h
  | cons d rest ih =>
      change ((b.declare n d).declareAll n rest).table.Indexed
      unfold ScopeBuilder.declare
      split
      · exact ih h hn
      · apply ih (h.declare hn d)
        rw [ScopeTable.declare, List.length_modify]
        exact hn

theorem lt_of_nearest? {kinds : List ScopeKind} {i j : Nat} (h : t.nearest? kinds i = some j) :
    j < t.scopes.length := by
  have hAny := List.find?_some h
  cases hs : t.scope? j with
  | none => simp [hs] at hAny
  | some s => exact (List.getElem?_eq_some_iff.1 hs).1

theorem home_lt (hTop : b.top < b.table.scopes.length) (c : Cursor) :
    b.home c < b.table.scopes.length := by
  unfold ScopeBuilder.home
  split
  · cases hNearest : b.table.nearest? [.function, .program] b.top with
    | none => exact hTop
    | some j => exact lt_of_nearest? hNearest
  · exact hTop

theorem indexed_entered (h : b.table.Indexed) (hTop : b.top < b.table.scopes.length)
    (c : Cursor) : (b.entered c).table.Indexed := by
  have hOuter := indexed_declareAll (c.outerDeclarations (b.topKind? = some .classBody)) h
    (home_lt hTop c)
  unfold ScopeBuilder.entered
  cases c.opens? with
  | none => exact hOuter
  | some kind =>
      apply indexed_declareAll _ (hOuter.addScope kind c _)
      simp [ScopeBuilder.push, addScope]

theorem indexed_after (hFree : root.FaultFree) {es : List Event}
    (hes : ∀ e ∈ es, e.cursor ∈ root.preorder) : (ScopeBuilder.after root es).table.Indexed := by
  induction es using List.reverseRecOn with
  | nil =>
      have hEmpty : ScopeTable.empty.Indexed := by
        constructor
        · rintro k x ⟨⟩
        · rintro x ⟨⟩
        · rintro i s ⟨⟩
      exact hEmpty.addScope .program root []
  | append_singleton es e ih =>
      have hBefore : ∀ e' ∈ es, e'.cursor ∈ root.preorder :=
        fun e' he' => hes e' (List.mem_append_left [e] he')
      have hIndexed := ih hBefore
      have hShape := (ScopeBuilder.after_spec (hFree.reads _) hBefore).2.1
      have hRange : (ScopeBuilder.after root es).shape.InRange := by
        rw [hShape]
        exact (Shape.InRange.start root).walk es
      have hTop := hRange.stack _ List.mem_cons_self
      rw [ScopeStep.after_concat hFree hes]
      obtain ⟨phase, c⟩ := e
      cases phase with
      | enter =>
          have hEntered := indexed_entered hIndexed (by simpa [ScopeBuilder.shape] using hTop) c
          exact ⟨hEntered.number, hEntered.scope, hEntered.names⟩
      | leave =>
          simp only [ScopeBuilder.step]
          split
          · rw [ScopeBuilder.table_pop]
            exact hIndexed
          · exact hIndexed

/-- In a tree without faults the table has the declarations of the text in order, each in the scope
of the node that it belongs to. A name refers to the last declaration in the innermost scope around
a node that tells about it, before or after the node, and it refers to nothing if there is no such
scope. So no binding is seen outside the node whose scope it belongs to. -/
theorem build_resolves (root : Cursor) (hKeys : root.DistinctKeys) (hFree : root.FaultFree) :
    ∃ t, (build root).Yields empty () t ∧
      List.Forall₂ t.Records (root.preorder.flatMap (·.declarations root)) t.bindings ∧
      ∀ n ∈ root.preorder,
        List.Forall₂ t.OpenedBy (t.chain (t.scopeFor n)) (Cursor.owners (n.outward root)) ∧
        ∀ name,
          (∀ x, t.resolve name (t.scopeFor n) false = some x ↔ ∃ inner outer,
            t.chain (t.scopeFor n) = inner ++ x.scope :: outer ∧
              t.lastDeclared? x.scope name = some x ∧ x.kind.isMethod = false ∧
              ∀ i ∈ inner, t.Silent name i) ∧
          (t.resolve name (t.scopeFor n) false = none ↔
            ∀ i ∈ t.chain (t.scopeFor n), t.Silent name i) ∧
          ∀ x, t.resolve name (t.scopeFor n) false = some x →
            x ∈ t.bindings ∧ ∃ s, t.scope? x.scope = some s ∧ n ∈ s.node.preorder := by
  have hReads := hFree.reads fun fault => fault.absorbed = true
  obtain ⟨hOk, hState⟩ := build_spec hReads
  have hLexical := (finished_build hKeys hReads).lexical hKeys
  have hIndexed := indexed_after hFree fun _ => Cursor.mem_preorder_of_mem_events (c := root)
  have hRecords := records_after hKeys hFree (List.append_nil root.events).symm
  rw [Cursor.filterMap_entered?_events] at hRecords
  refine ⟨_, ⟨hOk, hState⟩, hRecords, fun n hn => ?_⟩
  have hChain := hLexical.chain_owners hn (hLexical.placed n hn)
  refine ⟨hChain, fun name => ⟨fun x => hIndexed.resolve_eq_some_iff,
    hIndexed.resolve_eq_none_iff, fun x hx => ?_⟩⟩
  obtain ⟨inner, outer, hSplit, hLast, -⟩ := hIndexed.resolve_eq_some_iff.1 hx
  refine ⟨(scope_of_lastDeclared? hLast).1, hLexical.exists_scope_around hn ?_⟩
  rw [hSplit]
  exact List.mem_append_right inner List.mem_cons_self

end ScopeTable

open Node in
/-- A name that is hidden, passed over and used before its declaration:
`let v; class C { v() { v } } { v; let v; }`. -/
def Cursor.shadowed : Cursor :=
  .root <| inner "program" "" 0 42 [
    inner "lexical_declaration" "" 0 6 [
      inner "variable_declarator" "" 4 5 [word "name" 4 5 (.text "v")]],
    inner "class_declaration" "" 7 28 [
      word "name" 13 14 (.text "C"),
      inner "class_body" "body" 15 28 [
        inner "method_definition" "" 17 26 [
          word "name" 17 18 (.text "v"),
          inner "statement_block" "body" 21 26 [word "" 23 24 (.text "v")]]]],
    inner "statement_block" "" 29 42 [
      word "" 31 32 (.text "v"),
      inner "lexical_declaration" "" 34 40 [
        inner "variable_declarator" "" 38 39 [word "name" 38 39 (.text "v")]]]]

/-- The body of the method sees the first `v`, past the method of that name, and the block sees the
`v` that it declares further on. -/
theorem ScopeTable.build_resolves_shadowed :
    Cursor.shadowed.DistinctKeys ∧ Cursor.shadowed.FaultFree ∧
      ∃ t, (build .shadowed).Yields empty () t ∧ t.bindings.length = 4 ∧
        (((Cursor.shadowed.preorder.filter fun n => [23, 31].contains n.info.start).map fun n =>
          (t.resolve "v" (t.scopeFor n) false).map (·.number)) = [some 0, some 3]) ∧
        ∀ n ∈ Cursor.shadowed.preorder, ∀ x, t.resolve "v" (t.scopeFor n) false = some x →
          t.lastDeclared? x.scope "v" = some x ∧ x.kind.isMethod = false ∧
            ∃ s, t.scope? x.scope = some s ∧ n ∈ s.node.preorder := by
  have hKeys : Cursor.shadowed.DistinctKeys := by decide +kernel
  have hFree : Cursor.shadowed.FaultFree := by decide +kernel
  obtain ⟨t, hBuild, hRecords, hNodes⟩ := build_resolves .shadowed hKeys hFree
  refine ⟨hKeys, hFree, t, hBuild, ?_, ?_, fun n hn x hx => ?_⟩
  · rw [← hRecords.length_eq]
    decide +kernel
  · rw [← hBuild.state]
    decide +kernel
  · obtain ⟨-, hNames⟩ := hNodes n hn
    obtain ⟨hFound, -, hSeen⟩ := hNames "v"
    obtain ⟨inner, outer, -, hLast, hMethod, -⟩ := (hFound x).1 hx
    exact ⟨hLast, hMethod, (hSeen x hx).2⟩

end HotPath
