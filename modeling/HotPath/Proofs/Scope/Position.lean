import HotPath.Proofs.Pattern
import HotPath.Proofs.Scope.Made
import HotPath.Rule.StateSetter
import Mathlib.Data.List.Chain

/-! Positions of names. Patterns are taken apart from the outside in, and a position is handed down
to the names. Seen from a name, it is the position in the innermost array pattern around the name,
whatever lies in between. So a name that stands right in an array pattern has its place there as its
position, and a name deeper inside may have the position of a second element without being one. -/

namespace HotPath

namespace Cursor

variable {root c d n pattern : Cursor} {index : Option Nat}

/-- The position of the first of some nodes in the innermost array pattern among the others. The
nodes are listed from the inside out. -/
def arrayPosition? : List Cursor → Option Nat
  | inner :: outer :: rest =>
    if outer.kind = "array_pattern" then some (outer.positionOf inner)
    else arrayPosition? (outer :: rest)
  | _ => none

/-- One more node around the others tells the position if it is the first array pattern. -/
theorem arrayPosition?_concat (l : List Cursor) (d c : Cursor) :
    arrayPosition? (l ++ [d, c]) = (arrayPosition? (l ++ [d])).or
      (if c.kind = "array_pattern" then some (c.positionOf d) else none) := by
  induction l with
  | nil => simp [arrayPosition?]
  | cons a l ih =>
      cases l with
      | nil => by_cases hArray : d.kind = "array_pattern" <;> simp [arrayPosition?, hArray]
      | cons b l =>
          simp only [List.cons_append, arrayPosition?] at ih ⊢
          split
          · rfl
          · exact ih

/-- The nodes around a node up to a child of a node go on with that node. -/
theorem exists_outward_eq (hd : d ∈ c.children) (hn : n ∈ d.preorder) :
    ∃ l, n.outward d = l ++ [d] ∧ n.outward c = l ++ [d, c] := by
  refine preorder_induction
    (P := fun n => ∃ l, n.outward d = l ++ [d] ∧ n.outward c = l ++ [d, c]) ?_
    (fun m hm ih e he => ?_) hn
  · refine ⟨[], outward_self d, ?_⟩
    rw [outward_of_mem_children c.mem_preorder_self hd, outward_self]
    rfl
  · obtain ⟨l, hInner, hOuter⟩ := ih
    have hMem := mem_preorder_trans hm (mem_preorder_of_mem_children hd)
    refine ⟨e :: l, ?_, ?_⟩
    · rw [outward_of_mem_children hm he, hInner, List.cons_append]
    · rw [outward_of_mem_children hMem he, hOuter, List.cons_append]

/-- A name that a pattern binds is a name of the tree below it. The nodes from the name to the
pattern are each a part of the next one, and they tell the position. -/
structure Binds (c : Cursor) (index : Option Nat) (p : PatternName) : Prop where
  mem : p.node ∈ c.preorder
  text : p.node.text = .ok p.name
  parts : (p.node.outward c).IsChain PartOf
  position : p.index = (arrayPosition? (p.node.outward c)).or index

theorem binds_of_mem_boundNames (hKeys : c.DistinctKeys) {p : PatternName}
    (hp : p ∈ (c.boundNames index).names) : c.Binds index p := by
  induction c using children_induction generalizing index with
  | h c ih =>
      rcases mem_boundNames_cases hp with ⟨-, hText, hNode, hIndex⟩ | ⟨parts, d, i, hParts, hd, hp⟩
      · rw [← hNode] at hText ⊢
        refine ⟨mem_preorder_self _, hText, ?_, ?_⟩
        · rw [outward_self]
          exact List.isChain_singleton _
        · rw [outward_self]
          exact hIndex
      · have hChild : d ∈ c.children := mem_children_of_mem_subPatterns hParts hd
        have hMem := mem_preorder_of_mem_children hChild
        have hInner := ih d hChild (hKeys.of_mem hMem) hp
        obtain ⟨l, hBelow, hAbove⟩ := exists_outward_eq hChild hInner.mem
        refine ⟨mem_preorder_trans hInner.mem hMem, hInner.text, ?_, ?_⟩
        · rw [hAbove, List.isChain_append_cons_cons, ← hBelow]
          exact ⟨hInner.parts, ⟨index, parts, i, hParts, hd⟩, List.isChain_singleton c⟩
        · rw [hInner.position, index_of_mem_subPatterns hKeys hParts hd, hAbove,
            arrayPosition?_concat, ← hBelow, Option.or_assoc]
          split <;> simp

/-- A node is the second element of an array pattern, or it is that element with a default. -/
structure IsSecond (pattern n : Cursor) : Prop where
  array : pattern.kind = "array_pattern"
  element : ∃ e ∈ pattern.children, e.info.countsAsNamed = true ∧ pattern.positionOf e = 1 ∧
    (e = n ∨ e.kind = "assignment_pattern" ∧ e.field "left" = .ok (some n))

/-- Nothing but a default lies between a node and a pattern around it. -/
def StandsIn (n pattern : Cursor) : Prop :=
  n.outward pattern = [n, pattern] ∨
    ∃ d, d.kind = "assignment_pattern" ∧ n.outward pattern = [n, d, pattern]

theorem IsSecond.standsIn (h : pattern.IsSecond n) :
    n.StandsIn pattern ∧ arrayPosition? (n.outward pattern) = some 1 := by
  obtain ⟨e, he, -, hPosition, hElement⟩ := h.element
  have hOuter : e.outward pattern = [e, pattern] := by
    rw [outward_of_mem_children pattern.mem_preorder_self he, outward_self]
  rcases hElement with rfl | ⟨hKind, hLeft⟩
  · rw [StandsIn, hOuter]
    exact ⟨.inl rfl, by simp [arrayPosition?, h.array, hPosition]⟩
  · have hInner : n.outward pattern = [n, e, pattern] := by
      rw [outward_of_mem_children (mem_preorder_of_mem_children he) (mem_children_of_field hLeft),
        hOuter]
    rw [StandsIn, hInner]
    exact ⟨.inr ⟨e, hKind, rfl⟩, by simp [arrayPosition?, h.array, hKind, hPosition]⟩

/-- A part of an array pattern is one of its elements. -/
theorem PartOf.of_array (h : PartOf d c) (hKeys : c.DistinctKeys)
    (hKind : c.kind = "array_pattern") : d ∈ c.children ∧ d.info.countsAsNamed = true := by
  obtain ⟨index, parts, i, hParts, hd⟩ := h
  rw [subPatterns_of_array hKind] at hParts
  cases hParts
  obtain ⟨hChild, -, hNamed, -⟩ := (mem_elements_iff hKeys.nodup_children).1 hd
  exact ⟨hChild, hNamed⟩

/-- The part of a pattern with a default is what stands on the left. -/
theorem PartOf.of_default (h : PartOf d c) (hKind : c.kind = "assignment_pattern") :
    c.field "left" = .ok (some d) := by
  obtain ⟨index, parts, i, hParts, hd⟩ := h
  rw [subPatterns_of_default hKind] at hParts
  cases hField : c.field "left" with
  | error fault =>
      rw [hField] at hParts
      cases hParts
  | ok found =>
      rw [hField] at hParts
      cases hParts
      obtain ⟨e, he, hSame⟩ := List.mem_map.1 hd
      obtain ⟨rfl, -⟩ := Prod.mk.inj hSame
      rw [Option.mem_toList.1 he]

/-- A bound name is the second element of the pattern if and only if it has that position and stands
right in the pattern. -/
theorem Binds.isSecond_iff {p : PatternName} (h : pattern.Binds none p)
    (hKeys : pattern.DistinctKeys) :
    pattern.IsSecond p.node ↔ p.index = some 1 ∧ p.node.StandsIn pattern := by
  have hParts := h.parts
  rw [h.position, Option.or_none]
  constructor
  · exact fun hSecond => ⟨hSecond.standsIn.2, hSecond.standsIn.1⟩
  · rintro ⟨hPosition, hDirect | ⟨d, hKind, hDirect⟩⟩
    · rw [hDirect] at hPosition hParts
      obtain ⟨hArray, hOne⟩ : pattern.kind = "array_pattern" ∧ pattern.positionOf p.node = 1 := by
        simpa [arrayPosition?] using hPosition
      obtain ⟨hChild, hNamed⟩ := (List.isChain_pair.1 hParts).of_array hKeys hArray
      exact ⟨hArray, p.node, hChild, hNamed, hOne, .inl rfl⟩
    · rw [hDirect] at hPosition hParts
      obtain ⟨hInner, hOuter⟩ := List.isChain_cons_cons.1 hParts
      obtain ⟨hArray, hOne⟩ : pattern.kind = "array_pattern" ∧ pattern.positionOf d = 1 := by
        simpa [arrayPosition?, hKind] using hPosition
      obtain ⟨hChild, hNamed⟩ := (List.isChain_pair.1 hOuter).of_array hKeys hArray
      exact ⟨hArray, d, hChild, hNamed, hOne, .inr ⟨hKind, hInner.of_default hKind⟩⟩

/-- Without faults a second element is bound. -/
theorem IsSecond.exists_mem_boundNames (h : pattern.IsSecond n) (hKeys : root.DistinctKeys)
    (hFree : root.FaultFree) (hPattern : pattern ∈ root.preorder) (hName : n.isPatternName = true)
    {name : String} (hText : n.text = .ok name) :
    ∃ p ∈ (pattern.boundNames none).names, p.node = n ∧ p.name = name := by
  have hComma : ∀ {kind : String}, kind ∈ ["identifier", "shorthand_property_identifier_pattern",
      "assignment_pattern"] → kind ≠ "," := by decide
  have hApart : pattern.isPatternName = false := by simp [isPatternName, h.array]
  obtain ⟨e, he, hNamed, -, hElement⟩ := h.element
  -- A comma is never an element, also where it counts as named.
  have hKind : e.kind ≠ "," := by
    rcases hElement with rfl | ⟨hKind, -⟩
    · apply hComma
      simpa [isPatternName, or_assoc] using Or.inl hName
    · exact hComma (by simp [hKind])
  have hMem : (e, some (0 + commasBefore e pattern.children)) ∈ elements 0 pattern.children :=
    (mem_elements_iff (hKeys.of_mem hPattern).nodup_children).2 ⟨he, hKind, hNamed, rfl⟩
  refine ⟨⟨name, n, some (0 + commasBefore e pattern.children)⟩,
    hFree.mem_boundNames hPattern hApart (subPatterns_of_array h.array none) hMem ?_, rfl, rfl⟩
  rcases hElement with rfl | ⟨hKind, hField⟩
  · rw [boundNames_of_name hName hText]
    exact List.mem_cons_self
  · have hInner : e.subPatterns (some (0 + commasBefore e pattern.children)) =
        .ok [(n, some (0 + commasBefore e pattern.children))] := by
      rw [subPatterns_of_default hKind, hField]
      rfl
    refine hFree.mem_boundNames (mem_preorder_trans (mem_preorder_of_mem_children he) hPattern)
      (by simp [isPatternName, hKind]) hInner List.mem_cons_self ?_
    rw [boundNames_of_name hName hText]
    exact List.mem_cons_self

/-- A declarator that takes apart what the call of a hook gives: `const [state, set] = hook()`. -/
structure TakesApart (c pattern : Cursor) (hook : String) : Prop where
  declarator : c.kind = "variable_declarator"
  name : c.field "name" = .ok (some pattern)
  apart : pattern.isPatternName = false
  value : ∃ v, c.field "value" = .ok (some v) ∧ v.isCall = true ∧ v.calleeName = .ok (some hook)

/-- It declares the names of its pattern, with the hook that they come from. -/
theorem TakesApart.declarations_eq {hook : String} (h : c.TakesApart pattern hook) (root : Cursor) :
    c.declarations root = ((pattern.patternDeclarations .value (some hook)).map
      (c.home? root, ·)).filter fun p => !p.2.name.isEmpty := by
  obtain ⟨v, hValue, hCall, hName⟩ := h.value
  have hKind : pattern.kind ≠ "identifier" := by
    intro hKind
    have hApart := h.apart
    simp [isPatternName, hKind] at hApart
  have hHook : initCallee? (some v) = some hook := by
    rw [initCallee?, Option.filter_some, if_pos hCall, Option.bind_some, calledName?, hName]
    rfl
  rw [declarations_of_declarator h.declarator, declaratorDeclarations, fieldAt_of_field h.name]
  simp only [if_neg hKind, fieldAt_of_field hValue, hHook]

end Cursor

open Cursor

/-- A call of a bound name sets state if and only if the binding is a setter. -/
theorem RuleOptions.setterName_of_resolved (o : RuleOptions) {t : ScopeTable} {call callee : Cursor}
    {name : String} {b : Binding} (hCall : call.isCall = true)
    (hCallee : call.callee = .ok (some callee)) (hText : callee.text = .ok name)
    (hResolved : t.resolveIdentifier callee = .ok (some b)) :
    o.setterName t call = .ok (if b.isSetter o.stateHooks.texts name then some name else none) := by
  have hKind : callee.kind = "identifier" := by
    unfold ScopeTable.resolveIdentifier at hResolved
    split at hResolved
    · assumption
    · cases hResolved
  simp [setterName, hCall, hCallee, hKind, hText, hResolved, bind, Except.bind, pure, Except.pure]

namespace ScopeTable

variable {root c pattern : Cursor} {hook : String}

/-- What is known of a name that is taken out of the result of a hook. Its position is that in the
innermost array pattern around it. It is the second element of the result if and only if it has that
position and stands right in the pattern of the declarator. It is taken for a setter if and only if
it has the position, wherever it stands. -/
structure Positioned (t : ScopeTable) (pattern : Cursor) (hook : String) (x : Binding) : Prop where
  mem : x ∈ t.bindings
  position : x.patternIndex = arrayPosition? (x.node.outward pattern)
  second_iff : pattern.IsSecond x.node ↔ x.patternIndex = some 1 ∧ x.node.StandsIn pattern
  setter : ∀ (o : RuleOptions) (call callee : Cursor) (name : String), hook ∈ o.stateHooks.texts →
    call.isCall = true → call.callee = .ok (some callee) → callee.text = .ok name →
    t.resolveIdentifier callee = .ok (some x) →
    o.setterName t call = .ok (if x.patternIndex = some 1 then some name else none)

/-- The second element of what a hook gives is bound with its position. -/
theorem exists_makes_of_isSecond (hKeys : root.DistinctKeys) (hFree : root.FaultFree)
    (hc : c ∈ root.preorder) (hApart : c.TakesApart pattern hook) {n : Cursor} {name : String}
    (hSecond : pattern.IsSecond n) (hName : n.isPatternName = true) (hText : n.text = .ok name)
    (hNonempty : name ≠ "") :
    ∃ x, ScopeBuilder.Makes root c x ∧ x.node = n ∧ x.name = name ∧ x.patternIndex = some 1 := by
  have hPattern := mem_preorder_of_field hc hApart.name
  have hOwn := hKeys.of_mem hPattern
  obtain ⟨p, hp, rfl, rfl⟩ := hSecond.exists_mem_boundNames hKeys hFree hPattern hName hText
  have hDeclared : (c.home? root, (⟨p.name, .value, p.node, none, some hook, p.index⟩ :
      Declaration)) ∈ c.declarations root := by
    rw [hApart.declarations_eq]
    exact List.mem_filter.2
      ⟨List.mem_map_of_mem (List.mem_map_of_mem hp), by simpa using hNonempty⟩
  obtain ⟨x, hx, -, hSame⟩ := ScopeBuilder.exists_makes hKeys hFree hc hDeclared
  have hIndex := ((binds_of_mem_boundNames hOwn hp).isSecond_iff hOwn).1 hSecond
  exact ⟨x, hx, congrArg Declaration.node hSame, congrArg Declaration.name hSame,
    (congrArg Declaration.patternIndex hSame).trans hIndex.1⟩

theorem positioned_of_makes (hKeys : root.DistinctKeys) (hFree : root.FaultFree)
    (hc : c ∈ root.preorder) (hApart : c.TakesApart pattern hook) {x : Binding}
    (hx : ScopeBuilder.Makes root c x) :
    (ScopeBuilder.after root root.events).table.Positioned pattern hook x := by
  have hOwn := hKeys.of_mem (mem_preorder_of_field hc hApart.name)
  obtain ⟨q, hq, -, hSame⟩ := hx.exists_declaration hKeys hFree
  rw [hApart.declarations_eq] at hq
  obtain ⟨d, hd, rfl⟩ := List.mem_map.1 (List.mem_filter.1 hq).1
  obtain ⟨p, hp, rfl⟩ := List.mem_map.1 hd
  have hBinds := binds_of_mem_boundNames hOwn hp
  have hNode : x.node = p.node := congrArg Declaration.node hSame
  have hIndex : x.patternIndex = p.index := congrArg Declaration.patternIndex hSame
  constructor
  · exact hx.mem_bindings hFree
  · rw [hIndex, hNode, hBinds.position, Option.or_none]
  · rw [hIndex, hNode]
    exact hBinds.isSecond_iff hOwn
  · intro o call callee name hHook hCall hCallee hText hFound
    have hKind : x.kind = .value := congrArg Declaration.kind hSame
    have hInit : x.initCallee = some hook := congrArg Declaration.initCallee hSame
    rw [o.setterName_of_resolved hCall hCallee hText hFound, Binding.isSetter, hKind, hInit]
    simp [hHook]

/-- In a tree without faults the second element of what a hook gives is bound with its position. Of
all names that are taken out of the result, those that stand right in the pattern of the declarator
are taken for setters if and only if they are the second element, and those deeper inside by their
position in the innermost array pattern around them. -/
theorem build_positions (root : Cursor) (hKeys : root.DistinctKeys) (hFree : root.FaultFree) :
    ∃ t, (build root).Yields empty () t ∧
      ∀ c ∈ root.preorder, ∀ pattern hook, c.TakesApart pattern hook →
        (∀ n name, pattern.IsSecond n → n.isPatternName = true → n.text = .ok name → name ≠ "" →
          ∃ x, ScopeBuilder.Makes root c x ∧ x.node = n ∧ x.name = name ∧
            x.patternIndex = some 1) ∧
        ∀ x, ScopeBuilder.Makes root c x → t.Positioned pattern hook x := by
  obtain ⟨hBuild, -, -⟩ := build_sound hKeys hFree
  refine ⟨_, hBuild, fun c hc pattern hook hApart => ⟨?_, ?_⟩⟩
  · intro n name hSecond hName hText hNonempty
    exact exists_makes_of_isSecond hKeys hFree hc hApart hSecond hName hText hNonempty
  · intro x hx
    exact positioned_of_makes hKeys hFree hc hApart hx

end ScopeTable

/-- A comma. It is no named node. -/
def Node.comma (start : Nat) : Node :=
  .mk ⟨0, ",", "", false, start, start + 1, ⟨0, start⟩, ⟨0, start + 1⟩, .nothing, .readable, true,
    true, true⟩ []

open Node in
/-- A hook whose result is taken apart two levels deep:
`const [[x, fire], setPair = 0] = useState(0); fire(); setPair();`. -/
def Cursor.nested : Cursor :=
  .root <| inner "program" "" 0 64 [
    inner "lexical_declaration" "" 0 45 [
      inner "variable_declarator" "" 6 44 [
        inner "array_pattern" "name" 6 30 [
          inner "array_pattern" "" 7 16 [
            word "" 8 9 (.text "x"),
            comma 9,
            word "" 11 15 (.text "fire")],
          comma 16,
          inner "assignment_pattern" "" 18 29 [
            word "left" 18 25 (.text "setPair"),
            inner "number" "right" 28 29 []]],
        inner "call_expression" "value" 33 44 [
          word "function" 33 41 (.text "useState"),
          inner "arguments" "arguments" 41 44 [inner "number" "" 42 43 []]]]],
    inner "call_expression" "" 46 52 [word "function" 46 50 (.text "fire")],
    inner "call_expression" "" 54 63 [word "function" 54 61 (.text "setPair")]]

/-- The declarator of the sample takes apart what the hook gives. -/
theorem Cursor.exists_takesApart_nested :
    ∃ c ∈ Cursor.nested.preorder, ∃ pattern, c.TakesApart pattern "useState" ∧
      pattern.kind = "array_pattern" ∧ pattern.start = 6 := by
  have hFound : ∃ c ∈ Cursor.nested.preorder, c.kind = "variable_declarator" ∧
      (∃ v, c.field "value" = .ok (some v) ∧ v.isCall = true ∧
        v.calleeName = .ok (some "useState")) ∧
      ∃ pattern, c.field "name" = .ok (some pattern) ∧ pattern.isPatternName = false ∧
        pattern.kind = "array_pattern" ∧ pattern.start = 6 := by decide +kernel
  obtain ⟨c, hc, hKind, hValue, pattern, hName, hApart, hArray⟩ := hFound
  exact ⟨c, hc, pattern, ⟨hKind, hName, hApart, hValue⟩, hArray⟩

/-- The name with a default is the second element of the result. -/
theorem ScopeTable.build_positions_nested :
    Cursor.nested.DistinctKeys ∧ Cursor.nested.FaultFree ∧
      ∃ t, (build .nested).Yields empty () t ∧
        ∃ c ∈ Cursor.nested.preorder, ∃ pattern, c.TakesApart pattern "useState" ∧
          ∃ x, ScopeBuilder.Makes .nested c x ∧ x.name = "setPair" ∧ pattern.IsSecond x.node ∧
            t.Positioned pattern "useState" x := by
  have hKeys : Cursor.nested.DistinctKeys := by decide +kernel
  have hFree : Cursor.nested.FaultFree := by decide +kernel
  obtain ⟨t, hBuild, hPositions⟩ := build_positions .nested hKeys hFree
  obtain ⟨c, hc, pattern, hApart, hArray, hStart⟩ := Cursor.exists_takesApart_nested
  obtain ⟨hSeconds, hAll⟩ := hPositions c hc pattern "useState" hApart
  have hFound : ∀ pattern ∈ Cursor.nested.preorder, pattern.kind = "array_pattern" →
      pattern.start = 6 → ∃ e ∈ pattern.children, e.info.countsAsNamed = true ∧
        pattern.positionOf e = 1 ∧ e.kind = "assignment_pattern" ∧
        ∃ n, e.field "left" = .ok (some n) ∧ n.isPatternName = true ∧
          n.text = .ok "setPair" := by decide +kernel
  obtain ⟨e, he, hNamed, hOne, hDefault, n, hLeft, hName, hText⟩ :=
    hFound pattern (mem_preorder_of_field hc hApart.name) hArray hStart
  have hSecond : pattern.IsSecond n := ⟨hArray, e, he, hNamed, hOne, .inr ⟨hDefault, hLeft⟩⟩
  obtain ⟨x, hx, rfl, hSame, -⟩ := hSeconds n "setPair" hSecond hName hText (by decide)
  exact ⟨hKeys, hFree, t, hBuild, c, hc, pattern, hApart, x, hx, hSame, hSecond, hAll x hx⟩

/-- The second name of the inner pattern is taken for a setter too. -/
theorem ScopeTable.inner_second_taken_for_setter :
    let t := ((build .nested).run empty).state
    ∃ c ∈ Cursor.nested.preorder, ∃ pattern, c.TakesApart pattern "useState" ∧
      ∃ x ∈ t.bindings, x.name = "fire" ∧ x.patternIndex = some 1 ∧ ¬ pattern.IsSecond x.node ∧
        ∃ call ∈ Cursor.nested.preorder, call.isCall = true ∧
          ({} : RuleOptions).setterName t call = .ok (some "fire") := by
  intro t
  obtain ⟨c, hc, pattern, hApart, hArray, hStart⟩ := Cursor.exists_takesApart_nested
  have hFound : ∀ pattern ∈ Cursor.nested.preorder, pattern.kind = "array_pattern" →
      pattern.start = 6 → ∃ x ∈ t.bindings, x.name = "fire" ∧
        x.patternIndex = some 1 ∧ (x.node.outward pattern).map (·.kind) =
          ["identifier", "array_pattern", "array_pattern"] := by decide +kernel
  have hCalled : ∃ call ∈ Cursor.nested.preorder, call.isCall = true ∧
      ({} : RuleOptions).setterName t call = .ok (some "fire") := by decide +kernel
  obtain ⟨x, hx, hName, hIndex, hKinds⟩ :=
    hFound pattern (mem_preorder_of_field hc hApart.name) hArray hStart
  refine ⟨c, hc, pattern, hApart, x, hx, hName, hIndex, fun hSecond => ?_, hCalled⟩
  rcases hSecond.standsIn.1 with hDirect | ⟨d, hKind, hDirect⟩
  · simp [hDirect] at hKinds
  · simp [hDirect, hKind] at hKinds

end HotPath
