import HotPath.Proofs.Scope.Made

/-! Hoisted names. A declarator of a `var` statement declares its names for the whole function
around it, wherever in the function it stands. The head of a loop over a collection declares its
names for the loop alone, also with `var`. -/

namespace HotPath

namespace Cursor

variable {root c pattern : Cursor}

/-- The names that a pattern binds. -/
def patternNames (pattern : Cursor) : List String := (pattern.boundNames none).names.map (·.name)

/-- A declarator of a `var` statement with the pattern that it declares. -/
structure DeclaresVar (c pattern : Cursor) : Prop where
  hoisted : c.isHoisted = true
  name : c.field "name" = .ok (some pattern)

/-- A loop over a collection whose head declares a pattern with `var`. -/
structure LoopsVar (c pattern : Cursor) : Prop where
  loop : c.kind = "for_in_statement"
  var : ∃ k, c.field "kind" = .ok (some k) ∧ k.kind = "var"
  left : c.field "left" = .ok (some pattern)

theorem map_name_patternDeclarations (kind : BindingKind) (initCallee : Option String)
    (pattern : Cursor) :
    (pattern.patternDeclarations kind initCallee).map (·.name) = pattern.patternNames := by
  rw [patternDeclarations, patternNames, List.map_map]
  rfl

theorem patternNames_identifier (hText : pattern.text = .ok pattern.spelling)
    (hKind : pattern.kind = "identifier") : pattern.patternNames = [pattern.spelling] := by
  rw [patternNames, boundNames, if_pos (by simp [isPatternName, hKind]), hText]
  rfl

namespace DeclaresVar

theorem declarator (h : c.DeclaresVar pattern) : c.kind = "variable_declarator" := by
  have hHoisted := h.hoisted
  simp only [isHoisted, Bool.and_eq_true, beq_iff_eq] at hHoisted
  exact hHoisted.1

/-- It declares the names of its pattern. -/
theorem map_name_declaratorDeclarations (h : c.DeclaresVar pattern) (hFree : root.FaultFree)
    (hc : c ∈ root.preorder) :
    c.declaratorDeclarations.map (·.name) = pattern.patternNames := by
  have hPattern := mem_preorder_of_field hc h.name
  rw [declaratorDeclarations, fieldAt_of_field h.name]
  by_cases hKind : pattern.kind = "identifier"
  · have hReads : FailsOnly (fun _ => False)
        (ScopeStep.declarationOf c pattern.spelling (c.fieldAt "value")) :=
      ScopeStep.failsOnly_declarationOf hFree _ fun v hv => hFree.mem_of_fieldAt hc hv
    obtain ⟨d, hd⟩ := hReads.exists_ok
    rw [patternNames_identifier (hFree.text_eq hPattern) hKind, ← (name_of_declarationOf hd).1]
    simp only [hKind, if_true, hd]
    rfl
  · simp only [hKind, if_false]
    exact map_name_patternDeclarations _ _ _

/-- All of them are declared for the function around. -/
theorem declarations_eq (h : c.DeclaresVar pattern) :
    c.declarations root =
      (c.declaratorDeclarations.map (c.home? root, ·)).filter fun p => !p.2.name.isEmpty :=
  declarations_of_declarator h.declarator root

end DeclaresVar

namespace LoopsVar

theorem opens? (h : c.LoopsVar pattern) : c.opens? = some .block := by
  have hFunction : c.isFunction = false := by
    rw [isFunction, h.loop]
    decide
  have hBlock : blockKinds.contains c.kind = true := by
    rw [h.loop]
    decide
  rw [ScopeStep.opens?_of_block hFunction hBlock, ScopeStep.isFunctionBody, h.loop]
  rfl

/-- It declares the names of its pattern, for the loop alone. -/
theorem declarations_eq (h : c.LoopsVar pattern) :
    c.declarations root = ((pattern.patternDeclarations .value none).map (some c, ·)).filter
      fun p => !p.2.name.isEmpty := by
  obtain ⟨k, hk, -⟩ := h.var
  have hOuter : ∀ inClass, c.outerDeclarations inClass = [] := by
    intro inClass
    simp [outerDeclarations, isFunction, h.loop, functionKinds, classKinds, blockKinds]
  have hInner : c.innerDeclarations = pattern.patternDeclarations .value none := by
    simp [innerDeclarations, blockDeclarations, isFunction, h.loop, functionKinds, classKinds,
      blockKinds, fieldAt_of_field hk, fieldAt_of_field h.left]
  rw [declarations, h.opens?, hOuter, hInner]
  simp

end LoopsVar

/-- Empty names are left out. -/
theorem exists_declaration_iff {owner : Option Cursor} {ds : List Declaration} {name : String} :
    (∃ p ∈ (ds.map (owner, ·)).filter (fun p => !p.2.name.isEmpty), p.2.name = name) ↔
      name ∈ ds.map (·.name) ∧ name ≠ "" := by
  constructor
  · rintro ⟨p, hp, rfl⟩
    obtain ⟨hp, hName⟩ := List.mem_filter.1 hp
    obtain ⟨d, hd, rfl⟩ := List.mem_map.1 hp
    exact ⟨List.mem_map_of_mem hd, by simpa using hName⟩
  · rintro ⟨hName, hEmpty⟩
    obtain ⟨d, hd, rfl⟩ := List.mem_map.1 hName
    exact ⟨(owner, d), List.mem_filter.2 ⟨List.mem_map_of_mem hd, by simpa using hEmpty⟩, rfl⟩

end Cursor

namespace ScopeTable

open Cursor

variable {t : ScopeTable} {root : Cursor} {x : Binding}

/-- A binding hides what is declared further out. Wherever its scope is in effect, its name refers
to a binding of that scope or of one further inside, and to the last one of its own scope if those
further inside are silent. -/
def Hides (t : ScopeTable) (x : Binding) : Prop :=
  ∀ s, t.scope? x.scope = some s → ∀ n ∈ s.node.preorder,
    ∃ inner, t.chain (t.scopeFor n) = inner ++ t.chain x.scope ∧
      (∃ y, t.resolve x.name (t.scopeFor n) false = some y ∧
        (y.scope ∈ inner ∨ y.scope = x.scope)) ∧
      ((∀ i ∈ inner, t.Silent x.name i) →
        t.resolve x.name (t.scopeFor n) false = t.lastDeclared? x.scope x.name)

theorem exists_lastDeclared? (hx : x ∈ t.bindings) :
    ∃ y, t.lastDeclared? x.scope x.name = some y := by
  have hOwn : x ∈ t.bindings.filter fun y => y.scope = x.scope && y.name = x.name :=
    List.mem_filter.2 ⟨hx, by simp⟩
  cases hLast : t.lastDeclared? x.scope x.name with
  | none =>
      rw [lastDeclared?, List.getLast?_eq_none_iff] at hLast
      rw [hLast] at hOwn
      cases hOwn
  | some y => exact ⟨y, rfl⟩

/-- A binding of a scope in which nothing is a method hides what is declared further out. -/
theorem hides_of_mem (hLexical : t.Lexical root) (hKeys : root.DistinctKeys)
    (hIndexed : t.Indexed) (hx : x ∈ t.bindings)
    (hMethods : ∀ y ∈ t.bindings, y.scope = x.scope → y.kind.isMethod = false) : t.Hides x := by
  intro s hs n hn
  have hMem := mem_preorder_trans hn (hLexical.node_mem hs)
  obtain ⟨inner, outer, hSplit⟩ :=
    List.append_of_mem ((hLexical.mem_chain_iff hKeys hMem hs).2 hn)
  have hChain : t.chain x.scope = x.scope :: outer := hLexical.chain_of_split hSplit
  obtain ⟨y, hLast⟩ := exists_lastDeclared? hx
  obtain ⟨hy, hScope⟩ := scope_of_lastDeclared? hLast
  have hMethod := hMethods y hy hScope
  refine ⟨inner, by rw [hSplit, hChain], ?_, fun hSilent => ?_⟩
  · apply hIndexed.exists_resolve_of_not_silent hSplit
    intro hSilent
    rw [hSilent y hLast] at hMethod
    cases hMethod
  · rw [hLast, hIndexed.resolve_eq_some_iff, hScope]
    exact ⟨inner, outer, hSplit, hLast, hMethod, hSilent⟩

/-- In a built table all bindings hide what is declared further out, but for those of a class. -/
theorem hides_of_kind (hKeys : root.DistinctKeys) (hFree : root.FaultFree)
    (hx : x ∈ (ScopeBuilder.after root root.events).table.bindings)
    (hKind : ((ScopeBuilder.after root root.events).table.scope? x.scope).map (·.kind) ≠
      some .classBody) : (ScopeBuilder.after root root.events).table.Hides x := by
  obtain ⟨-, hLexical, hIndexed⟩ := build_sound hKeys hFree
  refine hides_of_mem hLexical hKeys hIndexed hx fun y hy hScope => ?_
  rw [Bool.eq_false_iff]
  intro hMethod
  exact hKind (hScope ▸ kind_of_isMethod hKeys hFree hy hMethod)

theorem kind_of_nearest? {kinds : List ScopeKind} {i j : Nat} (h : t.nearest? kinds i = some j) :
    ∃ kind ∈ kinds, (t.scope? j).map (·.kind) = some kind := by
  have hAny := List.find?_some h
  cases hs : t.scope? j with
  | none => simp [hs] at hAny
  | some s => exact ⟨s.kind, by simpa [hs] using hAny, rfl⟩

/-- What a declarator of a `var` statement makes belongs to the nearest function or program. -/
theorem nearest?_of_declaresVar {c pattern : Cursor} (hVar : c.DeclaresVar pattern)
    (hKeys : root.DistinctKeys) (hFree : root.FaultFree) (hc : c ∈ root.preorder)
    (hx : ScopeBuilder.Makes root c x) :
    let t := (ScopeBuilder.after root root.events).table
    t.nearest? [.function, .program] (t.scopeFor c) = some x.scope := by
  obtain ⟨-, hLexical, -⟩ := build_sound hKeys hFree
  obtain ⟨p, hp, hOwner, -⟩ := hx.exists_declaration hKeys hFree
  rw [hVar.declarations_eq] at hp
  obtain ⟨d, -, rfl⟩ := List.mem_map.1 (List.mem_filter.1 hp).1
  have hPlaced := hLexical.placed c hc
  rw [opener?_outward_of_none hc (ScopeStep.outerDeclarations_declarator hVar.declarator).1]
    at hPlaced
  exact (hLexical.scope_of_home hKeys hc hPlaced hOwner).1 hVar.hoisted

/-- What the head of a loop makes belongs to the scope of the loop. -/
theorem openedBy_of_loopsVar {c pattern : Cursor} (hLoop : c.LoopsVar pattern)
    (hKeys : root.DistinctKeys) (hFree : root.FaultFree) (hx : ScopeBuilder.Makes root c x) :
    (ScopeBuilder.after root root.events).table.OpenedBy x.scope (some c) := by
  obtain ⟨p, hp, hOwner, -⟩ := hx.exists_declaration hKeys hFree
  rw [hLoop.declarations_eq] at hp
  obtain ⟨d, -, rfl⟩ := List.mem_map.1 (List.mem_filter.1 hp).1
  exact hOwner

/-- In a tree without faults the names that are declared with `var` are all bound, but for empty
ones. A declarator binds them in the nearest function or program around it, and throughout that
function they hide what is declared further out. The head of a loop over a collection binds them in
the loop, where they hide what is declared further out, and outside the loop nothing refers to
them. -/
theorem build_hoists (root : Cursor) (hKeys : root.DistinctKeys) (hFree : root.FaultFree) :
    ∃ t, (build root).Yields empty () t ∧ ∀ c ∈ root.preorder, ∀ pattern,
      (c.DeclaresVar pattern →
        (∀ name, (∃ x, ScopeBuilder.Makes root c x ∧ x.name = name) ↔
          name ∈ pattern.patternNames ∧ name ≠ "") ∧
        ∀ x, ScopeBuilder.Makes root c x → x ∈ t.bindings ∧ t.Hides x ∧
          t.nearest? [.function, .program] (t.scopeFor c) = some x.scope) ∧
      (c.LoopsVar pattern →
        (∀ name, (∃ x, ScopeBuilder.Makes root c x ∧ x.name = name) ↔
          name ∈ pattern.patternNames ∧ name ≠ "") ∧
        ∀ x, ScopeBuilder.Makes root c x → x ∈ t.bindings ∧ t.Hides x ∧
          x.scope = t.scopeFor c ∧ (t.scope? x.scope).map (·.kind) = some .block ∧
          ∀ n ∈ root.preorder, ∀ name,
            t.resolve name (t.scopeFor n) false = some x → n ∈ c.preorder) := by
  obtain ⟨hBuild, hLexical, hIndexed⟩ := build_sound hKeys hFree
  refine ⟨_, hBuild, fun c hc pattern => ⟨fun hVar => ⟨fun name => ?_, fun x hx => ?_⟩,
    fun hLoop => ⟨fun name => ?_, fun x hx => ?_⟩⟩⟩
  · rw [ScopeBuilder.exists_makes_iff hKeys hFree hc, hVar.declarations_eq,
      exists_declaration_iff, hVar.map_name_declaratorDeclarations hFree hc]
  · have hNearest := nearest?_of_declaresVar hVar hKeys hFree hc hx
    obtain ⟨kind, hMem, hKind⟩ := kind_of_nearest? hNearest
    refine ⟨hx.mem_bindings hFree, hides_of_kind hKeys hFree (hx.mem_bindings hFree) ?_, hNearest⟩
    rw [hKind]
    rintro ⟨⟩
    exact absurd hMem (by decide)
  · rw [ScopeBuilder.exists_makes_iff hKeys hFree hc, hLoop.declarations_eq,
      exists_declaration_iff, map_name_patternDeclarations]
  · have hOwner := openedBy_of_loopsVar hLoop hKeys hFree hx
    have hPlaced := hLexical.placed c hc
    rw [outward_eq_cons hc, opener?_cons_of_some hLoop.opens?] at hPlaced
    have hKind := (hLexical.kind_eq hOwner).trans hLoop.opens?
    refine ⟨hx.mem_bindings hFree, hides_of_kind hKeys hFree (hx.mem_bindings hFree) ?_,
      hLexical.eq_of_openedBy hKeys hOwner hPlaced, hKind, fun n hn name hFound => ?_⟩
    · rw [hKind]
      nofun
    · obtain ⟨inner, outer, hChain, -⟩ := hIndexed.resolve_eq_some_iff.1 hFound
      obtain ⟨-, s, hs, rfl, -⟩ := hOwner
      exact (hLexical.mem_chain_iff hKeys hn hs).1 (by simp [hChain])

end ScopeTable

open Node in
/-- Two declarations with `var`, one in a block and one in the head of a loop:
`const go = 0; function f() { { var [up] = 0; } for (var go of up) {} go; }`. -/
def Cursor.varieties : Cursor :=
  .root <| inner "program" "" 0 74 [
    inner "lexical_declaration" "" 0 13 [
      inner "variable_declarator" "" 6 12 [
        word "name" 6 8 (.text "go"),
        inner "number" "value" 11 12 []]],
    inner "function_declaration" "" 14 74 [
      word "name" 23 24 (.text "f"),
      inner "formal_parameters" "parameters" 24 26 [],
      inner "statement_block" "body" 27 74 [
        inner "statement_block" "" 29 46 [
          inner "variable_declaration" "" 31 44 [
            inner "variable_declarator" "" 35 43 [
              inner "array_pattern" "name" 35 39 [word "" 36 38 (.text "up")],
              inner "number" "value" 42 43 []]]],
        inner "for_in_statement" "" 47 68 [
          inner "var" "kind" 52 55 [],
          word "left" 56 58 (.text "go"),
          word "right" 62 64 (.text "up"),
          inner "statement_block" "body" 66 68 []],
        inner "expression_statement" "" 69 72 [word "" 69 71 (.text "go")]]]]

namespace Cursor

theorem exists_declaresVar_varieties : ∃ c ∈ varieties.preorder, ∃ pattern,
    c.DeclaresVar pattern ∧ "up" ∈ pattern.patternNames := by
  have hFound : ∃ c ∈ varieties.preorder, c.isHoisted = true ∧
      ∃ pattern, c.field "name" = .ok (some pattern) ∧ "up" ∈ pattern.patternNames := by
    decide +kernel
  obtain ⟨c, hc, hHoisted, pattern, hName, hUp⟩ := hFound
  exact ⟨c, hc, pattern, ⟨hHoisted, hName⟩, hUp⟩

theorem exists_loopsVar_varieties : ∃ c ∈ varieties.preorder, ∃ pattern,
    c.LoopsVar pattern ∧ "go" ∈ pattern.patternNames ∧ c.start = 47 := by
  have hFound : ∃ c ∈ varieties.preorder, c.kind = "for_in_statement" ∧ c.start = 47 ∧
      (∃ k, c.field "kind" = .ok (some k) ∧ k.kind = "var") ∧
      ∃ pattern, c.field "left" = .ok (some pattern) ∧ "go" ∈ pattern.patternNames := by
    decide +kernel
  obtain ⟨c, hc, hKind, hStart, hVar, pattern, hLeft, hGo⟩ := hFound
  exact ⟨c, hc, pattern, ⟨hKind, hVar, hLeft⟩, hGo, hStart⟩

end Cursor

/-- The name in the block belongs to the function, and the one in the head of the loop to the
loop. -/
theorem ScopeTable.build_hoists_varieties :
    Cursor.varieties.DistinctKeys ∧ Cursor.varieties.FaultFree ∧
      ∃ t, (build .varieties).Yields empty () t ∧
        (∃ c ∈ Cursor.varieties.preorder, ∃ pattern, c.DeclaresVar pattern ∧
          ∃ x, ScopeBuilder.Makes .varieties c x ∧ x.name = "up" ∧ t.Hides x ∧
            t.nearest? [.function, .program] (t.scopeFor c) = some x.scope) ∧
        ∃ c ∈ Cursor.varieties.preorder, ∃ pattern, c.LoopsVar pattern ∧
          ∃ x, ScopeBuilder.Makes .varieties c x ∧ x.name = "go" ∧ t.Hides x ∧
            x.scope = t.scopeFor c := by
  have hKeys : Cursor.varieties.DistinctKeys := by decide +kernel
  have hFree : Cursor.varieties.FaultFree := by decide +kernel
  obtain ⟨t, hBuild, hAll⟩ := build_hoists .varieties hKeys hFree
  refine ⟨hKeys, hFree, t, hBuild, ?_, ?_⟩
  · obtain ⟨c, hc, pattern, hVar, hUp⟩ := Cursor.exists_declaresVar_varieties
    obtain ⟨hNames, hMade⟩ := (hAll c hc pattern).1 hVar
    obtain ⟨x, hx, hName⟩ := (hNames "up").2 ⟨hUp, by decide⟩
    obtain ⟨-, hHides, hNearest⟩ := hMade x hx
    exact ⟨c, hc, pattern, hVar, x, hx, hName, hHides, hNearest⟩
  · obtain ⟨c, hc, pattern, hLoop, hGo, -⟩ := Cursor.exists_loopsVar_varieties
    obtain ⟨hNames, hMade⟩ := (hAll c hc pattern).2 hLoop
    obtain ⟨x, hx, hName⟩ := (hNames "go").2 ⟨hGo, by decide⟩
    obtain ⟨-, hHides, hScope, -⟩ := hMade x hx
    exact ⟨c, hc, pattern, hLoop, x, hx, hName, hHides, hScope⟩

/-- The name that the loop declares does not belong to the function around the loop. After the loop,
in that function, it means what it means outside. -/
theorem ScopeTable.loop_var_stays_in_loop :
    let t := ((build .varieties).run empty).state
    ∃ c ∈ Cursor.varieties.preorder, ∃ pattern,
      c.LoopsVar pattern ∧ "go" ∈ pattern.patternNames ∧
      (∃ x ∈ t.bindings, x.name = "go" ∧ x.scope = t.scopeFor c ∧
        t.nearest? [.function, .program] (t.scopeFor c) ≠ some x.scope) ∧
      ∃ n ∈ Cursor.varieties.preorder,
        t.nearest? [.function, .program] (t.scopeFor n) =
          t.nearest? [.function, .program] (t.scopeFor c) ∧
        (t.resolve "go" (t.scopeFor n) false).map (·.scope) = some rootScope := by
  intro t
  obtain ⟨c, hc, pattern, hLoop, hGo, hStart⟩ := Cursor.exists_loopsVar_varieties
  have hFound : ∀ c ∈ Cursor.varieties.preorder, c.start = 47 →
      (∃ x ∈ t.bindings, x.name = "go" ∧ x.scope = t.scopeFor c ∧
        t.nearest? [.function, .program] (t.scopeFor c) ≠ some x.scope) ∧
      ∃ n ∈ Cursor.varieties.preorder,
        t.nearest? [.function, .program] (t.scopeFor n) =
          t.nearest? [.function, .program] (t.scopeFor c) ∧
        (t.resolve "go" (t.scopeFor n) false).map (·.scope) = some rootScope := by
    decide +kernel
  exact ⟨c, hc, pattern, hLoop, hGo, hFound c hc hStart⟩

end HotPath
