import HotPath.Proofs.Scope.Made

/-! Aliases and their initializers. An alias is followed from the scope that it was declared in, and
its initializer is a name at the place where it is written. For names of a block the two scopes are
one. A name that is hoisted out of a block leaves behind the scopes that it passes. -/

namespace HotPath

namespace Cursor

variable {root c v : Cursor} {name other : String}

/-- A declarator that copies what another name stands for: `const name = other`. The initializer
may be wrapped. -/
structure Copies (c v : Cursor) (name other : String) : Prop where
  declarator : c.kind = "variable_declarator"
  named : ∃ n, c.field "name" = .ok (some n) ∧ n.kind = "identifier" ∧ n.text = .ok name
  value : ∃ value, c.field "value" = .ok (some value) ∧ value.unwrap = v
  identifier : v.kind = "identifier"
  text : v.text = .ok other

/-- No scope is opened by a name or by a wrapper around a value. -/
theorem opens?_of_mem_wrapperKinds (h : c.kind ∈ "identifier" :: wrapperKinds) :
    c.opens? = none := by
  have hKinds : ∀ kind ∈ "identifier" :: wrapperKinds, functionKinds.contains kind = false ∧
      blockKinds.contains kind = false ∧ kind ≠ "class_body" := by decide
  obtain ⟨hFunction, hBlock, hBody⟩ := hKinds c.kind h
  exact ScopeStep.opens?_of_other hFunction hBlock hBody

/-- Between a value and what is left of it without wrappers no scope is opened. -/
theorem opener?_unwrap {value : Cursor} (hValue : value ∈ root.preorder)
    (hOpens : value.unwrap.opens? = none) :
    opener? (value.unwrap.outward root) = opener? ((value.outward root).drop 1) := by
  fun_induction unwrap value with
  | case1 c hKind hNone => exact opener?_outward_of_none hValue hOpens
  | case2 c hKind inner rest hInner hSize ih =>
      have hChild : inner ∈ c.children :=
        mem_children_of_mem_namedChildren (hInner ▸ List.mem_cons_self)
      have hMem := mem_preorder_trans (mem_preorder_of_mem_children hChild) hValue
      have hWrapper : c.opens? = none :=
        opens?_of_mem_wrapperKinds (List.mem_cons_of_mem _ (List.contains_iff_mem.1 hKind))
      rw [ih hMem hOpens, drop_outward_of_mem_children hValue hChild,
        opener?_outward_of_none hValue hWrapper]
  | case3 c hKind => exact opener?_outward_of_none hValue hOpens

/-- The declaration of a name as an alias of another one. -/
def aliasDeclaration (c : Cursor) (name other : String) : Declaration :=
  { name, kind := .value, node := c, aliasOf := some other }

namespace Copies

/-- The initializer lies in the innermost scope around the declarator. -/
theorem opener?_eq (h : c.Copies v name other) (hc : c ∈ root.preorder) :
    opener? (v.outward root) = opener? ((c.outward root).drop 1) := by
  obtain ⟨value, hField, rfl⟩ := h.value
  have hChild := mem_children_of_field hField
  have hMem := mem_preorder_trans (mem_preorder_of_mem_children hChild) hc
  have hOpens : value.unwrap.opens? = none :=
    opens?_of_mem_wrapperKinds (h.identifier ▸ List.mem_cons_self)
  have hDeclarator := (ScopeStep.outerDeclarations_declarator h.declarator).1
  rw [opener?_unwrap hMem hOpens, drop_outward_of_mem_children hc hChild,
    opener?_outward_of_none hc hDeclarator]

/-- It declares one name, an alias of the other. -/
theorem declarations_eq (h : c.Copies v name other) :
    c.declarations root =
      [(c.home? root, c.aliasDeclaration name other)].filter fun p => !p.2.name.isEmpty := by
  obtain ⟨n, hName, hKind, hText⟩ := h.named
  obtain ⟨value, hField, rfl⟩ := h.value
  have hLiteral : value.unwrap.isFunctionLiteral = false := by
    rw [isFunctionLiteral, h.identifier]
    decide
  have hDeclared : ScopeStep.declarationOf c name (some value) =
      .ok (c.aliasDeclaration name other) := by
    simp [aliasDeclaration, ScopeStep.declarationOf, hLiteral, h.identifier, h.text, bind,
      Except.bind, pure, Except.pure]
  have hSpelling : n.spelling = name := by
    rw [spelling, hText]
    rfl
  have hAlone : c.declaratorDeclarations = [c.aliasDeclaration name other] := by
    simp only [declaratorDeclarations, fieldAt_of_field hName, hKind, if_true,
      fieldAt_of_field hField, hSpelling, hDeclared]
    rfl
  rw [declarations_of_declarator h.declarator, hAlone]
  rfl

theorem mem_preorder (h : c.Copies v name other) (hc : c ∈ root.preorder) : v ∈ root.preorder := by
  obtain ⟨value, hField, rfl⟩ := h.value
  exact unwrap_mem_preorder (mem_preorder_of_field hc hField)

theorem resolveIdentifier_eq (h : c.Copies v name other) (t : ScopeTable) :
    t.resolveIdentifier v = .ok (t.resolve other (t.scopeFor v) false) := by
  rw [ScopeTable.resolveIdentifier, if_pos h.identifier, h.text]
  rfl

end Copies

end Cursor

namespace ScopeTable

open Cursor

/-- What is known of a binding that a declarator makes as an alias. It is followed from the scope
that it belongs to, which is the scope of the initializer unless the name is hoisted. A hoisted name
passes some scopes, and it is followed as the initializer reads if and only if these are silent
about the name that was copied. -/
structure Follows (t : ScopeTable) (c v : Cursor) (name other : String) (b : Binding) : Prop where
  mem : b ∈ t.bindings
  name_eq : b.name = name
  aliasOf : b.aliasOf = some other
  target : b.target? = none
  direct : c.isHoisted = false → b.scope = t.scopeFor v ∧
    t.resolveIdentifier v = .ok (t.resolve other b.scope false)
  hoisted : c.isHoisted = true →
    t.nearest? [.function, .program] (t.scopeFor v) = some b.scope ∧
    ∃ inner, t.chain (t.scopeFor v) = inner ++ t.chain b.scope ∧
      (t.resolveIdentifier v = .ok (t.resolve other b.scope false) ↔
        ∀ i ∈ inner, t.Silent other i)

/-- In a tree without faults every declarator that copies a name makes an alias, and the alias is
followed as its initializer reads, but for names that are hoisted past a scope that gives the copied
name another meaning. -/
theorem build_follows_initializers (root : Cursor) (hKeys : root.DistinctKeys)
    (hFree : root.FaultFree) :
    ∃ t, (build root).Yields empty () t ∧
      ∀ c ∈ root.preorder, ∀ v name other, c.Copies v name other →
        (name ≠ "" → ∃ b, ScopeBuilder.Makes root c b) ∧
        ∀ b, ScopeBuilder.Makes root c b → t.Follows c v name other b := by
  obtain ⟨hBuild, hLexical, hIndexed⟩ := build_sound hKeys hFree
  refine ⟨_, hBuild, fun c hc v name other hCopies => ⟨fun hName => ?_, fun b hb => ?_⟩⟩
  · have hDeclared : (c.home? root, c.aliasDeclaration name other) ∈ c.declarations root := by
      rw [hCopies.declarations_eq]
      simpa [aliasDeclaration] using hName
    obtain ⟨b, hb, -⟩ := ScopeBuilder.exists_makes hKeys hFree hc hDeclared
    exact ⟨b, hb⟩
  · obtain ⟨p, hp, hHome, hDeclared⟩ := hb.exists_declaration hKeys hFree
    rw [hCopies.declarations_eq] at hp
    obtain rfl := List.mem_singleton.1 (List.mem_filter.1 hp).1
    have hPlaced := hCopies.opener?_eq hc ▸ hLexical.placed v (hCopies.mem_preorder hc)
    obtain ⟨hNearest, hSame⟩ := hLexical.scope_of_home hKeys hc hPlaced hHome
    constructor
    · exact hb.mem_bindings hFree
    · exact congrArg Declaration.name hDeclared
    · exact congrArg Declaration.aliasOf hDeclared
    · exact congrArg (·.kind.target?) hDeclared
    · intro hDirect
      rw [hCopies.resolveIdentifier_eq, hSame hDirect]
      exact ⟨rfl, rfl⟩
    · intro hHoisted
      obtain ⟨inner, hChain⟩ := hLexical.exists_chain_eq_of_nearest? (hNearest hHoisted)
      refine ⟨hNearest hHoisted, inner, hChain, ?_⟩
      rw [hCopies.resolveIdentifier_eq, Except.ok.injEq]
      exact hIndexed.resolve_eq_iff_silent (hLexical.nodup_chain _) hChain

end ScopeTable

open Node in
/-- Two copies of a name in a block that has a function of that name. One copy is hoisted out of the
block: `function go() {} { const go = () => 0; var tick = go; let step = (go); }`. -/
def Cursor.passed : Cursor :=
  .root <| inner "program" "" 0 72 [
    inner "function_declaration" "" 0 16 [
      word "name" 9 11 (.text "go"),
      inner "statement_block" "body" 14 16 []],
    inner "statement_block" "" 17 72 [
      inner "lexical_declaration" "" 19 38 [
        inner "variable_declarator" "" 25 37 [
          word "name" 25 27 (.text "go"),
          inner "arrow_function" "value" 30 37 [inner "number" "body" 36 37 []]]],
      inner "variable_declaration" "" 39 53 [
        inner "variable_declarator" "" 43 52 [
          word "name" 43 47 (.text "tick"),
          word "value" 50 52 (.text "go")]],
      inner "lexical_declaration" "" 54 70 [
        inner "variable_declarator" "" 58 69 [
          word "name" 58 62 (.text "step"),
          inner "parenthesized_expression" "value" 65 69 [word "" 66 68 (.text "go")]]]]]

/-- The declarators of the two copies, with the places of their initializers. -/
theorem Cursor.exists_copies_passed {name : String} {hoisted : Bool} {place : Nat}
    (h : (name, hoisted, place) ∈ [("tick", true, 50), ("step", false, 66)]) :
    ∃ c ∈ Cursor.passed.preorder, ∃ v, c.Copies v name "go" ∧ c.isHoisted = hoisted ∧
      v.start = place := by
  have hFound : ∀ p ∈ [("tick", true, 50), ("step", false, 66)], ∃ c ∈ Cursor.passed.preorder,
      c.kind = "variable_declarator" ∧ c.isHoisted = p.2.1 ∧
      (∃ n, c.field "name" = .ok (some n) ∧ n.kind = "identifier" ∧ n.text = .ok p.1) ∧
      ∃ value, c.field "value" = .ok (some value) ∧ value.unwrap.kind = "identifier" ∧
        value.unwrap.text = .ok "go" ∧ value.unwrap.start = p.2.2 := by
    decide +kernel
  obtain ⟨c, hc, hKind, hHoisted, hName, value, hField, hValue, hText, hStart⟩ := hFound _ h
  exact ⟨c, hc, value.unwrap, ⟨hKind, hName, ⟨value, hField, rfl⟩, hValue, hText⟩, hHoisted,
    hStart⟩

/-- The copy that stays in the block is followed as its initializer reads, and the other one from
the scope of the program. -/
theorem ScopeTable.build_follows_initializers_passed :
    Cursor.passed.DistinctKeys ∧ Cursor.passed.FaultFree ∧
      ∃ t, (build .passed).Yields empty () t ∧
        (∃ c ∈ Cursor.passed.preorder, ∃ v, c.Copies v "step" "go" ∧
          ∃ b, ScopeBuilder.Makes .passed c b ∧ b.aliasOf = some "go" ∧
            t.resolveIdentifier v = .ok (t.resolve "go" b.scope false)) ∧
        ∃ c ∈ Cursor.passed.preorder, ∃ v, c.Copies v "tick" "go" ∧
          ∃ b, ScopeBuilder.Makes .passed c b ∧ b.aliasOf = some "go" ∧
            t.nearest? [.function, .program] (t.scopeFor v) = some b.scope := by
  have hKeys : Cursor.passed.DistinctKeys := by decide +kernel
  have hFree : Cursor.passed.FaultFree := by decide +kernel
  obtain ⟨t, hBuild, hCopies⟩ := build_follows_initializers .passed hKeys hFree
  refine ⟨hKeys, hFree, t, hBuild, ?_, ?_⟩
  · obtain ⟨c, hc, v, hStep, hDirect, -⟩ :=
      Cursor.exists_copies_passed (List.mem_cons_of_mem _ List.mem_cons_self)
    obtain ⟨hMade, hFollows⟩ := hCopies c hc v "step" "go" hStep
    obtain ⟨b, hb⟩ := hMade (by decide)
    exact ⟨c, hc, v, hStep, b, hb, (hFollows b hb).aliasOf, ((hFollows b hb).direct hDirect).2⟩
  · obtain ⟨c, hc, v, hTick, hHoisted, -⟩ := Cursor.exists_copies_passed List.mem_cons_self
    obtain ⟨hMade, hFollows⟩ := hCopies c hc v "tick" "go" hTick
    obtain ⟨b, hb⟩ := hMade (by decide)
    exact ⟨c, hc, v, hTick, b, hb, (hFollows b hb).aliasOf, ((hFollows b hb).hoisted hHoisted).1⟩

/-- The hoisted copy stands for the first function, while its initializer reads as the second. -/
theorem ScopeTable.hoisted_alias_leaves_initializer :
    let t := ((build .passed).run empty).state
    ∃ c ∈ Cursor.passed.preorder, ∃ v, c.Copies v "tick" "go" ∧
      ∃ b ∈ t.bindings, b.name = "tick" ∧ b.aliasOf = some "go" ∧
        t.resolveIdentifier v ≠ .ok (t.resolve "go" b.scope false) := by
  intro t
  obtain ⟨c, hc, v, hTick, -, hStart⟩ := Cursor.exists_copies_passed List.mem_cons_self
  have hRead : ∀ v ∈ Cursor.passed.preorder, v.start = 50 →
      (t.resolveIdentifier v).toOption.map (Option.map (·.number)) = some (some 1) := by
    decide +kernel
  have hFollowed : ∃ b ∈ t.bindings, b.name = "tick" ∧ b.aliasOf = some "go" ∧
      (t.resolve "go" b.scope false).map (·.number) = some 0 := by
    decide +kernel
  obtain ⟨b, hb, hName, hAlias, hFirst⟩ := hFollowed
  refine ⟨c, hc, v, hTick, b, hb, hName, hAlias, fun hSame => ?_⟩
  have hSecond := hRead v (hTick.mem_preorder hc) hStart
  rw [hSame] at hSecond
  cases hFirst.symm.trans (Option.some.inj hSecond)

end HotPath
