import HotPath.Proofs.Resolve
import HotPath.Proofs.Scope.Made

/-! Members of classes. A method belongs to the class whose body is the innermost scope around it.
Object literals and the values of fields open no scope, so a method of an object that is written
inside a class body belongs to the class like the methods that stand in the body itself. -/

namespace HotPath

namespace Cursor

variable {root c body target : Cursor} {name : String} {d : Declaration} {between : List Cursor}

/-- A node defines a method: as a method definition, or as a field that holds a function literal. -/
inductive DefinesMethod (c : Cursor) (name : String) : Cursor → Prop
  | method (hKind : c.kind = "method_definition") (hName : c.declaredName = .ok (some name)) :
      DefinesMethod c name c
  | field {label value : Cursor} (hKind : fieldKinds.contains c.kind = true)
      (hLabel : (c.fieldAt "property").or (c.fieldAt "name") = some label)
      (hText : label.text = .ok name) (hValue : c.field "value" = .ok (some value))
      (hLiteral : value.isFunctionLiteral = true) : DefinesMethod c name value

/-- A node lies in the body of a class with some nodes in between that open no scope. -/
structure InBody (root c : Cursor) (between : List Cursor) (body : Cursor) : Prop where
  outward : ∃ outer, c.outward root = c :: (between ++ body :: outer)
  plain : ∀ m ∈ between, m.opens? = none
  kind : body.kind = "class_body"

/-- The body of the innermost class around a node. -/
def classAround? (root c : Cursor) : Option Cursor :=
  (c.outward root).find? (·.kind = "class_body")

theorem opens?_eq_classBody_iff : c.opens? = some .classBody ↔ c.kind = "class_body" := by
  unfold opens?
  constructor
  · intro h
    split at h
    · split at h <;> cases h
    · split at h
      · assumption
      · split at h <;> cases h
  · intro hKind
    have hFunction : c.isFunction = false := by
      rw [isFunction, hKind]
      decide
    simp [hFunction, hKind]

theorem exists_inBody_iff (hc : c ∈ root.preorder) : (∃ between, InBody root c between body) ↔
    opener? ((c.outward root).drop 1) = some body ∧ body.kind = "class_body" := by
  unfold opener?
  rw [List.find?_eq_some_iff_append]
  constructor
  · rintro ⟨between, ⟨outer, hOutward⟩, hPlain, hKind⟩
    refine ⟨⟨by simp [opens?_eq_classBody_iff.2 hKind], between, outer, ?_, ?_⟩, hKind⟩
    · rw [hOutward]
      rfl
    · intro m hm
      simp [hPlain m hm]
  · rintro ⟨⟨-, between, outer, hOutward, hPlain⟩, hKind⟩
    refine ⟨between, ⟨outer, ?_⟩, fun m hm => ?_, hKind⟩
    · rw [outward_eq_cons hc, hOutward]
    · simpa using hPlain m hm

/-- A node in the body of a class is a child of the body if and only if nothing lies in between. -/
theorem InBody.mem_children_iff (h : InBody root c between body) (hc : c ∈ root.preorder) :
    c ∈ body.children ↔ between = [] := by
  obtain ⟨outer, hOutward⟩ := h.outward
  refine preorder_induction (P := fun c => c.outward root = c :: (between ++ body :: outer) →
    (c ∈ body.children ↔ between = [])) (fun hOutward => ?_)
    (fun p hp _ c hChild hOutward => ?_) hc hOutward
  · rw [outward_self] at hOutward
    simp at hOutward
  · rw [outward_of_mem_children hp hChild, outward_eq_cons hp] at hOutward
    obtain ⟨-, hOutward⟩ := List.cons.inj hOutward
    -- The parent is the first of the nodes in between, or the body if there are none.
    cases between with
    | nil =>
        obtain rfl : p = body := (List.cons.inj hOutward).1
        simpa using hChild
    | cons m rest =>
        obtain rfl : p = m := (List.cons.inj hOutward).1
        have hOther : p ≠ body := by
          rintro rfl
          have hNone := h.plain p List.mem_cons_self
          rw [opens?_eq_classBody_iff.2 h.kind] at hNone
          cases hNone
        simpa using fun hMem => hOther (eq_of_mem_children hChild hMem)

theorem definesMethod_of_mem_fieldDeclarations (hFree : root.FaultFree) (hc : c ∈ root.preorder)
    (hKind : fieldKinds.contains c.kind = true) (hd : d ∈ c.fieldDeclarations)
    (hMethod : d.kind = .method target) : d.node = c ∧ c.DefinesMethod d.name target := by
  unfold fieldDeclarations at hd
  split at hd
  · next label value hLabel hValue =>
      split at hd
      · next hLiteral =>
          obtain rfl := List.mem_singleton.1 hd
          cases hMethod
          have hMem : label ∈ root.preorder := by
            rcases Option.or_eq_some_iff.1 hLabel with hLabel | ⟨-, hLabel⟩ <;>
              exact hFree.mem_of_fieldAt hc hLabel
          exact ⟨rfl, .field hKind hLabel (hFree.text_eq hMem)
            (hValue ▸ hFree.field_eq hc "value") hLiteral⟩
      · cases hd
  · cases hd

/-- Without faults a node that declares a method defines it. -/
theorem definesMethod_of_mem (hFree : root.FaultFree) (hc : c ∈ root.preorder) {inClass : Bool}
    (hd : d ∈ c.outerDeclarations inClass) (hMethod : d.kind = .method target) :
    d.node = c ∧ c.DefinesMethod d.name target := by
  obtain ⟨rfl, -⟩ := inClass_of_isMethod hd (by rw [hMethod]; rfl)
  have hNamed : ∀ {name : Option String} {kind : BindingKind}, d ∈ named name kind c →
      kind = .method target := fun hd => (kind_of_mem_named hd).symm.trans hMethod
  unfold outerDeclarations at hd
  split at hd
  · split at hd
    · cases hNamed hd
    · split at hd
      · next hKind =>
          cases hNamed hd
          obtain ⟨name, hName, rfl⟩ := List.mem_map.1 hd
          have hGiven := hFree.declaredName_eq hc
          rw [Option.mem_toList.1 hName] at hGiven
          exact ⟨rfl, .method (by simpa using hKind) hGiven⟩
      · cases hd
  · split at hd
    · split at hd
      · cases hd
      · cases hNamed hd
    · split at hd
      · cases hd
      · split at hd
        · next hKind =>
            rw [if_pos rfl] at hd
            exact definesMethod_of_mem_fieldDeclarations hFree hc hKind hd hMethod
        · split at hd
          · cases hd
          · have hNone : d.kind.isMethod = false := by
              split at hd
              · exact isMethod_of_mem_declaratorDeclarations hd
              · split at hd
                · exact isMethod_of_mem_importDeclarations hd
                · cases hd
            rw [hMethod] at hNone
            cases hNone

/-- A node that defines a method declares it right inside the body of a class. -/
theorem DefinesMethod.mem_outerDeclarations (h : c.DefinesMethod name target) :
    ⟨name, .method target, c, none, none, none⟩ ∈ c.outerDeclarations true ∧
      c.isHoisted = false := by
  cases h with
  | method hKind hName =>
      have hFunction : c.isFunction = true := by
        rw [isFunction, hKind]
        decide
      refine ⟨?_, by simp [isHoisted, hKind]⟩
      simp [outerDeclarations, hFunction, hKind, givenName?, hName, named, Except.toOption]
  | @field label value hKind hLabel hText hValue hLiteral =>
      have hKinds : ∀ kind ∈ fieldKinds, functionKinds.contains kind = false ∧
          classKinds.contains kind = false ∧ blockKinds.contains kind = false ∧
          kind ≠ "variable_declarator" := by decide
      obtain ⟨hFunction, hClass, hBlock, hDeclarator⟩ := hKinds c.kind (by simpa using hKind)
      have hSpelling : label.spelling = name := by
        rw [spelling, hText]
        rfl
      refine ⟨?_, by simp [isHoisted, hDeclarator]⟩
      rw [outerDeclarations, isFunction, hFunction, hClass, hBlock, hKind]
      simp [fieldDeclarations, hLabel, fieldAt_of_field hValue, hLiteral, hSpelling]

/-- It declares the method in the scope of the body that it lies in. -/
theorem DefinesMethod.mem_declarations (h : c.DefinesMethod name target) (hName : name ≠ "")
    (hc : c ∈ root.preorder) (hBody : InBody root c between body) :
    (some body, ⟨name, .method target, c, none, none, none⟩) ∈ c.declarations root := by
  obtain ⟨hOpener, hKind⟩ := (exists_inBody_iff hc).1 ⟨between, hBody⟩
  obtain ⟨hMem, hHoisted⟩ := h.mem_outerDeclarations
  have hClass : c.inClassBody root = true := by
    rw [inClassBody, hOpener, ownerKind?, opens?_eq_classBody_iff.2 hKind]
    rfl
  have hHome : c.home? root = some body := by
    rw [home?, hHoisted, hOpener]
    rfl
  rw [declarations, hClass, hHome]
  refine List.mem_filter.2 ⟨List.mem_append_left _ (List.mem_map_of_mem hMem), ?_⟩
  simpa using hName

/-- A declaration of a method comes from a node that defines it in the body of a class. -/
theorem exists_inBody_of_mem_declarations (hFree : root.FaultFree) (hc : c ∈ root.preorder)
    {p : Option Cursor × Declaration} (hp : p ∈ c.declarations root)
    (hMethod : p.2.kind = .method target) :
    p.2.name ≠ "" ∧ p.2.node = c ∧ c.DefinesMethod p.2.name target ∧
      ∃ between body, InBody root c between body ∧ p.1 = some body := by
  have hOwner := ownerKind?_of_isMethod hp (by rw [hMethod]; rfl)
  obtain ⟨hp, hName⟩ := List.mem_filter.1 hp
  rcases List.mem_append.1 hp with hp | hp
  · obtain ⟨d, hd, rfl⟩ := List.mem_map.1 hp
    obtain ⟨-, hHoisted⟩ := inClass_of_isMethod hd (by rw [hMethod]; rfl)
    obtain ⟨hNode, hDefines⟩ := definesMethod_of_mem hFree hc hd hMethod
    have hHome : c.home? root = opener? ((c.outward root).drop 1) := by simp [home?, hHoisted]
    refine ⟨by simpa using hName, hNode, hDefines, ?_⟩
    simp only [hHome] at hOwner ⊢
    cases hOpener : opener? ((c.outward root).drop 1) with
    | none =>
        rw [hOpener] at hOwner
        cases hOwner
    | some body =>
        rw [hOpener] at hOwner
        obtain ⟨between, hBody⟩ :=
          (exists_inBody_iff hc).2 ⟨hOpener, opens?_eq_classBody_iff.1 hOwner⟩
        exact ⟨between, body, hBody, rfl⟩
  · split at hp
    · obtain ⟨d, hd, rfl⟩ := List.mem_map.1 hp
      have hNone := isMethod_of_mem_innerDeclarations hd
      rw [hMethod] at hNone
      cases hNone
    · cases hp

/-- Among the owners of the scopes around a node, the first class is that of the nearest body. -/
theorem find?_classBody_owners (nodes : List Cursor) :
    (owners nodes).find? (fun o => (ownerKind? o).any [.classBody].contains) =
      (nodes.find? (·.kind = "class_body")).map some := by
  induction nodes with
  | nil => rfl
  | cons c rest ih =>
      by_cases hKind : c.kind = "class_body"
      · have hOpens := opens?_eq_classBody_iff.2 hKind
        rw [owners_cons_of_some hOpens]
        simp [ownerKind?, hOpens, hKind]
      · rw [List.find?_cons_of_neg (by simpa using hKind), ← ih]
        cases hOpens : c.opens? with
        | none => rw [owners_cons_of_none hOpens]
        | some kind =>
            have hOther : kind ≠ .classBody := by
              rintro rfl
              exact hKind (opens?_eq_classBody_iff.1 hOpens)
            rw [owners_cons_of_some hOpens, List.find?_cons_of_neg]
            simpa [ownerKind?, hOpens] using hOther

end Cursor

namespace ScopeTable

open Cursor

variable {t : ScopeTable} {root n : Cursor}

/-- The nearest class scope around a node is that of the nearest class body. -/
theorem Lexical.nearest?_classBody_iff (h : t.Lexical root) (hKeys : root.DistinctKeys)
    (hn : n ∈ root.preorder) {i : Nat} :
    t.nearest? [.classBody] (t.scopeFor n) = some i ↔
      ∃ body, classAround? root n = some body ∧ t.OpenedBy i (some body) := by
  have hChain := h.chain_owners hn (h.placed n hn)
  have hSame : ∀ j owner, t.OpenedBy j owner →
      ((t.scope? j).any fun s => [ScopeKind.classBody].contains s.kind) =
        (ownerKind? owner).any [ScopeKind.classBody].contains := by
    intro j owner hj
    rw [← h.kind_eq hj, Option.any_map]
  constructor
  · intro hNearest
    obtain ⟨owner, hFound, hOpened⟩ :=
      exists_find?_of_forall₂ hChain.flip (fun owner j hj => (hSame j owner hj).symm) hNearest
    rw [find?_classBody_owners] at hFound
    obtain ⟨body, hBody, rfl⟩ := Option.map_eq_some_iff.1 hFound
    exact ⟨body, hBody, hOpened⟩
  · rintro ⟨body, hBody, hOpened⟩
    have hFound := find?_classBody_owners (n.outward root)
    rw [show (n.outward root).find? (·.kind = "class_body") = some body from hBody] at hFound
    obtain ⟨j, hNearest, hj⟩ := exists_find?_of_forall₂ hChain hSame hFound
    -- A node opens one scope only, so the scope that was found is the given one.
    rw [h.eq_of_openedBy hKeys hOpened hj]
    exact hNearest

/-- A member of `this` is the last declaration of its name in the nearest class, if that is a
function. -/
theorem resolveMember_eq_some_iff (hLexical : t.Lexical root) (hIndexed : t.Indexed)
    (hKeys : root.DistinctKeys) (hn : n ∈ root.preorder) {name : String} {b : Binding} :
    t.resolveMember name (t.scopeFor n) = some b ↔
      ∃ body, classAround? root n = some body ∧ t.OpenedBy b.scope (some body) ∧
        t.lastDeclared? b.scope name = some b ∧ b.target?.isSome = true := by
  unfold resolveMember
  constructor
  · intro h
    obtain ⟨i, hNearest, h⟩ := Option.bind_eq_some_iff.1 h
    obtain ⟨hLocal, hTarget⟩ := Option.filter_eq_some_iff.1 h
    rw [hIndexed.localBinding?_eq] at hLocal
    obtain ⟨-, rfl⟩ := scope_of_lastDeclared? hLocal
    obtain ⟨body, hBody, hOpened⟩ := (hLexical.nearest?_classBody_iff hKeys hn).1 hNearest
    exact ⟨body, hBody, hOpened, hLocal, hTarget⟩
  · rintro ⟨body, hBody, hOpened, hLast, hTarget⟩
    have hNearest := (hLexical.nearest?_classBody_iff hKeys hn).2 ⟨body, hBody, hOpened⟩
    refine Option.bind_eq_some_iff.2 ⟨b.scope, hNearest, Option.filter_eq_some_iff.2 ⟨?_, hTarget⟩⟩
    rw [hIndexed.localBinding?_eq, hLast]

/-- A binding stands for a method of the class with the given body. Its node defines the method, and
it is a child of the body if and only if nothing lies in between. -/
structure MethodOf (t : ScopeTable) (root : Cursor) (x : Binding) (target : Cursor)
    (between : List Cursor) (body : Cursor) : Prop where
  node_mem : x.node ∈ root.preorder
  name : x.name ≠ ""
  defines : x.node.DefinesMethod x.name target
  inBody : InBody root x.node between body
  scope : t.OpenedBy x.scope (some body)
  direct_iff : x.node ∈ body.children ↔ between = []

/-- In a tree without faults the methods are exactly the definitions with a class body as innermost
scope around them, whatever nodes without a scope lie in between, and they belong to that body. A
call of a member of `this` is followed to the last declaration of the name in the nearest class. -/
theorem build_members (root : Cursor) (hKeys : root.DistinctKeys) (hFree : root.FaultFree) :
    ∃ t, (build root).Yields empty () t ∧
      (∀ x ∈ t.bindings, ∀ target, x.kind = .method target →
        ∃ between body, t.MethodOf root x target between body) ∧
      (∀ c ∈ root.preorder, ∀ name target between body, c.DefinesMethod name target → name ≠ "" →
        InBody root c between body → ∃ x ∈ t.bindings, x.node = c ∧ x.name = name ∧
          x.kind = .method target ∧ t.OpenedBy x.scope (some body)) ∧
      ∀ call ∈ root.preorder, ∀ name, call.CallsMember name →
        ∃ found, t.resolveCallee call = .ok found ∧ ∀ b, found = some b ↔
          ∃ body, classAround? root call = some body ∧ t.OpenedBy b.scope (some body) ∧
            t.lastDeclared? b.scope name = some b ∧ b.target?.isSome = true := by
  obtain ⟨hBuild, hLexical, hIndexed⟩ := build_sound hKeys hFree
  refine ⟨_, hBuild, ?_, ?_, ?_⟩
  · intro x hx target hMethod
    obtain ⟨c, hc, p, hp, hOwner, hDeclared⟩ :=
      ScopeBuilder.exists_declaration_of_mem hKeys hFree hx
    obtain ⟨hName, hNode, hDefines, between, body, hBody, hHome⟩ :=
      exists_inBody_of_mem_declarations hFree hc hp (hDeclared ▸ hMethod)
    rw [← hDeclared] at hName hNode hDefines
    obtain rfl : x.node = c := hNode
    exact ⟨between, body, hc, hName, hDefines, hBody, hHome ▸ hOwner, hBody.mem_children_iff hc⟩
  · intro c hc name target between body hDefines hName hBody
    obtain ⟨x, hx, hScope, hDeclared⟩ := ScopeBuilder.exists_makes hKeys hFree hc
      (hDefines.mem_declarations hName hc hBody)
    exact ⟨x, hx.mem_bindings hFree, congrArg Declaration.node hDeclared,
      congrArg Declaration.name hDeclared, congrArg Declaration.kind hDeclared, hScope⟩
  · intro call hCall name hMember
    refine ⟨_, resolveCallee_of_callsMember hMember, fun b => ?_⟩
    exact resolveMember_eq_some_iff hLexical hIndexed hKeys hCall

end ScopeTable

open Node in
/-- A class with a method of its own and an object with another one:
`class A { hooks = { go() {} }; run() { this.go(); } }`. -/
def Cursor.hooked : Cursor :=
  .root <| inner "program" "" 0 53 [
    inner "class_declaration" "" 0 53 [
      word "name" 6 7 (.text "A"),
      inner "class_body" "body" 8 53 [
        inner "field_definition" "" 10 29 [
          word "property" 10 15 (.text "hooks"),
          inner "object" "value" 18 29 [
            inner "method_definition" "" 20 27 [
              word "name" 20 22 (.text "go"),
              inner "statement_block" "body" 25 27 []]]],
        inner "method_definition" "" 31 51 [
          word "name" 31 34 (.text "run"),
          inner "statement_block" "body" 37 51 [
            inner "call_expression" "" 39 48 [
              inner "member_expression" "function" 39 46 [
                inner "this" "object" 39 43 [],
                word "property" 44 46 (.text "go")]]]]]]]

/-- The method of the class calls a member of `this`. -/
theorem Cursor.exists_callsMember_hooked :
    ∃ call ∈ Cursor.hooked.preorder, call.CallsMember "go" ∧ call.start = 39 := by
  have hFound : ∃ call ∈ Cursor.hooked.preorder, call.start = 39 ∧
      ∃ callee, call.callee = .ok (some callee) ∧ callee.kind = "member_expression" ∧
        (∃ object, callee.field "object" = .ok (some object) ∧ object.kind = "this") ∧
        ∃ property, callee.field "property" = .ok (some property) ∧
          property.text = .ok "go" := by decide +kernel
  obtain ⟨call, hCall, hStart, callee, hCallee, hKind, ⟨object, hObject, hThis⟩, property,
    hProperty, hText⟩ := hFound
  exact ⟨call, hCall, ⟨callee, object, property, hCallee, hKind, hObject, hThis, hProperty, hText⟩,
    hStart⟩

/-- What stands in the body of the class is a method of the class, and the call of the other method
is followed to a member of the class too. -/
theorem ScopeTable.build_members_hooked :
    Cursor.hooked.DistinctKeys ∧ Cursor.hooked.FaultFree ∧
      ∃ t, (build .hooked).Yields empty () t ∧
        (∃ c ∈ Cursor.hooked.preorder, c.DefinesMethod "run" c ∧
          ∃ x ∈ t.bindings, x.node = c ∧ ∃ between body, t.MethodOf .hooked x c between body) ∧
        ∃ call ∈ Cursor.hooked.preorder, call.CallsMember "go" ∧
          ∃ b, t.resolveCallee call = .ok (some b) ∧
            ∃ body, Cursor.classAround? .hooked call = some body ∧
              t.OpenedBy b.scope (some body) := by
  have hKeys : Cursor.hooked.DistinctKeys := by decide +kernel
  have hFree : Cursor.hooked.FaultFree := by decide +kernel
  obtain ⟨t, hBuild, hMethods, hDefined, hCalls⟩ := build_members .hooked hKeys hFree
  refine ⟨hKeys, hFree, t, hBuild, ?_, ?_⟩
  · have hFound : ∃ c ∈ Cursor.hooked.preorder, c.kind = "method_definition" ∧
        c.declaredName = .ok (some "run") ∧
        (Cursor.opener? ((c.outward .hooked).drop 1)).any (·.kind = "class_body") := by
      decide +kernel
    obtain ⟨c, hc, hKind, hName, hAny⟩ := hFound
    obtain ⟨body, hOpener, hBody⟩ := (Option.any_eq_true _ _).1 hAny
    obtain ⟨between, hIn⟩ :=
      (Cursor.exists_inBody_iff hc).2 ⟨hOpener, of_decide_eq_true hBody⟩
    have hDefines : c.DefinesMethod "run" c := .method hKind hName
    obtain ⟨x, hx, hNode, -, hMethod, -⟩ :=
      hDefined c hc "run" c between body hDefines (by decide) hIn
    exact ⟨c, hc, hDefines, x, hx, hNode, hMethods x hx c hMethod⟩
  · obtain ⟨call, hCall, hMember, hStart⟩ := Cursor.exists_callsMember_hooked
    have hSome : ∀ call ∈ Cursor.hooked.preorder, call.start = 39 →
        (((build .hooked).run empty).state.resolveMember "go"
          (((build .hooked).run empty).state.scopeFor call)).isSome := by decide +kernel
    obtain ⟨b, hb⟩ := Option.isSome_iff_exists.1 (hSome call hCall hStart)
    rw [hBuild.2] at hb
    obtain ⟨found, hFound, hExact⟩ := hCalls call hCall "go" hMember
    obtain rfl : some b = found :=
      hb ▸ Except.ok.inj ((resolveCallee_of_callsMember hMember).symm.trans hFound)
    obtain ⟨body, hBody, hScope, -⟩ := (hExact b).1 rfl
    exact ⟨call, hCall, hMember, b, hFound, body, hBody, hScope⟩

/-- The method of the object is bound as one of the class, and a member of `this` is followed to
it. -/
theorem ScopeTable.object_method_bound_in_class :
    let t := ((build .hooked).run empty).state
    ∃ x ∈ t.bindings, x.kind.isMethod = true ∧ x.node.parent?.any (·.kind = "object") ∧
      (t.scope? x.scope).any (·.node.kind = "class_body") ∧
      ∃ call ∈ Cursor.hooked.preorder, call.CallsMember "go" ∧
        ∃ b, t.resolveCallee call = .ok (some b) ∧ b.number = x.number := by
  intro t
  obtain ⟨call, hCall, hMember, hStart⟩ := Cursor.exists_callsMember_hooked
  have hFound : ∃ x ∈ t.bindings, x.kind.isMethod = true ∧
      x.node.parent?.any (·.kind = "object") ∧
      (t.scope? x.scope).any (·.node.kind = "class_body") ∧
      ∀ call ∈ Cursor.hooked.preorder, call.start = 39 →
        (t.resolveMember "go" (t.scopeFor call)).any (·.number = x.number) := by decide +kernel
  obtain ⟨x, hx, hMethod, hObject, hClass, hFollowed⟩ := hFound
  obtain ⟨b, hb, hSame⟩ := (Option.any_eq_true _ _).1 (hFollowed call hCall hStart)
  refine ⟨x, hx, hMethod, hObject, hClass, call, hCall, hMember, b, ?_, of_decide_eq_true hSame⟩
  rw [resolveCallee_of_callsMember hMember, hb]

end HotPath
