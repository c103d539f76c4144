import HotPath.Proofs.Scope.Enclosing

/-! Which node makes which binding. When the walk enters a node, it adds the declarations of that
node to the table, and nothing that was added is removed later. -/

namespace HotPath

namespace ScopeBuilder

variable {root c : Cursor}

/-- A binding is made by a node if it is in the table after the walk entered the node and was not
there before. -/
def Makes (root c : Cursor) (x : Binding) : Prop :=
  ∃ before rest, root.events = before ++ ⟨.enter, c⟩ :: rest ∧
    x ∈ (after root (before ++ [⟨.enter, c⟩])).table.bindings.drop
      (after root before).table.bindings.length

theorem isPrefix_declareAll (n : Nat) (ds : List Declaration) (b : ScopeBuilder) :
    b.table.bindings <+: (b.declareAll n ds).table.bindings := by
  induction ds generalizing b with
  | nil => exact List.prefix_rfl
  | cons d rest ih =>
      refine List.IsPrefix.trans ?_ (ih (b.declare n d))
      unfold declare
      split
      · exact List.prefix_rfl
      · exact List.prefix_append _ _

/-- No step removes a binding. -/
theorem isPrefix_step (b : ScopeBuilder) (e : Event) :
    b.table.bindings <+: (b.step e).table.bindings := by
  obtain ⟨phase, c⟩ := e
  cases phase with
  | enter =>
      change _ <+: (b.entered c).table.bindings
      have hOuter := b.isPrefix_declareAll (b.home c)
        (c.outerDeclarations (b.topKind? = some .classBody))
      unfold entered
      cases c.opens? with
      | none => exact hOuter
      | some kind => exact hOuter.trans (isPrefix_declareAll _ _ (push kind c _))
  | leave =>
      simp only [step]
      split
      · exact (table_pop c b).symm ▸ List.prefix_rfl
      · exact List.prefix_rfl

theorem isPrefix_foldl_step (es : List Event) (b : ScopeBuilder) :
    b.table.bindings <+: (es.foldl step b).table.bindings := by
  induction es generalizing b with
  | nil => exact List.prefix_rfl
  | cons e rest ih => exact (b.isPrefix_step e).trans (ih (b.step e))

theorem isPrefix_after (hFree : root.FaultFree) {before rest : List Event}
    (hEvents : root.events = before ++ rest) :
    (after root before).table.bindings <+: (after root root.events).table.bindings := by
  have hMem : ∀ e ∈ root.events, e.cursor ∈ root.preorder :=
    fun _ => Cursor.mem_preorder_of_mem_events
  rw [ScopeStep.after_eq_foldl hFree hMem, hEvents, List.foldl_append,
    ScopeStep.after_eq_foldl hFree fun e he => hMem e (hEvents ▸ List.mem_append_left rest he)]
  exact isPrefix_foldl_step rest _

/-- The bindings that a node makes are its declarations in order. -/
theorem records_made (hKeys : root.DistinctKeys) (hFree : root.FaultFree)
    {before rest : List Event} (hEvents : root.events = before ++ ⟨.enter, c⟩ :: rest) :
    List.Forall₂ (after root root.events).table.Records (c.declarations root)
      ((after root (before ++ [⟨.enter, c⟩])).table.bindings.drop
        (after root before).table.bindings.length) := by
  have hBefore := ScopeTable.records_after hKeys hFree hEvents
  have hAfter := ScopeTable.records_after hKeys hFree
    (hEvents.trans (List.append_cons before ⟨.enter, c⟩ rest))
  have hNew := List.forall₂_drop (after root before).table.bindings.length hAfter
  rw [List.filterMap_append, List.flatMap_append, ← hBefore.length_eq, List.drop_left,
    List.filterMap_cons_some (Event.entered?_enter c), List.filterMap_nil,
    List.flatMap_singleton] at hNew
  rw [← hBefore.length_eq]
  exact hNew

namespace Makes

variable {x : Binding}

theorem exists_declaration (h : Makes root c x) (hKeys : root.DistinctKeys)
    (hFree : root.FaultFree) :
    ∃ p ∈ c.declarations root, (after root root.events).table.Records p x := by
  obtain ⟨before, rest, hEvents, hx⟩ := h
  exact ScopeTable.exists_mem_of_forall₂ (records_made hKeys hFree hEvents).flip hx

theorem mem_bindings (h : Makes root c x) (hFree : root.FaultFree) :
    x ∈ (after root root.events).table.bindings := by
  obtain ⟨before, rest, hEvents, hx⟩ := h
  have hPrefix := isPrefix_after hFree (hEvents.trans (List.append_cons before ⟨.enter, c⟩ rest))
  exact hPrefix.subset (List.mem_of_mem_drop hx)

end Makes

/-- Every binding of the table is a declaration of some node. -/
theorem exists_declaration_of_mem (hKeys : root.DistinctKeys) (hFree : root.FaultFree) {x : Binding}
    (hx : x ∈ (after root root.events).table.bindings) :
    ∃ c ∈ root.preorder, ∃ p ∈ c.declarations root,
      (after root root.events).table.Records p x := by
  have hRecords := ScopeTable.records_after hKeys hFree (List.append_nil root.events).symm
  rw [Cursor.filterMap_entered?_events] at hRecords
  obtain ⟨p, hp, hRecord⟩ := ScopeTable.exists_mem_of_forall₂ hRecords.flip hx
  obtain ⟨c, hc, hp⟩ := List.mem_flatMap.1 hp
  exact ⟨c, hc, p, hp, hRecord⟩

/-- Every declaration of a node is made. -/
theorem exists_makes (hKeys : root.DistinctKeys) (hFree : root.FaultFree) (hc : c ∈ root.preorder)
    {p : Option Cursor × Declaration} (hp : p ∈ c.declarations root) :
    ∃ x, Makes root c x ∧ (after root root.events).table.Records p x := by
  obtain ⟨before, rest, hEvents, -⟩ := Shape.exists_ready hKeys (Shape.ready_start root) hc
  rw [c.events_eq, List.append_assoc, List.cons_append] at hEvents
  obtain ⟨x, hx, hRecords⟩ := ScopeTable.exists_mem_of_forall₂ (records_made hKeys hFree hEvents) hp
  exact ⟨x, ⟨before, _, hEvents, hx⟩, hRecords⟩

/-- A node makes bindings of the names that it declares. -/
theorem exists_makes_iff (hKeys : root.DistinctKeys) (hFree : root.FaultFree)
    (hc : c ∈ root.preorder) {name : String} :
    (∃ x, Makes root c x ∧ x.name = name) ↔ ∃ p ∈ c.declarations root, p.2.name = name := by
  constructor
  · rintro ⟨x, hx, rfl⟩
    obtain ⟨p, hp, -, hDeclared⟩ := hx.exists_declaration hKeys hFree
    exact ⟨p, hp, congrArg Declaration.name hDeclared.symm⟩
  · rintro ⟨p, hp, rfl⟩
    obtain ⟨x, hx, -, hDeclared⟩ := exists_makes hKeys hFree hc hp
    exact ⟨x, hx, congrArg Declaration.name hDeclared⟩

end ScopeBuilder

/-! Methods belong to classes. -/

namespace Cursor

variable {root c : Cursor} {d : Declaration}

theorem kind_of_mem_named {name : Option String} {kind : BindingKind}
    (hd : d ∈ named name kind c) : d.kind = kind := by
  obtain ⟨_, -, rfl⟩ := List.mem_map.1 hd
  rfl

theorem kind_of_mem_patternDeclarations {kind : BindingKind} {initCallee : Option String}
    (hd : d ∈ c.patternDeclarations kind initCallee) : d.kind = kind := by
  obtain ⟨_, -, rfl⟩ := List.mem_map.1 hd
  rfl

/-- A declarator of one name declares that name, and no method. -/
theorem name_of_declarationOf {name : String} {value : Option Cursor}
    (hd : ScopeStep.declarationOf c name value = .ok d) :
    d.name = name ∧ d.kind.isMethod = false := by
  unfold ScopeStep.declarationOf at hd
  split at hd
  · cases hd
    exact ⟨rfl, rfl⟩
  · split at hd
    · cases hd
      exact ⟨rfl, rfl⟩
    · split at hd
      · obtain ⟨_, -, hd⟩ := exists_of_bind_eq_ok hd
        cases hd
        exact ⟨rfl, rfl⟩
      · split at hd
        · obtain ⟨target, -, hd⟩ := exists_of_bind_eq_ok hd
          cases target with
          | none =>
              obtain ⟨_, -, hd⟩ := exists_of_bind_eq_ok hd
              cases hd
              exact ⟨rfl, rfl⟩
          | some target =>
              cases hd
              exact ⟨rfl, rfl⟩
        · split at hd
          · cases hd
            exact ⟨rfl, rfl⟩
          · cases hd
            exact ⟨rfl, rfl⟩

theorem isMethod_of_mem_declaratorDeclarations (hd : d ∈ c.declaratorDeclarations) :
    d.kind.isMethod = false := by
  unfold declaratorDeclarations at hd
  split at hd
  · cases hd
  · next name _ =>
      split at hd
      · cases hRead : ScopeStep.declarationOf c name.spelling (c.fieldAt "value") with
        | error fault =>
            rw [hRead] at hd
            cases hd
        | ok d' =>
            rw [hRead] at hd
            obtain rfl := List.mem_singleton.1 hd
            exact (name_of_declarationOf hRead).2
      · rw [kind_of_mem_patternDeclarations hd]
        rfl

theorem isMethod_of_mem_importDeclarations (hd : d ∈ c.importDeclarations) :
    d.kind.isMethod = false := by
  obtain ⟨clause, -, hd⟩ := List.mem_flatMap.1 hd
  obtain ⟨part, -, hd⟩ := List.mem_flatMap.1 hd
  unfold importedDeclarations at hd
  split at hd
  · obtain rfl := List.mem_singleton.1 hd
    rfl
  · split at hd
    · obtain ⟨inner, -, hd⟩ := List.mem_flatMap.1 hd
      split at hd
      · obtain rfl := List.mem_singleton.1 hd
        rfl
      · cases hd
    · split at hd
      · obtain ⟨specifier, -, hd⟩ := List.mem_flatMap.1 hd
        split at hd
        · obtain rfl := List.mem_singleton.1 hd
          rfl
        · cases hd
      · cases hd

theorem isMethod_of_mem_innerDeclarations (hd : d ∈ c.innerDeclarations) :
    d.kind.isMethod = false := by
  have hPatterns : ∀ {kind : BindingKind} {patterns : List Cursor}, kind.isMethod = false →
      d ∈ patterns.flatMap (patternDeclarations kind none) → d.kind.isMethod = false := by
    intro kind patterns hKind hd
    obtain ⟨pattern, -, hd⟩ := List.mem_flatMap.1 hd
    rw [kind_of_mem_patternDeclarations hd, hKind]
  unfold innerDeclarations at hd
  split at hd
  · rcases List.mem_append.1 hd with hd | hd
    · split at hd
      · rw [kind_of_mem_named hd]
        rfl
      · cases hd
    · exact hPatterns rfl hd
  · split at hd
    · cases hd
    · split at hd
      · unfold blockDeclarations at hd
        split at hd
        · exact hPatterns rfl hd
        · split at hd
          · exact hPatterns rfl hd
          · cases hd
      · cases hd

/-- A node declares a method around itself only right inside the body of a class. -/
theorem inClass_of_isMethod {inClass : Bool} (hd : d ∈ c.outerDeclarations inClass)
    (hMethod : d.kind.isMethod = true) : inClass = true ∧ c.isHoisted = false := by
  have hDeclarator : c.kind ≠ "variable_declarator" := by
    intro hKind
    rw [(ScopeStep.outerDeclarations_declarator hKind).2] at hd
    rw [isMethod_of_mem_declaratorDeclarations hd] at hMethod
    cases hMethod
  refine ⟨?_, by simp [isHoisted, hDeclarator]⟩
  cases inClass with
  | true => rfl
  | false =>
      exfalso
      unfold outerDeclarations at hd
      simp only [Bool.and_false, Bool.false_eq_true, if_false, hDeclarator] at hd
      split at hd
      · split at hd
        · rw [kind_of_mem_named hd] at hMethod
          cases hMethod
        · cases hd
      · split at hd
        · split at hd
          · cases hd
          · rw [kind_of_mem_named hd] at hMethod
            cases hMethod
        · split at hd
          · cases hd
          · split at hd
            · cases hd
            · split at hd
              · cases hd
              · split at hd
                · rw [isMethod_of_mem_importDeclarations hd] at hMethod
                  cases hMethod
                · cases hd

theorem ownerKind?_of_isMethod {p : Option Cursor × Declaration} (hp : p ∈ c.declarations root)
    (hMethod : p.2.kind.isMethod = true) : ownerKind? p.1 = some .classBody := by
  obtain ⟨hp, -⟩ := List.mem_filter.1 hp
  rcases List.mem_append.1 hp with hp | hp
  · obtain ⟨d, hd, rfl⟩ := List.mem_map.1 hp
    obtain ⟨hClass, hHoisted⟩ := inClass_of_isMethod hd hMethod
    simpa [home?, hHoisted, inClassBody] using hClass
  · split at hp
    · obtain ⟨d, hd, rfl⟩ := List.mem_map.1 hp
      rw [isMethod_of_mem_innerDeclarations hd] at hMethod
      cases hMethod
    · cases hp

end Cursor

/-- The scope of a method is that of a class body. -/
theorem ScopeTable.kind_of_isMethod {root : Cursor} (hKeys : root.DistinctKeys)
    (hFree : root.FaultFree) {x : Binding}
    (hx : x ∈ (ScopeBuilder.after root root.events).table.bindings)
    (hMethod : x.kind.isMethod = true) :
    ((ScopeBuilder.after root root.events).table.scope? x.scope).map (·.kind) =
      some .classBody := by
  obtain ⟨c, -, p, hp, hOwner, hDeclared⟩ :=
    ScopeBuilder.exists_declaration_of_mem hKeys hFree hx
  obtain ⟨-, hLexical, -⟩ := build_sound hKeys hFree
  rw [hLexical.kind_eq hOwner]
  apply Cursor.ownerKind?_of_isMethod hp
  rw [← hDeclared]
  exact hMethod

end HotPath
