import HotPath.Proofs.Scope.Declared

/-! The handlers of the scope walk in a tree without faults. Each of them declares what the text
says, around its node and inside. -/

namespace HotPath.ScopeStep

open Cursor ScopeBuilder

variable {root c : Cursor}

theorem yields_top (b : ScopeBuilder) : top.Yields b b.top b :=
  (Task.Yields.getState b).bind (.pure b.top b)

theorem yields_topKind? (b : ScopeBuilder) : topKind?.Yields b b.topKind? b :=
  (Task.Yields.getState b).bind (.pure b.topKind? b)

theorem yields_declare (n : Nat) (d : Declaration) (b : ScopeBuilder) :
    (declare n d).Yields b () (b.declareAll n [d]) := .update _ b

theorem yields_declareNamed (n : Nat) (name : Option String) (kind : BindingKind) (node : Cursor)
    (b : ScopeBuilder) :
    (declareNamed n name kind node).Yields b () (b.declareAll n (named name kind node)) := by
  cases name with
  | none => exact .pure () b
  | some name => exact yields_declare n _ b

/-- Steps that each make some declarations make all of them in order. -/
theorem yields_each {α : Type} {n : Nat} {f : α → ScopeStep Unit} {ds : α → List Declaration}
    {l : List α} (h : ∀ a ∈ l, ∀ b, (f a).Yields b () (b.declareAll n (ds a)))
    (b : ScopeBuilder) : (Task.each f l).Yields b () (b.declareAll n (l.flatMap ds)) := by
  rw [← foldl_declareAll]
  exact Task.Yields.each h b

theorem yields_declarePattern (hFree : root.FaultFree) {pattern : Cursor}
    (hPattern : pattern ∈ root.preorder) (n : Nat) (kind : BindingKind)
    (initCallee : Option String) (b : ScopeBuilder) :
    (declarePattern n kind initCallee pattern).Yields b ()
      (b.declareAll n (pattern.patternDeclarations kind initCallee)) := by
  have hNames : (Task.each (fun p => declare n
      { name := p.name, kind, node := p.node, initCallee, patternIndex := p.index })
      (pattern.boundNames none).names).Yields b ()
      (b.declareAll n (pattern.patternDeclarations kind initCallee)) := by
    rw [declareAll, patternDeclarations, List.foldl_map]
    exact Task.Yields.each (fun p _ b => .update _ b) b
  apply hNames.bind
  rw [hFree.boundNames_fault hPattern none]
  exact .pure () _

theorem yields_enterClass (hFree : root.FaultFree) (hc : c ∈ root.preorder) (b : ScopeBuilder) :
    (enterClass c).Yields b () (b.declareAll b.top
      (if c.kind = "class" then [] else named c.givenName? .classDefinition c)) := by
  apply Task.Yields.read (hFree.declaredName_eq hc)
  split
  · exact .pure () b
  · exact (yields_top b).bind (yields_declareNamed b.top _ _ c b)

theorem yields_declareField (hFree : root.FaultFree) (hc : c ∈ root.preorder)
    {name : Option Cursor} (hName : ∀ n, name = some n → n ∈ root.preorder)
    (hFound : (c.fieldAt "property").or (c.fieldAt "name") = name) (b : ScopeBuilder) :
    (declareField name c).Yields b () (b.declareAll b.top c.fieldDeclarations) := by
  apply Task.Yields.read (hFree.field_eq hc "value")
  unfold fieldDeclarations
  rw [hFound]
  cases name with
  | none => exact .pure () b
  | some n =>
      cases c.fieldAt "value" with
      | none => exact .pure () b
      | some value =>
          simp only
          split
          · apply (yields_top b).bind
            apply Task.Yields.read (hFree.text_eq (hName n rfl))
            exact yields_declare _ _ b
          · exact .pure () b

theorem yields_enterField (hFree : root.FaultFree) (hc : c ∈ root.preorder) (b : ScopeBuilder) :
    (enterField c).Yields b () (b.declareAll b.top
      (if b.topKind? = some .classBody then c.fieldDeclarations else [])) := by
  apply (yields_topKind? b).bind
  by_cases hClass : b.topKind? = some .classBody
  · rw [if_pos hClass, if_neg (not_not_intro hClass)]
    apply Task.Yields.read (hFree.field_eq hc "property")
    cases hProperty : c.fieldAt "property" with
    | some property =>
        apply yields_declareField hFree hc
        · rintro n ⟨⟩
          exact hFree.mem_of_fieldAt hc hProperty
        · rw [hProperty]
          rfl
    | none =>
        apply Task.Yields.read (hFree.field_eq hc "name")
        apply yields_declareField hFree hc
        · exact fun n hn => hFree.mem_of_fieldAt hc hn
        · rw [hProperty]
          rfl
  · rw [if_neg hClass, if_pos hClass]
    exact .pure () b

theorem yields_declaratorScope (hKind : c.kind = "variable_declarator") (b : ScopeBuilder) :
    (declaratorScope c).Yields b (b.home c) b := by
  apply (yields_top b).bind
  unfold home isHoisted
  rw [hKind, beq_self_eq_true, Bool.true_and]
  split
  · exact (Task.Yields.getState b).bind (.pure _ b)
  · exact .pure _ b

theorem yields_enterDeclarator (hFree : root.FaultFree) (hc : c ∈ root.preorder)
    (hKind : c.kind = "variable_declarator") (b : ScopeBuilder) :
    (enterDeclarator c).Yields b () (b.declareAll (b.home c) c.declaratorDeclarations) := by
  apply Task.Yields.read (hFree.field_eq hc "name")
  unfold declaratorDeclarations
  cases hName : c.fieldAt "name" with
  | none => exact .pure () b
  | some name =>
      have hMem := hFree.mem_of_fieldAt hc hName
      have hValue : ∀ v, c.fieldAt "value" = some v → v ∈ root.preorder :=
        fun v hv => hFree.mem_of_fieldAt hc hv
      apply Task.Yields.read (hFree.field_eq hc "value")
      apply (yields_declaratorScope hKind b).bind
      simp only
      split
      · apply Task.Yields.read (hFree.text_eq hMem)
        obtain ⟨d, hd⟩ := (failsOnly_declarationOf (c := c) hFree name.spelling hValue).exists_ok
        apply Task.Yields.read hd
        rw [hd]
        exact yields_declare _ d b
      · cases hInit : c.fieldAt "value" with
        | none => exact yields_declarePattern hFree hMem _ .value none b
        | some v =>
            simp only
            by_cases hCall : v.isCall = true
            · rw [if_pos hCall, initCallee?, Option.filter_some, if_pos hCall]
              apply Task.Yields.read (hFree.calleeName_eq (hValue v hInit))
              exact yields_declarePattern hFree hMem _ .value _ b
            · rw [if_neg hCall, initCallee?, Option.filter_some, if_neg hCall]
              exact yields_declarePattern hFree hMem _ .value none b

theorem yields_declareImported (hFree : root.FaultFree) {part : Cursor}
    (hPart : part ∈ root.preorder) (n : Nat) (source : Option String) (b : ScopeBuilder) :
    (declareImported n source part).Yields b ()
      (b.declareAll n (part.importedDeclarations source)) := by
  unfold declareImported importedDeclarations
  apply Task.Yields.ite
  · intro hKind
    rw [if_pos hKind]
    apply Task.Yields.read (hFree.text_eq hPart)
    exact yields_declare n _ b
  intro hKind
  rw [if_neg hKind]
  apply Task.Yields.ite
  · intro hKind
    rw [if_pos hKind]
    apply yields_each
    intro inner hInner b
    split
    · apply Task.Yields.read (hFree.text_eq (mem_preorder_of_mem_namedChildren hPart hInner))
      exact yields_declare n _ b
    · exact .pure () b
  intro hKind
  rw [if_neg hKind]
  apply Task.Yields.ite
  · intro hKind
    rw [if_pos hKind]
    apply yields_each
    intro specifier hSpecifier b
    have hMem := mem_preorder_of_mem_namedChildren hPart hSpecifier
    split
    · apply Task.Yields.read (hFree.fieldText_eq hMem "name")
      apply Task.Yields.read (hFree.field_eq hMem "alias")
      unfold specifierDeclaration
      cases hAlias : specifier.fieldAt "alias" with
      | none => exact yields_declare n _ b
      | some other =>
          apply Task.Yields.read (hFree.text_eq (hFree.mem_of_fieldAt hMem hAlias))
          exact yields_declare n _ b
    · exact .pure () b
  · intro hKind
    rw [if_neg hKind]
    exact .pure () b

theorem yields_declareImports (hFree : root.FaultFree) (hc : c ∈ root.preorder)
    (source : Option String) (b : ScopeBuilder) :
    (declareImports source c).Yields b () (b.declareAll b.top
      ((c.namedChildren.find? (·.kind = "import_clause")).toList.flatMap fun clause =>
        clause.namedChildren.flatMap (importedDeclarations source))) := by
  apply (yields_top b).bind
  cases hClause : c.namedChildren.find? (·.kind = "import_clause") with
  | none => exact .pure () b
  | some clause =>
      have hMem := mem_preorder_of_mem_namedChildren hc (List.mem_of_find?_eq_some hClause)
      simp only [Option.toList_some, List.flatMap_singleton]
      apply yields_each
      intro part hPart
      exact yields_declareImported hFree (mem_preorder_of_mem_namedChildren hMem hPart) _ source

theorem yields_enterImport (hFree : root.FaultFree) (hc : c ∈ root.preorder) (b : ScopeBuilder) :
    (enterImport c).Yields b () (b.declareAll b.top c.importDeclarations) := by
  apply Task.Yields.read (hFree.field_eq hc "source")
  unfold importDeclarations
  cases hSource : c.fieldAt "source" with
  | none => exact (Task.Yields.pure none b).bind (yields_declareImports hFree hc none b)
  | some source =>
      rw [Option.map_some]
      apply Task.Yields.read (hFree.text_eq (hFree.mem_of_fieldAt hc hSource))
      exact (Task.Yields.pure (some (stripQuotes source.spelling)) b).bind
        (yields_declareImports hFree hc _ b)

theorem yields_declareParameters (hFree : root.FaultFree) (hc : c ∈ root.preorder) (n : Nat)
    (b : ScopeBuilder) :
    (declareParameters n c).Yields b ()
      (b.declareAll n (c.parameters.flatMap (patternDeclarations .parameter none))) := by
  apply Task.Yields.read (hFree.field_eq hc "parameters")
  unfold parameters
  cases hList : c.fieldAt "parameters" with
  | some list =>
      apply yields_each
      intro pattern hPattern
      exact yields_declarePattern hFree (mem_preorder_of_mem_namedChildren
        (hFree.mem_of_fieldAt hc hList) hPattern) n .parameter none
  | none =>
      apply Task.Yields.read (hFree.field_eq hc "parameter")
      cases hSingle : c.fieldAt "parameter" with
      | none => exact .pure () b
      | some single =>
          simp only [Option.toList_some, List.flatMap_singleton]
          exact yields_declarePattern hFree (hFree.mem_of_fieldAt hc hSingle) n .parameter none b

theorem yields_enterBlock (hFree : root.FaultFree) (hc : c ∈ root.preorder) (b : ScopeBuilder) :
    (enterBlock c).Yields b () (if isFunctionBody c then b
      else (b.push .block c).declareAll b.table.scopes.length c.blockDeclarations) := by
  unfold enterBlock
  by_cases hBody : isFunctionBody c = true
  · rw [if_pos hBody, if_pos hBody]
    exact .pure () b
  rw [if_neg hBody, if_neg hBody]
  apply (Task.Yields.update (·.push .block c) b).bind
  apply (yields_top _).bind
  unfold blockDeclarations
  split
  · apply Task.Yields.read (hFree.field_eq hc "parameter")
    cases hParameter : c.fieldAt "parameter" with
    | none => exact .pure () _
    | some parameter =>
        simp only [Option.toList_some, List.flatMap_singleton]
        exact yields_declarePattern hFree (hFree.mem_of_fieldAt hc hParameter) _ .parameter none _
  · split
    · next hKind =>
        apply Task.Yields.read (hFree.field_eq hc "left")
        cases hLeft : c.fieldAt "left" with
        | none =>
            simp only [Option.toList_none, List.flatMap_nil, ite_self]
            exact .pure () _
        | some left =>
            apply Task.Yields.read (hFree.field_eq hc "kind")
            cases c.fieldAt "kind" with
            | none =>
                simp only [Option.isSome_none, Bool.and_false, Bool.false_eq_true, if_false]
                exact .pure () _
            | some _ =>
                simp only [hKind, Option.isSome_some, decide_true, Bool.and_self, if_true,
                  Option.toList_some, List.flatMap_singleton]
                exact yields_declarePattern hFree (hFree.mem_of_fieldAt hc hLeft) _ .value none _
    · next hKind =>
        simp only [hKind, decide_false, Bool.false_and, Bool.false_eq_true, if_false]
        exact .pure () _

theorem yields_insideFunction (hFree : root.FaultFree) (hc : c ∈ root.preorder)
    (b : ScopeBuilder) : Task.Yields (do
      push .function c
      let inside ← top
      if c.isFunctionLiteral then declareNamed inside c.givenName? (.function c) c
      declareParameters inside c) b ()
      ((b.push .function c).declareAll b.table.scopes.length c.functionDeclarations) := by
  apply (Task.Yields.update (·.push .function c) b).bind
  apply (yields_top _).bind
  unfold functionDeclarations
  rw [declareAll_append]
  apply Task.Yields.ite
  · intro hLiteral
    rw [if_pos hLiteral]
    exact (yields_declareNamed _ _ _ c _).bind (yields_declareParameters hFree hc _ _)
  · intro hLiteral
    rw [if_neg hLiteral]
    exact yields_declareParameters hFree hc _ _

theorem yields_enterFunction (hFree : root.FaultFree) (hc : c ∈ root.preorder)
    (hFunction : c.isFunction = true) {b b' : ScopeBuilder}
    (hb' : b' = b.declareAll b.top (c.outerDeclarations (b.topKind? = some .classBody))) :
    (enterFunction c).Yields b ()
      ((b'.push .function c).declareAll b'.table.scopes.length c.functionDeclarations) := by
  have hInside := yields_insideFunction hFree hc b'
  unfold outerDeclarations at hb'
  rw [if_pos hFunction] at hb'
  apply Task.Yields.read (hFree.declaredName_eq hc)
  apply (yields_top b).bind
  -- The ways through the handler differ only in what is declared before the scope is opened.
  apply Task.Yields.ite
  · intro hKind
    rw [if_pos hKind] at hb'
    exact (hb' ▸ yields_declareNamed b.top _ _ c b).bind hInside
  · intro hKind
    rw [if_neg hKind] at hb'
    apply (yields_topKind? b).bind
    apply Task.Yields.ite
    · intro hMethod
      rw [if_pos (by simpa using hMethod)] at hb'
      exact (hb' ▸ yields_declareNamed b.top _ _ c b).bind hInside
    · intro hMethod
      rw [if_neg (by simpa using hMethod)] at hb'
      exact hb' ▸ hInside

/-! What entering a node of each kind makes of a table. -/

theorem kind_ne_of_contains {kinds : List String} {kind other : String}
    (hKind : kinds.contains kind = true) (hOther : kinds.contains other = false) :
    kind ≠ other := by
  rintro rfl
  rw [hKind] at hOther
  cases hOther

theorem entered_of_shares (hOpens : c.opens? = none) (b : ScopeBuilder) :
    b.entered c =
      b.declareAll (b.home c) (c.outerDeclarations (b.topKind? = some .classBody)) := by
  rw [entered, hOpens]

theorem entered_of_own {kind : ScopeKind} (hOpens : c.opens? = some kind)
    (hOuter : ∀ inClass, c.outerDeclarations inClass = []) (b : ScopeBuilder) :
    b.entered c = (b.push kind c).declareAll b.table.scopes.length c.innerDeclarations := by
  rw [entered, hOpens, hOuter, declareAll_nil]

theorem entered_function (hFree : root.FaultFree) (hc : c ∈ root.preorder)
    (hFunction : c.isFunction = true) {b b' : ScopeBuilder}
    (hb' : b' = b.declareAll b.top (c.outerDeclarations (b.topKind? = some .classBody))) :
    b.entered c =
      (b'.push .function c).declareAll b'.table.scopes.length c.functionDeclarations := by
  have hOpens : c.opens? = some .function := by
    rw [opens?_of_isFunction hFunction, hFree.declaredName_eq hc]
    rfl
  rw [entered, hOpens, home_of_other (kind_ne_of_contains hFunction (by decide)),
    innerDeclarations, if_pos hFunction, ← hb']

theorem entered_class (hFunction : c.isFunction = false)
    (hClass : classKinds.contains c.kind = true) (b : ScopeBuilder) :
    b.entered c = b.declareAll b.top
      (if c.kind = "class" then [] else named c.givenName? .classDefinition c) := by
  obtain ⟨hBlock, hBody⟩ := kind_of_mem_classKinds hClass
  rw [entered_of_shares (opens?_of_other hFunction hBlock hBody),
    home_of_other (kind_ne_of_contains hClass (by decide)), outerDeclarations, hFunction,
    if_neg Bool.false_ne_true, if_pos hClass]

theorem entered_block (hFunction : c.isFunction = false)
    (hClass : classKinds.contains c.kind = false) (hBlock : blockKinds.contains c.kind = true)
    (b : ScopeBuilder) :
    b.entered c = if isFunctionBody c then b
      else (b.push .block c).declareAll b.table.scopes.length c.blockDeclarations := by
  have hOpens := opens?_of_block hFunction hBlock
  have hOuter : ∀ inClass, c.outerDeclarations inClass = [] := by
    intro inClass
    simp only [outerDeclarations, hFunction, hClass, hBlock, Bool.false_eq_true, if_false, if_true]
  cases hBody : isFunctionBody c with
  | true =>
      rw [hBody, if_pos rfl] at hOpens
      rw [if_pos rfl, entered_of_shares hOpens, hOuter, declareAll_nil]
  | false =>
      rw [hBody, if_neg Bool.false_ne_true] at hOpens
      rw [if_neg Bool.false_ne_true, entered_of_own hOpens hOuter, innerDeclarations, hFunction,
        hClass, hBlock]
      rfl

theorem entered_field (hFunction : c.isFunction = false)
    (hClass : classKinds.contains c.kind = false) (hBlock : blockKinds.contains c.kind = false)
    (hField : fieldKinds.contains c.kind = true) (b : ScopeBuilder) :
    b.entered c = b.declareAll b.top
      (if b.topKind? = some .classBody then c.fieldDeclarations else []) := by
  rw [entered_of_shares (opens?_of_other hFunction hBlock (kind_of_mem_fieldKinds hField)),
    home_of_other (kind_ne_of_contains hField (by decide)), outerDeclarations]
  simp only [hFunction, hClass, hBlock, hField, Bool.false_eq_true, if_false, if_true,
    decide_eq_true_eq]

theorem contains_of_kind {kinds : List String} {kind : String} (hKind : c.kind = kind)
    (hOther : kinds.contains kind = false) : ¬ kinds.contains c.kind = true := by
  rw [hKind, hOther]
  exact Bool.false_ne_true

theorem entered_classBody (hKind : c.kind = "class_body") (b : ScopeBuilder) :
    b.entered c = b.push .classBody c := by
  have hFunction : ¬ c.isFunction = true := contains_of_kind hKind (by decide)
  have hClass : ¬ classKinds.contains c.kind = true := contains_of_kind hKind (by decide)
  have hBlock : ¬ blockKinds.contains c.kind = true := contains_of_kind hKind (by decide)
  have hField : ¬ fieldKinds.contains c.kind = true := contains_of_kind hKind (by decide)
  have hOpens : c.opens? = some .classBody := by
    rw [Cursor.opens?, if_neg hFunction, if_pos hKind]
  have hOuter : ∀ inClass, c.outerDeclarations inClass = [] := by
    intro inClass
    rw [outerDeclarations, if_neg hFunction, if_neg hClass, if_neg hBlock, if_neg hField,
      if_pos hKind]
  rw [entered_of_own hOpens hOuter, innerDeclarations, if_neg hFunction, if_neg hClass,
    if_neg hBlock, declareAll_nil]

/-- A node of a kind that opens no scope and is no function, class or field. -/
theorem outerDeclarations_of_plain {kind : String} (hKind : c.kind = kind)
    (hPlain : ∀ kinds ∈ [functionKinds, classKinds, blockKinds, fieldKinds],
      kinds.contains kind = false) (hBody : kind ≠ "class_body") :
    c.opens? = none ∧ ∀ inClass, c.outerDeclarations inClass =
      if c.kind = "variable_declarator" then c.declaratorDeclarations
      else if c.kind = "import_statement" then c.importDeclarations else [] := by
  have hFunction : ¬ c.isFunction = true := contains_of_kind hKind (hPlain _ (by simp))
  have hClass : ¬ classKinds.contains c.kind = true := contains_of_kind hKind (hPlain _ (by simp))
  have hBlock : ¬ blockKinds.contains c.kind = true := contains_of_kind hKind (hPlain _ (by simp))
  have hField : ¬ fieldKinds.contains c.kind = true := contains_of_kind hKind (hPlain _ (by simp))
  rw [← hKind] at hBody
  refine ⟨opens?_of_other (Bool.eq_false_iff.2 hFunction) (Bool.eq_false_iff.2 hBlock) hBody,
    fun inClass => ?_⟩
  rw [outerDeclarations, if_neg hFunction, if_neg hClass, if_neg hBlock, if_neg hField,
    if_neg hBody]

/-- A declarator opens no scope. -/
theorem outerDeclarations_declarator (hKind : c.kind = "variable_declarator") :
    c.opens? = none ∧ ∀ inClass, c.outerDeclarations inClass = c.declaratorDeclarations := by
  simpa [hKind] using outerDeclarations_of_plain hKind (by decide) (by decide)

theorem entered_of_plain {kind : String} (hKind : c.kind = kind)
    (hPlain : ∀ kinds ∈ [functionKinds, classKinds, blockKinds, fieldKinds],
      kinds.contains kind = false) (hBody : kind ≠ "class_body") (b : ScopeBuilder) :
    b.entered c = b.declareAll (b.home c)
      (if c.kind = "variable_declarator" then c.declaratorDeclarations
        else if c.kind = "import_statement" then c.importDeclarations else []) := by
  obtain ⟨hOpens, hOuter⟩ := outerDeclarations_of_plain hKind hPlain hBody
  rw [entered_of_shares hOpens, hOuter]

theorem entered_declarator (hKind : c.kind = "variable_declarator") (b : ScopeBuilder) :
    b.entered c = b.declareAll (b.home c) c.declaratorDeclarations := by
  rw [entered_of_plain hKind (by decide) (by decide), if_pos hKind]

theorem entered_import (hKind : c.kind = "import_statement") (b : ScopeBuilder) :
    b.entered c = b.declareAll b.top c.importDeclarations := by
  have hOther : c.kind ≠ "variable_declarator" := by
    rw [hKind]
    decide
  rw [entered_of_plain hKind (by decide) (by decide), if_neg hOther, if_pos hKind,
    home_of_other hOther]

/-- A node without a handler changes nothing. -/
theorem entered_of_enter_none (h : enter c.kind = none) (b : ScopeBuilder) : b.entered c = b := by
  rw [entered_of_shares (opens?_of_enter_none h)]
  simp only [enter, ite_eq_iff, reduceCtorEq, and_false, and_true, false_or] at h
  obtain ⟨hFunction, hClass, hBlock, hField, hBody, hDeclarator, hImport⟩ := h
  rw [outerDeclarations, Cursor.isFunction, if_neg hFunction, if_neg hClass, if_neg hBlock,
    if_neg hField, if_neg hBody, if_neg hDeclarator, if_neg hImport, declareAll_nil]

/-- Each handler declares what the text says and opens the scope that its node is said to open. -/
theorem yields_enter (hFree : root.FaultFree) (hc : c ∈ root.preorder)
    {handler : Cursor → ScopeStep Unit} (hHandler : enter c.kind = some handler)
    (b : ScopeBuilder) : (handler c).Yields b () (b.entered c) := by
  -- The cases follow the order in which a handler is chosen.
  unfold enter at hHandler
  rw [← Cursor.isFunction] at hHandler
  by_cases hFunction : c.isFunction = true
  · rw [if_pos hFunction] at hHandler
    cases hHandler
    rw [entered_function hFree hc hFunction rfl]
    exact yields_enterFunction hFree hc hFunction rfl
  rw [if_neg hFunction] at hHandler
  rw [Bool.not_eq_true] at hFunction
  by_cases hClass : classKinds.contains c.kind = true
  · rw [if_pos hClass] at hHandler
    cases hHandler
    rw [entered_class hFunction hClass]
    exact yields_enterClass hFree hc b
  rw [if_neg hClass] at hHandler
  rw [Bool.not_eq_true] at hClass
  by_cases hBlock : blockKinds.contains c.kind = true
  · rw [if_pos hBlock] at hHandler
    cases hHandler
    rw [entered_block hFunction hClass hBlock]
    exact yields_enterBlock hFree hc b
  rw [if_neg hBlock] at hHandler
  rw [Bool.not_eq_true] at hBlock
  by_cases hField : fieldKinds.contains c.kind = true
  · rw [if_pos hField] at hHandler
    cases hHandler
    rw [entered_field hFunction hClass hBlock hField]
    exact yields_enterField hFree hc b
  rw [if_neg hField] at hHandler
  split at hHandler
  · next hKind =>
      cases hHandler
      rw [entered_classBody hKind]
      exact .update _ b
  · split at hHandler
    · next hKind =>
        cases hHandler
        rw [entered_declarator hKind]
        exact yields_enterDeclarator hFree hc hKind b
    · split at hHandler
      · next hKind =>
          cases hHandler
          rw [entered_import hKind]
          exact yields_enterImport hFree hc b
      · cases hHandler

theorem yields_dispatch {e : Event} {handler : Cursor → ScopeStep Unit} {b b' : ScopeBuilder}
    (h : (handler e.cursor).Yields b () b') :
    (Task.each (Handlers.dispatch · e) [handler]).Yields b () b' :=
  (h.absorb () _).bind (.pure () b')

theorem yields_handle (hFree : root.FaultFree) {e : Event} (he : e.cursor ∈ root.preorder)
    (b : ScopeBuilder) : (handlers.handle e).Yields b () (b.step e) := by
  obtain ⟨phase, c⟩ := e
  unfold Handlers.handle Handlers.handlersAt
  cases phase with
  | enter =>
      have hPlace : ∀ b : ScopeBuilder, (Task.each (Handlers.dispatch · ⟨.enter, c⟩)
          [fun c => Task.update (ScopeBuilder.place c)]).Yields b () (b.place c) :=
        fun b => yields_dispatch (.update _ b)
      change (Task.each _ ((enter c.kind).toList ++ [_])).Yields b () ((b.entered c).place c)
      cases hEnter : enter c.kind with
      | none =>
          rw [entered_of_enter_none hEnter]
          exact hPlace b
      | some handler =>
          exact ((yields_enter hFree he hEnter b).absorb () _).bind (hPlace _)
  | leave =>
      change (Task.each _ (leave c.kind).toList).Yields b ()
        (if closesScope c.kind then b.pop c else b)
      unfold leave
      split
      · exact yields_dispatch (.update _ b)
      · exact .pure () b

/-- In a tree without faults the table after some events is what their steps make of it. -/
theorem after_eq_foldl (hFree : root.FaultFree) {es : List Event}
    (hes : ∀ e ∈ es, e.cursor ∈ root.preorder) :
    after root es = es.foldl ScopeBuilder.step (start .empty root) :=
  (Task.Yields.each (fun e he b => yields_handle hFree (hes e he) b) _).state

theorem after_concat (hFree : root.FaultFree) {es : List Event} {e : Event}
    (hes : ∀ e' ∈ es ++ [e], e'.cursor ∈ root.preorder) :
    after root (es ++ [e]) = (after root es).step e := by
  rw [after_eq_foldl hFree hes, after_eq_foldl hFree fun e' he' =>
    hes e' (List.mem_append_left [e] he'), List.foldl_append]
  rfl

end HotPath.ScopeStep
