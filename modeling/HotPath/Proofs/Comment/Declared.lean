import HotPath.Proofs.Comment.Reading
import HotPath.Proofs.Pattern

/-! What a tree without its comments declares. Comments bind no names, and they do not move the
names of a pattern, because positions are counted by commas. So the same names are declared, for
the same functions. -/

namespace HotPath

/-- What a name is bound to, without comments. -/
def BindingKind.uncommented : BindingKind → BindingKind
  | function target => function target.uncommented
  | method target => method target.uncommented
  | other => other

theorem BindingKind.target?_uncommented (kind : BindingKind) :
    kind.uncommented.target? = kind.target?.map Cursor.uncommented := by
  cases kind <;> rfl

@[simp] theorem BindingKind.isMethod_uncommented (kind : BindingKind) :
    kind.uncommented.isMethod = kind.isMethod := by
  cases kind <;> rfl

@[simp] theorem BindingKind.exported?_uncommented (kind : BindingKind) :
    kind.uncommented.exported? = kind.exported? := by
  cases kind <;> rfl

/-- A declaration without comments. -/
def Declaration.uncommented (d : Declaration) : Declaration :=
  { d with kind := d.kind.uncommented, node := d.node.uncommented }

/-- The names of a pattern without comments. -/
def PatternNames.uncommented (p : PatternNames) : PatternNames :=
  ⟨p.names.map fun n => { n with node := n.node.uncommented }, p.fault⟩

theorem PatternNames.append_uncommented (p q : PatternNames) :
    (p.append q).uncommented = p.uncommented.append q.uncommented := by
  unfold append
  cases hFault : p.fault with
  | some fault => simp [uncommented, hFault]
  | none => simp [uncommented, hFault]

namespace Cursor

variable {root c : Cursor}

/-! Patterns. -/

/-- The patterns inside a pattern that are left, each without its comments. -/
def leftOver (parts : List (Cursor × Option Nat)) : List (Cursor × Option Nat) :=
  (parts.filter (!·.1.isComment)).map fun p => (p.1.uncommented, p.2)

theorem leftOver_map_pair (cs : List Cursor) (index : Option Nat) :
    leftOver (cs.map (·, index)) = ((cs.filter (!·.isComment)).map uncommented).map (·, index) := by
  simp [leftOver, List.filter_map, Function.comp_def]

/-- A comment is no comma and has no position that others would lose. -/
theorem elements_uncommented (i : Nat) (cs : List Cursor) :
    elements i ((cs.filter (!·.isComment)).map uncommented) = leftOver (elements i cs) := by
  fun_induction elements i cs with
  | case1 => rfl
  | case2 i c rest hComma ih =>
      have hComment : c.isComment = false := isComment_eq_false_of_kind (by simp [hComma])
      simp [hComment, elements, hComma, ih]
  | case3 i c rest hComma hNamed ih =>
      cases hComment : c.isComment with
      | true => simpa [hComment, leftOver] using ih
      | false => simpa [hComment, leftOver, elements, hComma, hNamed] using ih
  | case4 i c rest hComma hNamed ih =>
      have hComment : c.isComment = false := by
        rw [Bool.eq_false_iff]
        intro hComment
        simp [NodeInfo.countsAsNamed, (isComment_iff.1 hComment).2.1] at hNamed
      simp [hComment, elements, hComma, hNamed, ih]

theorem subPatterns_uncommented (c : Cursor) (index : Option Nat) :
    c.uncommented.subPatterns index = (c.subPatterns index).map leftOver := by
  unfold subPatterns
  rw [kind_uncommented]
  split
  · next role hRole =>
      have hNonempty : role ≠ "" := by
        have hRoles : ∀ p ∈ patternFields, p.2 ≠ "" := by decide
        obtain ⟨before, after, hMem, -⟩ := List.lookup_eq_some_iff.1 hRole
        exact hRoles (c.kind, role) (by simp [hMem])
      rw [field_uncommented c hNonempty]
      cases hField : c.field role with
      | error fault => rfl
      | ok found =>
          cases found with
          | none => rfl
          | some d => simp [Except.map, leftOver, isComment_eq_false_of_field hNonempty hField]
  · split
    · rw [children_uncommented, elements_uncommented]
      rfl
    · split
      · rw [namedChildren_uncommented, ← leftOver_map_pair]
        rfl
      · rfl

theorem boundNames_of_isComment (h : c.isComment = true) (index : Option Nat) :
    c.boundNames index = ⟨[], none⟩ := by
  have hKind := kind_of_isComment h
  have hField : patternFields.lookup "comment" = none := by decide
  have hParts : c.subPatterns index = .ok [] := by simp [subPatterns, hKind, hField]
  exact boundNames_of_parts (by simp [isPatternName, hKind]) hParts

/-- Comments add no names to those of the patterns around them. -/
theorem concat_leftOver {parts : List (Cursor × Option Nat)}
    (h : ∀ p ∈ parts, p.1.uncommented.boundNames p.2 = (p.1.boundNames p.2).uncommented) :
    PatternNames.concat ((leftOver parts).map fun p => p.1.boundNames p.2) =
      (PatternNames.concat (parts.map fun p => p.1.boundNames p.2)).uncommented := by
  induction parts with
  | nil => rfl
  | cons p rest ih =>
      obtain ⟨hFirst, hRest⟩ := List.forall_mem_cons.1 h
      rw [List.map_cons, PatternNames.concat_cons, PatternNames.append_uncommented, ← ih hRest]
      cases hComment : p.1.isComment with
      | true =>
          rw [boundNames_of_isComment hComment]
          simp [leftOver, hComment, PatternNames.append, PatternNames.uncommented]
      | false => simp [leftOver, hComment, PatternNames.concat_cons, hFirst]

theorem boundNames_uncommented (c : Cursor) (index : Option Nat) :
    c.uncommented.boundNames index = (c.boundNames index).uncommented := by
  induction c using children_induction generalizing index with
  | h c ih =>
      have hSame : c.uncommented.isPatternName = c.isPatternName := by
        simp only [isPatternName, kind_uncommented]
      cases hName : c.isPatternName with
      | true =>
          rw [boundNames, boundNames, if_pos (hSame.trans hName), if_pos hName, text_uncommented]
          cases c.text with
          | error fault => rfl
          | ok name => rfl
      | false =>
          have hParts := c.subPatterns_uncommented index
          cases hInner : c.subPatterns index with
          | error fault =>
              rw [hInner] at hParts
              rw [boundNames_of_error hName hInner, boundNames_of_error (hSame.trans hName) hParts]
              rfl
          | ok parts =>
              rw [hInner] at hParts
              rw [boundNames_of_parts hName hInner, boundNames_of_parts (hSame.trans hName) hParts]
              exact concat_leftOver fun p hp => ih p.1 (mem_children_of_mem_subPatterns hInner hp) _

/-! Declarations. -/

theorem field_of_fieldAt {d : Cursor} {role : String} (h : c.fieldAt role = some d) :
    c.field role = .ok (some d) := getD_toOption_eq_some_iff.1 h

theorem calledName?_uncommented (h : root.PicksNoComment) (hc : c ∈ root.preorder)
    (hCall : c.isCall = true) : c.uncommented.calledName? = c.calledName? := by
  simp only [calledName?, h.calleeName_uncommented hc hCall]

theorem named_uncommented (name : Option String) (kind : BindingKind) (c : Cursor) :
    named name kind.uncommented c.uncommented =
      (named name kind c).map Declaration.uncommented := by
  simp [named, Declaration.uncommented]

theorem patternDeclarations_uncommented (kind : BindingKind) (initCallee : Option String)
    (c : Cursor) :
    c.uncommented.patternDeclarations kind.uncommented initCallee =
      (c.patternDeclarations kind initCallee).map Declaration.uncommented := by
  simp [patternDeclarations, boundNames_uncommented, PatternNames.uncommented,
    Declaration.uncommented]

/-- The parameters that are no comments are the same. -/
theorem parameters_uncommented (c : Cursor) :
    c.uncommented.parameters = (c.parameters.filter (!·.isComment)).map uncommented := by
  unfold parameters
  rw [fieldAt_uncommented c (by decide), fieldAt_uncommented c (by decide)]
  cases c.fieldAt "parameters" with
  | some list => exact list.namedChildren_uncommented
  | none =>
      cases hSingle : c.fieldAt "parameter" with
      | none => rfl
      | some single =>
          simp [isComment_eq_false_of_field (by decide) (field_of_fieldAt hSingle)]

theorem functionDeclarations_uncommented (c : Cursor) :
    c.uncommented.functionDeclarations =
      c.functionDeclarations.map Declaration.uncommented := by
  have hParameters := flatMap_uncommented (f := patternDeclarations .parameter none)
    (g := fun d => (patternDeclarations .parameter none d).map Declaration.uncommented)
    c.parameters
    (fun d _ hComment => by simp [patternDeclarations, boundNames_of_isComment hComment])
    (fun d _ _ => d.patternDeclarations_uncommented .parameter none)
  unfold functionDeclarations
  rw [isFunctionLiteral_uncommented, givenName?_uncommented, parameters_uncommented, hParameters,
    List.map_append, List.map_flatMap]
  congr 1
  split
  · exact named_uncommented _ (.function c) c
  · rfl

theorem blockDeclarations_uncommented (c : Cursor) :
    c.uncommented.blockDeclarations = c.blockDeclarations.map Declaration.uncommented := by
  have hInner : ∀ (role : String) (kind : BindingKind), role ≠ "" →
      (c.uncommented.fieldAt role).toList.flatMap (patternDeclarations kind.uncommented none) =
        ((c.fieldAt role).toList.flatMap (patternDeclarations kind none)).map
          Declaration.uncommented := by
    intro role kind hRole
    rw [fieldAt_uncommented c hRole]
    cases c.fieldAt role with
    | none => rfl
    | some d => simp [patternDeclarations_uncommented]
  have hKind : (c.uncommented.fieldAt "kind").isSome = (c.fieldAt "kind").isSome := by
    rw [fieldAt_uncommented c (by decide), Option.isSome_map]
  unfold blockDeclarations
  rw [kind_uncommented, hKind]
  split
  · exact hInner "parameter" .parameter (by decide)
  · split
    · exact hInner "left" .value (by decide)
    · rfl

/-- A node declares the same names inside. -/
theorem innerDeclarations_uncommented (c : Cursor) :
    c.uncommented.innerDeclarations = c.innerDeclarations.map Declaration.uncommented := by
  unfold innerDeclarations
  rw [isFunction_uncommented, kind_uncommented, functionDeclarations_uncommented,
    blockDeclarations_uncommented]
  split
  · rfl
  · split
    · rfl
    · split <;> rfl

theorem fieldDeclarations_uncommented (c : Cursor) :
    c.uncommented.fieldDeclarations = c.fieldDeclarations.map Declaration.uncommented := by
  unfold fieldDeclarations
  rw [fieldAt_uncommented c (by decide), fieldAt_uncommented c (by decide),
    fieldAt_uncommented c (by decide), ← Option.map_or]
  cases (c.fieldAt "property").or (c.fieldAt "name") with
  | none => rfl
  | some name =>
      cases c.fieldAt "value" with
      | none => rfl
      | some value =>
          simp only [Option.map_some, isFunctionLiteral_uncommented, spelling_uncommented]
          split <;> rfl

/-- Without comments an initializer is judged in the same way. -/
theorem declarationOf_uncommented (h : root.PicksNoComment) (name : String) {value : Option Cursor}
    (hValue : ∀ v, value = some v → v ∈ root.preorder)
    (hJudged : ∀ v, value = some v → ∀ d ∈ v.judged, d.isComment = false) :
    ScopeStep.declarationOf c.uncommented name (value.map uncommented) =
      (ScopeStep.declarationOf c name value).map Declaration.uncommented := by
  cases value with
  | none => rfl
  | some v =>
      have hInner := unwrap_mem_preorder (hValue v rfl)
      obtain ⟨hUnwrap, hHanded⟩ := List.forall_mem_cons.1 (hJudged v rfl)
      unfold ScopeStep.declarationOf
      simp only [Option.map_some, unwrap_uncommented hUnwrap, isFunctionLiteral_uncommented,
        kind_uncommented, text_uncommented, isCall_uncommented]
      split
      · rfl
      split
      · cases v.unwrap.text with
        | error fault => rfl
        | ok other => rfl
      split
      · next hCall =>
          have hName := h.calleeName_uncommented hInner hCall
          rw [wrappedFunction_uncommented hCall hName hHanded, hName]
          cases v.unwrap.wrappedFunction with
          | error fault => rfl
          | ok found =>
              cases found with
              | some target => rfl
              | none =>
                  cases v.unwrap.calleeName with
                  | error fault => rfl
                  | ok callee => rfl
      split <;> rfl

theorem declaratorDeclarations_uncommented (h : root.PicksNoComment) (hc : c ∈ root.preorder)
    (hKind : c.kind = "variable_declarator") :
    c.uncommented.declaratorDeclarations =
      c.declaratorDeclarations.map Declaration.uncommented := by
  have hValue : ∀ v, c.fieldAt "value" = some v → v ∈ root.preorder :=
    fun v hv => mem_preorder_of_field hc (field_of_fieldAt hv)
  have hCallee : initCallee? ((c.fieldAt "value").map uncommented) =
      initCallee? (c.fieldAt "value") := by
    cases hFound : c.fieldAt "value" with
    | none => rfl
    | some v =>
        cases hCall : v.isCall with
        | false => simp [initCallee?, Option.filter, hCall]
        | true =>
            simp [initCallee?, Option.filter, hCall,
              calledName?_uncommented h (hValue v hFound) hCall]
  unfold declaratorDeclarations
  rw [fieldAt_uncommented c (by decide), fieldAt_uncommented c (by decide), hCallee]
  cases hName : c.fieldAt "name" with
  | none => rfl
  | some name =>
      simp only [Option.map_some, kind_uncommented, spelling_uncommented]
      split
      · next hIdentifier =>
          have hJudged : ∀ v, c.fieldAt "value" = some v → ∀ d ∈ v.judged, d.isComment = false :=
            fun v hv d hd => h c hc d (by simp [picked, hKind, hName, hIdentifier, hv, hd])
          rw [declarationOf_uncommented h name.spelling hValue hJudged]
          cases ScopeStep.declarationOf c name.spelling (c.fieldAt "value") with
          | error fault => rfl
          | ok d => rfl
      · exact name.patternDeclarations_uncommented .value _

theorem specifierDeclaration_uncommented (source : Option String) (c : Cursor) :
    c.uncommented.specifierDeclaration source = (c.specifierDeclaration source).uncommented := by
  unfold specifierDeclaration
  rw [fieldText_uncommented c (by decide), fieldAt_uncommented c (by decide), Option.map_map]
  simp [Declaration.uncommented, BindingKind.uncommented, Function.comp_def]

theorem importedDeclarations_uncommented (source : Option String) (c : Cursor) :
    c.uncommented.importedDeclarations source =
      (c.importedDeclarations source).map Declaration.uncommented := by
  unfold importedDeclarations
  rw [kind_uncommented, spelling_uncommented, namedChildren_uncommented]
  split
  · rfl
  split
  · rw [List.map_flatMap]
    apply flatMap_uncommented
    · intro d _ hComment
      simp [kind_of_isComment hComment]
    · intro d _ _
      rw [kind_uncommented, spelling_uncommented]
      split <;> rfl
  split
  · rw [List.map_flatMap]
    apply flatMap_uncommented
    · intro d _ hComment
      simp [kind_of_isComment hComment]
    · intro d _ _
      rw [kind_uncommented, specifierDeclaration_uncommented]
      split <;> rfl
  · rfl

theorem importDeclarations_uncommented (c : Cursor) :
    c.uncommented.importDeclarations = c.importDeclarations.map Declaration.uncommented := by
  have hClause := find?_uncommented (p := fun d => d.kind = "import_clause") c.namedChildren
    (fun d _ hComment => by simp [kind_of_isComment hComment]) (fun d _ => by simp)
  unfold importDeclarations
  rw [fieldAt_uncommented c (by decide), namedChildren_uncommented, hClause, Option.map_map]
  simp only [Function.comp_def, spelling_uncommented]
  cases c.namedChildren.find? (·.kind = "import_clause") with
  | none => rfl
  | some clause =>
      simp only [Option.map_some, Option.toList_some, List.flatMap_singleton,
        namedChildren_uncommented, List.map_flatMap]
      apply flatMap_uncommented
      · intro d _ hComment
        simp [importedDeclarations, kind_of_isComment hComment]
      · exact fun d _ _ => d.importedDeclarations_uncommented _

/-- A node declares the same names around itself. -/
theorem outerDeclarations_uncommented (h : root.PicksNoComment) (hc : c ∈ root.preorder)
    (inClass : Bool) :
    c.uncommented.outerDeclarations inClass =
      (c.outerDeclarations inClass).map Declaration.uncommented := by
  unfold outerDeclarations
  rw [isFunction_uncommented, kind_uncommented, givenName?_uncommented,
    fieldDeclarations_uncommented, importDeclarations_uncommented]
  have hNamed := fun kind => (named_uncommented c.givenName? kind c)
  -- The branches are the same on both sides.
  split
  · split
    · exact hNamed (.function c)
    · split
      · exact hNamed (.method c)
      · rfl
  split
  · split
    · rfl
    · exact hNamed .classDefinition
  split
  · rfl
  split
  · split <;> rfl
  split
  · rfl
  split
  · next hKind => exact declaratorDeclarations_uncommented h hc hKind
  split <;> rfl

end Cursor

end HotPath
