import HotPath.Hazard
import HotPath.Proofs.Comment.Removal

/-! Reading a tree without its comments. A comment can change what is read only where a node is
picked by its position among others, or where nodes are counted: in front of a value that stands in
wrappers, inside the parentheses of a callee, in front of the function that a wrapping call returns,
and in front of the parts of an attribute. Where no comment stands in such a place, everything is
read as before. -/

namespace HotPath

namespace Cursor

variable {root c : Cursor}

/-- The first argument of a call that returns the function handed to it. -/
def handed (c : Cursor) : List Cursor :=
  if c.isCall && c.calledName?.any functionWrappers.contains then
    ((c.fieldAt "arguments").toList.flatMap (·.namedChildren)).take 1
  else []

/-- What an initializer is judged by: the value inside the wrappers around it, and what is handed to
that value if it is a call. -/
def judged (value : Cursor) : List Cursor := value.unwrap :: value.unwrap.handed

/-- The nodes that are picked by their position, or counted, when a node is read: for a declarator
of one name, for a call of a callee in parentheses, and for an attribute. -/
def picked (c : Cursor) : List Cursor :=
  (if c.kind = "variable_declarator" && (c.fieldAt "name").any (·.kind = "identifier") then
    (c.fieldAt "value").toList.flatMap judged
  else []) ++
  (if c.isCall then
    ((c.fieldAt "function").filter (·.kind = "parenthesized_expression")).toList.flatMap
      (·.namedChildren)
  else []) ++
  (if c.kind = "jsx_attribute" then c.namedChildren.take 2 else [])

/-- No comment of the tree is picked or counted in the place of another node. -/
def PicksNoComment (root : Cursor) : Prop :=
  ∀ c ∈ root.preorder, ∀ d ∈ c.picked, d.isComment = false

instance (root : Cursor) : Decidable root.PicksNoComment :=
  inferInstanceAs (Decidable (∀ c ∈ root.preorder, ∀ d ∈ c.picked, d.isComment = false))

theorem fieldText_uncommented (c : Cursor) {role : String} (hRole : role ≠ "") :
    c.uncommented.fieldText role = c.fieldText role := by
  unfold fieldText
  rw [field_uncommented c hRole]
  cases c.field role with
  | error fault => rfl
  | ok found =>
      cases found with
      | none => rfl
      | some d => exact d.text_uncommented

@[simp] theorem declaredName_uncommented (c : Cursor) :
    c.uncommented.declaredName = c.declaredName := by
  unfold declaredName
  rw [fieldText_uncommented c (by decide)]

@[simp] theorem givenName?_uncommented (c : Cursor) :
    c.uncommented.givenName? = c.givenName? := by
  simp only [givenName?, declaredName_uncommented]

@[simp] theorem literalLabel_uncommented (c : Cursor) :
    c.uncommented.literalLabel = c.literalLabel := by
  unfold literalLabel
  rw [kind_uncommented, fieldText_uncommented c (by decide)]

@[simp] theorem opens?_uncommented (c : Cursor) : c.uncommented.opens? = c.opens? := by
  have hParent : (c.uncommented.parent?.any (·.isFunction)) = c.parent?.any (·.isFunction) := by
    rw [parent?_uncommented]
    cases c.parent? with
    | none => rfl
    | some p => exact p.isFunction_uncommented
  simp only [opens?, isFunction_uncommented, declaredName_uncommented, kind_uncommented, hParent]

@[simp] theorem isHoisted_uncommented (c : Cursor) : c.uncommented.isHoisted = c.isHoisted := by
  have hParent : (c.uncommented.parent?.any (·.kind = "variable_declaration")) =
      c.parent?.any (·.kind = "variable_declaration") := by
    rw [parent?_uncommented]
    cases c.parent? with
    | none => rfl
    | some p => simp
  simp only [isHoisted, kind_uncommented, hParent]

theorem nameOfCallee_uncommented (c : Cursor) :
    nameOfCallee c.uncommented = nameOfCallee c := by
  unfold nameOfCallee
  rw [kind_uncommented, text_uncommented, field_uncommented c (by decide)]
  cases c.field "property" with
  | error fault => rfl
  | ok found =>
      cases found with
      | none => rfl
      | some p =>
          simp only [Except.map, Option.map_some, bind, Except.bind, kind_uncommented,
            text_uncommented]

/-- The parentheses around a callee hold the same, unless there is a comment among it. -/
theorem bareCallee_uncommented
    (h : c.kind = "parenthesized_expression" → ∀ d ∈ c.namedChildren, d.isComment = false) :
    bareCallee c.uncommented = (bareCallee c).map uncommented := by
  unfold bareCallee
  rw [kind_uncommented]
  split
  · next hKind =>
      rw [namedChildren_uncommented, List.filter_eq_self.2 (by simpa using h hKind)]
      match c.namedChildren with
      | [] => rfl
      | [inner] => rfl
      | _ :: _ :: _ => rfl
  · rfl

theorem arguments_uncommented (c : Cursor) :
    c.uncommented.arguments =
      c.arguments.map fun args => (args.filter (!·.isComment)).map uncommented := by
  unfold arguments
  rw [field_uncommented c (by decide)]
  cases c.field "arguments" with
  | error fault => rfl
  | ok found =>
      cases found with
      | none => rfl
      | some list => exact congrArg Except.ok list.namedChildren_uncommented

/-- Comments are no functions. -/
theorem filter_isFunctionLiteral_uncommented (cs : List Cursor) :
    ((cs.filter (!·.isComment)).map uncommented).filter (·.isFunctionLiteral) =
      (cs.filter (·.isFunctionLiteral)).map uncommented := by
  rw [List.filter_map, List.filter_filter]
  congr 1
  apply List.filter_congr
  intro d _
  simp only [Function.comp_def, isFunctionLiteral_uncommented]
  cases hLiteral : d.isFunctionLiteral with
  | false => rfl
  | true => simp [isComment_eq_false_of_isFunctionLiteral hLiteral]

theorem functionArguments_uncommented (c : Cursor) :
    c.uncommented.functionArguments = c.functionArguments.map (·.map uncommented) := by
  unfold functionArguments
  rw [arguments_uncommented]
  cases c.arguments with
  | error fault => rfl
  | ok args => exact congrArg Except.ok (filter_isFunctionLiteral_uncommented args)

/-! What is read by position. -/

theorem flatMap_namedChildren {args : List Cursor} (h : c.arguments = .ok args) :
    (c.fieldAt "arguments").toList.flatMap (·.namedChildren) = args := by
  obtain ⟨found, hFound, h⟩ := exists_of_bind_eq_ok h
  rw [fieldAt, hFound]
  cases found with
  | none =>
      cases h
      rfl
  | some list =>
      cases h
      simp [Except.toOption]

theorem unwrap_of_nil (h : c.namedChildren = []) : c.unwrap = c := by
  rw [unwrap]
  split
  · split
    · rfl
    · next hCons => simp [h] at hCons
  · rfl

theorem unwrap_of_cons {inner : Cursor} {rest : List Cursor} (hKind : wrapperKinds.contains c.kind)
    (h : c.namedChildren = inner :: rest) : c.unwrap = inner.unwrap := by
  rw [unwrap, if_pos hKind]
  split
  · next hNil => simp [h] at hNil
  · next hCons =>
      rw [h] at hCons
      cases hCons
      rfl

/-- What wrappers hold is the same, unless it is a comment. -/
theorem unwrap_uncommented (h : c.unwrap.isComment = false) :
    c.uncommented.unwrap = c.unwrap.uncommented := by
  fun_induction unwrap c with
  | case1 c hKind hNone =>
      rw [unwrap_of_nil]
      rw [namedChildren_uncommented, hNone]
      rfl
  | case2 c hKind inner rest hInner hSize ih =>
      have hComment : inner.isComment = false := by
        rw [Bool.eq_false_iff]
        intro hComment
        rw [unwrap_of_nil (namedChildren_of_isComment hComment), hComment] at h
        cases h
      have hFirst : c.uncommented.namedChildren =
          inner.uncommented :: (rest.filter (!·.isComment)).map uncommented := by
        simp [namedChildren_uncommented, hInner, hComment]
      rw [unwrap_of_cons (by simpa using hKind) hFirst]
      exact ih h
  | case3 c hKind => rw [unwrap, if_neg (by simpa using hKind)]

/-- A wrapping call returns the same function, unless a comment stands in front of it. -/
theorem wrappedFunction_uncommented (hCall : c.isCall = true)
    (hName : c.uncommented.calleeName = c.calleeName)
    (h : ∀ d ∈ c.handed, d.isComment = false) :
    c.uncommented.wrappedFunction = c.wrappedFunction.map (·.map uncommented) := by
  unfold wrappedFunction
  rw [hName, arguments_uncommented]
  cases hCallee : c.calleeName with
  | error fault => rfl
  | ok found =>
      cases found with
      | none => rfl
      | some name =>
          simp only [bind, Except.bind]
          split
          · next hWrapper =>
              cases hArguments : c.arguments with
              | error fault => rfl
              | ok args =>
                  cases args with
                  | nil => rfl
                  | cons first rest =>
                      have hCalled : c.calledName? = some name := by
                        rw [calledName?, hCallee]
                        rfl
                      have hFirst : first.isComment = false := by
                        apply h
                        simp [handed, hCall, hCalled, List.contains_iff_mem.1 hWrapper,
                          flatMap_namedChildren hArguments]
                      simp only [Except.map, List.filter_cons, hFirst, Bool.not_false, if_true,
                        List.map_cons, isFunctionLiteral_uncommented]
                      split <;> rfl
          · rfl

/-- A call invokes the same name. -/
theorem PicksNoComment.calleeName_uncommented (h : root.PicksNoComment) (hc : c ∈ root.preorder)
    (hCall : c.isCall = true) : c.uncommented.calleeName = c.calleeName := by
  unfold calleeName
  have hField : c.uncommented.callee = c.callee.map (·.map uncommented) :=
    field_uncommented c (by decide)
  rw [hField]
  cases hCallee : c.callee with
  | error fault => rfl
  | ok found =>
      cases found with
      | none => rfl
      | some callee =>
          have hInside : callee.kind = "parenthesized_expression" →
              ∀ d ∈ callee.namedChildren, d.isComment = false := by
            intro hKind d hd
            have hFound : c.fieldAt "function" = some callee := by
              rw [Cursor.callee] at hCallee
              rw [fieldAt, hCallee]
              rfl
            exact h c hc d (by simp [picked, hCall, hFound, hKind, hd])
          simp only [Except.map, Option.map_some, bind, Except.bind,
            bareCallee_uncommented hInside]
          cases bareCallee callee with
          | none => rfl
          | some bare => exact bare.nameOfCallee_uncommented

end Cursor

end HotPath
