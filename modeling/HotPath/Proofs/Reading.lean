import HotPath.Hazard
import HotPath.Proofs.Subtree
import HotPath.Proofs.Task

/-! Reads inside a tree. If the fields and texts of all nodes of a tree fail in certain ways only,
then so does everything that is composed of such reads; and what a read finds lies in the tree. -/

namespace HotPath

/-- The banned name that a node calls, if it calls one. -/
def Matcher.bannedName (m : Matcher) (c : Cursor) : Except Fault (Option String) :=
  if c.isCall && !m.banned.isEmpty then c.calleeName.map (·.filter m.banned.contains)
  else .ok none

/-- A matcher asks whether a node is a disallowed literal only if it is no banned call. -/
theorem Matcher.classify_eq (m : Matcher) (c : Cursor) :
    m.classify c = m.bannedName c >>= fun
      | some name => .ok (some (.call, name))
      | none =>
        if m.literals.contains c.kind then c.literalLabel.map fun label => some (.literal, label)
        else .ok none := by
  unfold Matcher.classify Matcher.bannedName
  by_cases hCall : (c.isCall && !m.banned.isEmpty) = true
  · rw [if_pos hCall]
    simp only [hCall, ↓reduceIte]
    cases c.calleeName with
    | error fault => rfl
    | ok name => cases c.literalLabel <;> rfl
  · rw [if_neg hCall]
    simp only [hCall, Bool.false_eq_true, ↓reduceIte]
    cases c.literalLabel <;> rfl

/-- A sequence of patterns is cut short by a fault of one of them. -/
theorem PatternNames.exists_of_concat_fault {parts : List PatternNames} {fault : Fault}
    (h : (PatternNames.concat parts).fault = some fault) :
    ∃ part ∈ parts, part.fault = some fault := by
  induction parts with
  | nil => cases h
  | cons first rest ih =>
      change (PatternNames.append first (PatternNames.concat rest)).fault = some fault at h
      unfold PatternNames.append at h
      split at h
      · next found hFirst =>
          cases h
          exact ⟨first, List.mem_cons_self, hFirst⟩
      · obtain ⟨part, hPart, hFault⟩ := ih h
        exact ⟨part, List.mem_cons_of_mem first hPart, hFault⟩

namespace Cursor

/-- All reads of nodes of the tree fail in the given ways only. -/
def ReadsFailOnly (P : Fault → Prop) (root : Cursor) : Prop :=
  ∀ c ∈ root.preorder, (∀ role, FailsOnly P (c.field role)) ∧ FailsOnly P c.text

/-- No read of a node of the tree fails. -/
def FaultFree (root : Cursor) : Prop := root.ReadsFailOnly fun _ => False

/-- Whether a field can be read does not depend on which one it is. -/
theorem failsOnly_field_iff {P : Fault → Prop} {c : Cursor} :
    (∀ role, FailsOnly P (c.field role)) ↔ FailsOnly P (c.field "") := by
  refine ⟨fun h => h "", fun h role => ?_⟩
  unfold field at h ⊢
  cases hFields : c.info.fields with
  | readable => exact FailsOnly.ok _
  | absent => exact FailsOnly.ok none
  | fails fault =>
      simp only [hFields] at h
      intro fault' hSame
      cases hSame
      exact h fault rfl

instance (P : Fault → Prop) [DecidablePred P] (root : Cursor) : Decidable (root.ReadsFailOnly P) :=
  decidable_of_iff (∀ c ∈ root.preorder, FailsOnly P (c.field "") ∧ FailsOnly P c.text)
    (by simp only [ReadsFailOnly, failsOnly_field_iff])

instance (root : Cursor) : Decidable root.FaultFree :=
  inferInstanceAs (Decidable (root.ReadsFailOnly fun _ => False))

theorem mem_preorder_of_bareCallee {root c d : Cursor} (hc : c ∈ root.preorder)
    (h : bareCallee c = some d) : d ∈ root.preorder := by
  unfold bareCallee at h
  split at h
  · split at h
    · next inner hInner =>
        cases h
        exact mem_preorder_of_mem_namedChildren hc (hInner ▸ List.mem_singleton_self d)
    · cases h
  · cases h
    exact hc

theorem mem_preorder_of_mem_arguments {root c d : Cursor} {args : List Cursor}
    (hc : c ∈ root.preorder) (h : c.arguments = .ok args) (hd : d ∈ args) :
    d ∈ root.preorder := by
  obtain ⟨found, hFound, h⟩ := exists_of_bind_eq_ok h
  cases found with
  | none =>
      cases h
      cases hd
  | some list =>
      cases h
      exact mem_preorder_of_mem_namedChildren (mem_preorder_of_field hc hFound) hd

theorem mem_preorder_of_mem_functionArguments {root c d : Cursor} {args : List Cursor}
    (hc : c ∈ root.preorder) (h : c.functionArguments = .ok args) (hd : d ∈ args) :
    d ∈ root.preorder := by
  obtain ⟨all, hAll, h⟩ := exists_of_bind_eq_ok h
  cases h
  exact mem_preorder_of_mem_arguments hc hAll (List.mem_filter.1 hd).1

theorem unwrap_mem_preorder {root c : Cursor} (hc : c ∈ root.preorder) :
    c.unwrap ∈ root.preorder := by
  fun_induction unwrap c with
  | case1 c hKind hNone => exact hc
  | case2 c hKind inner rest hInner hSize ih =>
      exact ih (mem_preorder_of_mem_namedChildren hc (hInner ▸ List.mem_cons_self))
  | case3 c hKind => exact hc

theorem mem_functions_of_wrappedFunction {root c d : Cursor} (hc : c ∈ root.preorder)
    (h : c.wrappedFunction = .ok (some d)) : d ∈ root.functions := by
  obtain ⟨name, -, h⟩ := exists_of_bind_eq_ok h
  cases name with
  | none => cases h
  | some name =>
      simp only at h
      split at h
      · obtain ⟨args, hArgs, h⟩ := exists_of_bind_eq_ok h
        cases args with
        | nil => cases h
        | cons first rest =>
            simp only at h
            split at h
            · next hLiteral =>
                cases h
                exact mem_functions_of_isFunctionLiteral
                  (mem_preorder_of_mem_arguments hc hArgs List.mem_cons_self) hLiteral
            · cases h
      · cases h

theorem FaultFree.reads {root : Cursor} (h : root.FaultFree) (P : Fault → Prop) :
    root.ReadsFailOnly P := by
  intro c hc
  obtain ⟨hField, hText⟩ := h c hc
  exact ⟨fun role fault hFault => (hField role fault hFault).elim,
    fun fault hFault => (hText fault hFault).elim⟩

namespace ReadsFailOnly

variable {P : Fault → Prop} {root c : Cursor}

theorem field (h : root.ReadsFailOnly P) (hc : c ∈ root.preorder) (role : String) :
    FailsOnly P (c.field role) :=
  (h c hc).1 role

theorem text (h : root.ReadsFailOnly P) (hc : c ∈ root.preorder) : FailsOnly P c.text :=
  (h c hc).2

theorem fieldText (h : root.ReadsFailOnly P) (hc : c ∈ root.preorder) (role : String) :
    FailsOnly P (c.fieldText role) := by
  refine (h.field hc role).bind fun found hFound => ?_
  cases found with
  | none => exact FailsOnly.ok ""
  | some d => exact h.text (mem_preorder_of_field hc hFound)

theorem declaredName (h : root.ReadsFailOnly P) (hc : c ∈ root.preorder) :
    FailsOnly P c.declaredName :=
  (h.fieldText hc "name").bind fun _ _ => FailsOnly.ok _

theorem nameOfCallee (h : root.ReadsFailOnly P) (hc : c ∈ root.preorder) :
    FailsOnly P c.nameOfCallee := by
  unfold Cursor.nameOfCallee
  split
  · exact (h.text hc).bind fun _ _ => FailsOnly.ok _
  · split
    · refine (h.field hc "property").bind fun found hFound => ?_
      cases found with
      | none => exact FailsOnly.ok none
      | some property =>
          simp only
          split
          · exact (h.text (mem_preorder_of_field hc hFound)).bind fun _ _ => FailsOnly.ok _
          · exact FailsOnly.ok none
    · exact FailsOnly.ok none

theorem calleeName (h : root.ReadsFailOnly P) (hc : c ∈ root.preorder) :
    FailsOnly P c.calleeName := by
  refine (h.field hc "function").bind fun found hFound => ?_
  cases found with
  | none => exact FailsOnly.ok none
  | some callee =>
      simp only
      split
      · exact FailsOnly.ok none
      · next bare hBare =>
          exact h.nameOfCallee
            (mem_preorder_of_bareCallee (mem_preorder_of_field hc hFound) hBare)

theorem arguments (h : root.ReadsFailOnly P) (hc : c ∈ root.preorder) :
    FailsOnly P c.arguments := by
  refine (h.field hc "arguments").bind fun found _ => ?_
  cases found with
  | none => exact FailsOnly.ok []
  | some list => exact FailsOnly.ok _

theorem functionArguments (h : root.ReadsFailOnly P) (hc : c ∈ root.preorder) :
    FailsOnly P c.functionArguments :=
  (h.arguments hc).bind fun _ _ => FailsOnly.ok _

theorem wrappedFunction (h : root.ReadsFailOnly P) (hc : c ∈ root.preorder) :
    FailsOnly P c.wrappedFunction := by
  refine (h.calleeName hc).bind fun name _ => ?_
  cases name with
  | none => exact FailsOnly.ok none
  | some name =>
      simp only
      split
      · refine (h.arguments hc).bind fun args _ => ?_
        cases args with
        | nil => exact FailsOnly.ok none
        | cons first rest => exact FailsOnly.ok _
      · exact FailsOnly.ok none

theorem literalLabel (h : root.ReadsFailOnly P) (hc : c ∈ root.preorder) :
    FailsOnly P c.literalLabel := by
  unfold Cursor.literalLabel
  split
  · exact (h.fieldText hc "constructor").bind fun _ _ => FailsOnly.ok _
  · exact FailsOnly.ok _

theorem subPatterns (h : root.ReadsFailOnly P) (hc : c ∈ root.preorder) (index : Option Nat) :
    FailsOnly P (c.subPatterns index) := by
  unfold Cursor.subPatterns
  split
  · exact (h.field hc _).map _
  · split
    · exact FailsOnly.ok _
    · split
      · exact FailsOnly.ok _
      · exact FailsOnly.ok []

theorem classify (h : root.ReadsFailOnly P) (hc : c ∈ root.preorder) (m : Matcher) :
    FailsOnly P (m.classify c) := by
  rw [m.classify_eq]
  refine FailsOnly.bind ?_ fun found _ => ?_
  · unfold Matcher.bannedName
    split
    · exact (h.calleeName hc).map _
    · exact FailsOnly.ok none
  · cases found with
    | some name => exact FailsOnly.ok _
    | none =>
        simp only
        split
        · exact (h.literalLabel hc).map _
        · exact FailsOnly.ok none

/-- The fault that cuts short the names of a pattern is the fault of a read. -/
theorem boundNames (h : root.ReadsFailOnly P) (hc : c ∈ root.preorder) (index : Option Nat)
    {fault : Fault} (hFault : (c.boundNames index).fault = some fault) : P fault := by
  induction c using children_induction generalizing index with
  | h c ih =>
      rw [Cursor.boundNames] at hFault
      split at hFault
      · split at hFault
        · cases hFault
        · next first hText =>
            cases hFault
            exact h.text hc fault hText
      · split at hFault
        · next first hParts =>
            cases hFault
            exact h.subPatterns hc index fault hParts
        · next parts hParts =>
            obtain ⟨names, hNames, hFault⟩ := PatternNames.exists_of_concat_fault hFault
            obtain ⟨part, -, rfl⟩ := List.mem_map.1 hNames
            have hChild := mem_children_of_mem_subPatterns hParts part.2
            exact ih part.1.1 hChild
              (mem_preorder_trans (mem_preorder_of_mem_children hChild) hc) part.1.2 hFault

end ReadsFailOnly

end Cursor

namespace Node

/-- A named node that offers no text of its own. -/
def inner (kind role : String) (start stop : Nat) (children : List Node) : Node :=
  .mk ⟨0, kind, role, true, start, stop, ⟨0, start⟩, ⟨0, stop⟩, .nothing, .readable, true, true,
    true⟩ children

/-- An identifier. -/
def word (role : String) (start stop : Nat) (reading : Reading) : Node :=
  .mk ⟨0, "identifier", role, true, start, stop, ⟨0, start⟩, ⟨0, stop⟩, reading, .readable, true,
    true, true⟩ []

end Node

/-- A function whose fields cannot be read. -/
def Node.unreadable (start stop : Nat) : Node :=
  .mk ⟨0, "arrow_function", "", true, start, stop, ⟨0, start⟩, ⟨0, stop⟩, .nothing,
    .fails ⟨.badValue, "fault"⟩, true, true, true⟩ []

open Node in
/-- Two loops, `onTick(() => 0); useFrame(() => clone())`, where the callback of the first one
cannot be read. -/
def Cursor.halfReadable : Cursor :=
  .root <| inner "program" "" 0 40 [
    inner "call_expression" "" 0 15 [
      word "function" 0 6 (.text "onTick"),
      inner "arguments" "arguments" 6 15 [unreadable 7 14]],
    inner "call_expression" "" 17 40 [
      word "function" 17 25 (.text "useFrame"),
      inner "arguments" "arguments" 25 40 [
        inner "arrow_function" "" 26 39 [
          inner "call_expression" "body" 32 39 [word "function" 32 37 (.text "clone")]]]]]

open Node in
/-- A loop whose callback calls a helper, `useFrame(() => helper()); function helper() { clone() }`,
where the name of the helper is read as given. -/
def Cursor.sample (name : Reading) : Cursor :=
  .root <| inner "program" "" 0 55 [
    inner "call_expression" "" 0 24 [
      word "function" 0 8 (.text "useFrame"),
      inner "arguments" "arguments" 8 24 [
        inner "arrow_function" "" 9 23 [
          inner "call_expression" "body" 15 23 [word "function" 15 21 (.text "helper")]]]],
    inner "function_declaration" "" 26 55 [
      word "name" 35 41 name,
      inner "statement_block" "body" 44 55 [
        inner "call_expression" "" 46 53 [word "function" 46 51 (.text "clone")]]]]

end HotPath
