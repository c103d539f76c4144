import HotPath.Proofs.Scope.Declared

/-! Trees without their comments. A comment is a node like any other to the walks, but it fills no
field and has nothing below it. Taking the comments out keeps every other node with all that the
host says about it, so that most reads give the same answer before and after. -/

namespace HotPath

namespace Node

/-- A comment: a named leaf that fills no field. -/
def isComment (n : Node) : Bool :=
  n.kind == "comment" && n.info.named && n.info.role == "" && n.children.isEmpty

mutual

/-- A tree without the comments below its root. -/
def uncommented : Node → Node
  | mk info children => mk info (uncommentedAll children)

/-- The trees of a list that are no comments, each without its comments. -/
def uncommentedAll : List Node → List Node
  | [] => []
  | n :: rest => if n.isComment then uncommentedAll rest else n.uncommented :: uncommentedAll rest

end

@[simp] theorem info_uncommented (n : Node) : n.uncommented.info = n.info := by
  cases n
  rw [uncommented]
  rfl

theorem uncommentedAll_eq (ns : List Node) :
    uncommentedAll ns = (ns.filter (!·.isComment)).map uncommented := by
  induction ns with
  | nil => rw [uncommentedAll]; rfl
  | cons n rest ih =>
      rw [uncommentedAll, ih]
      cases hComment : n.isComment with
      | true => simp [hComment]
      | false => simp [hComment]

theorem children_uncommented (n : Node) :
    n.uncommented.children = (n.children.filter (!·.isComment)).map uncommented := by
  cases n
  rw [uncommented]
  exact uncommentedAll_eq _

end Node

namespace Cursor

variable {root c d : Cursor}

def isComment (c : Cursor) : Bool := c.node.isComment

/-- A node without the comments around it and below it. -/
def uncommented (c : Cursor) : Cursor := ⟨c.node.uncommented, c.ancestors.map Node.uncommented⟩

@[simp] theorem info_uncommented (c : Cursor) : c.uncommented.info = c.info :=
  c.node.info_uncommented

@[simp] theorem kind_uncommented (c : Cursor) : c.uncommented.kind = c.kind :=
  congrArg NodeInfo.kind c.info_uncommented

@[simp] theorem key_uncommented (c : Cursor) : c.uncommented.key = c.key := by
  simp only [key, Node.key, uncommented, Node.info_uncommented]

@[simp] theorem start_uncommented (c : Cursor) : c.uncommented.start = c.start :=
  congrArg NodeInfo.start c.info_uncommented

@[simp] theorem stop_uncommented (c : Cursor) : c.uncommented.stop = c.stop :=
  congrArg NodeInfo.stop c.info_uncommented

@[simp] theorem text_uncommented (c : Cursor) : c.uncommented.text = c.text := by
  simp only [text, info_uncommented]

@[simp] theorem spelling_uncommented (c : Cursor) : c.uncommented.spelling = c.spelling := by
  simp only [spelling, text_uncommented]

@[simp] theorem isFunction_uncommented (c : Cursor) :
    c.uncommented.isFunction = c.isFunction := by
  simp only [isFunction, kind_uncommented]

@[simp] theorem isFunctionLiteral_uncommented (c : Cursor) :
    c.uncommented.isFunctionLiteral = c.isFunctionLiteral := by
  simp only [isFunctionLiteral, kind_uncommented]

@[simp] theorem isCall_uncommented (c : Cursor) : c.uncommented.isCall = c.isCall := by
  simp only [isCall, kind_uncommented]

/-- What is known of a comment. -/
theorem isComment_iff :
    c.isComment = true ↔
      c.kind = "comment" ∧ c.info.named = true ∧ c.info.role = "" ∧ c.children = [] := by
  simp [isComment, Node.isComment, kind, info, children, and_assoc]

theorem kind_of_isComment (h : c.isComment = true) : c.kind = "comment" := (isComment_iff.1 h).1

/-- A node of another kind is no comment. -/
theorem isComment_eq_false_of_kind (h : c.kind ≠ "comment") : c.isComment = false := by
  rw [Bool.eq_false_iff]
  exact fun hComment => h (kind_of_isComment hComment)

theorem isComment_eq_false_of_isFunctionLiteral (h : c.isFunctionLiteral = true) :
    c.isComment = false := by
  apply isComment_eq_false_of_kind
  rintro hKind
  rw [isFunctionLiteral, hKind] at h
  exact absurd h (by decide)

theorem isComment_eq_false_of_isCall (h : c.isCall = true) : c.isComment = false := by
  apply isComment_eq_false_of_kind
  rintro hKind
  rw [isCall, hKind] at h
  exact absurd h (by decide)

theorem isCall_eq_false_of_isComment (h : c.isComment = true) : c.isCall = false := by
  rw [isCall, kind_of_isComment h]
  decide

theorem children_uncommented (c : Cursor) :
    c.uncommented.children = (c.children.filter (!·.isComment)).map uncommented := by
  unfold children
  simp only [uncommented, Node.children_uncommented, List.map_map, List.filter_map]
  rfl

theorem namedChildren_uncommented (c : Cursor) :
    c.uncommented.namedChildren = (c.namedChildren.filter (!·.isComment)).map uncommented := by
  unfold namedChildren
  rw [info_uncommented, children_uncommented]
  split
  · simp only [List.filter_map, List.filter_filter, Function.comp_def, info_uncommented,
      Bool.and_comm]
  · simp only [List.filter_map, List.filter_filter, Function.comp_def, info_uncommented,
      Bool.and_comm]

theorem namedChildren_of_isComment (h : c.isComment = true) : c.namedChildren = [] := by
  unfold namedChildren
  rw [(isComment_iff.1 h).2.2.2]
  split <;> rfl

/-- A search that passes over comments finds the same node. -/
theorem find?_uncommented {p : Cursor → Bool} (cs : List Cursor)
    (hComment : ∀ d ∈ cs, d.isComment = true → p d = false)
    (hSame : ∀ d ∈ cs, p d.uncommented = p d) :
    ((cs.filter (!·.isComment)).map uncommented).find? p = (cs.find? p).map uncommented := by
  induction cs with
  | nil => rfl
  | cons d rest ih =>
      obtain ⟨hFirst, hComment⟩ := List.forall_mem_cons.1 hComment
      obtain ⟨hFirst', hSame⟩ := List.forall_mem_cons.1 hSame
      have ih := ih hComment hSame
      cases hKind : d.isComment with
      | true => simpa [hKind, hFirst hKind] using ih
      | false =>
          rw [List.filter_cons_of_pos (by simp [hKind]), List.map_cons, List.find?_cons,
            List.find?_cons, hFirst', ih]
          split <;> rfl

/-- Comments fill no field, so whatever fills one is found all the same. -/
theorem childInRole?_uncommented (c : Cursor) {role : String} (hRole : role ≠ "") :
    c.uncommented.childInRole? role = (c.childInRole? role).map uncommented := by
  unfold childInRole?
  rw [children_uncommented]
  apply find?_uncommented
  · intro d _ hComment
    rw [(isComment_iff.1 hComment).2.2.1]
    simpa using hRole.symm
  · exact fun d _ => by rw [info_uncommented]

theorem field_uncommented (c : Cursor) {role : String} (hRole : role ≠ "") :
    c.uncommented.field role = (c.field role).map (·.map uncommented) := by
  unfold field
  rw [info_uncommented]
  split
  · rw [childInRole?_uncommented c hRole]
    rfl
  · rfl
  · rfl

theorem fieldAt_uncommented (c : Cursor) {role : String} (hRole : role ≠ "") :
    c.uncommented.fieldAt role = (c.fieldAt role).map uncommented := by
  unfold fieldAt
  rw [field_uncommented c hRole]
  cases c.field role with
  | error fault => rfl
  | ok found => rfl

/-- What fills a field is no comment. -/
theorem isComment_eq_false_of_field {role : String} (hRole : role ≠ "")
    (h : c.field role = .ok (some d)) : d.isComment = false := by
  unfold field at h
  split at h
  · have hFound : d.info.role = role := by
      simpa using List.find?_some (Except.ok.inj h)
    rw [Bool.eq_false_iff]
    intro hComment
    rw [(isComment_iff.1 hComment).2.2.1] at hFound
    exact hRole hFound.symm
  · cases h
  · cases h

theorem parent?_uncommented (c : Cursor) :
    c.uncommented.parent? = c.parent?.map uncommented := by
  unfold parent?
  rw [info_uncommented]
  cases hAncestors : c.ancestors with
  | nil => simp [uncommented, hAncestors]
  | cons n above =>
      simp only [uncommented, hAncestors, List.map_cons]
      split <;> rfl

/-- What is put together from the nodes that are left equals what was put together from all, if
comments contribute nothing. -/
theorem flatMap_uncommented {β : Type} {f g : Cursor → List β} (cs : List Cursor)
    (hComment : ∀ d ∈ cs, d.isComment = true → g d = [])
    (hOther : ∀ d ∈ cs, d.isComment = false → f d.uncommented = g d) :
    ((cs.filter (!·.isComment)).map uncommented).flatMap f = cs.flatMap g := by
  induction cs with
  | nil => rfl
  | cons d rest ih =>
      obtain ⟨hFirst, hComment⟩ := List.forall_mem_cons.1 hComment
      obtain ⟨hFirst', hOther⟩ := List.forall_mem_cons.1 hOther
      rw [List.flatMap_cons, ← ih hComment hOther]
      cases hKind : d.isComment with
      | true => simp [hKind, hFirst hKind]
      | false => simp [hKind, hFirst' hKind]

theorem preorder_of_isComment (h : c.isComment = true) : c.preorder = [c] := by
  rw [preorder_eq, (isComment_iff.1 h).2.2.2]
  rfl

/-- Below a node that is no comment, the walk in pre-order meets the nodes that are no comments. -/
theorem preorder_uncommented (hc : c.isComment = false) :
    c.uncommented.preorder = (c.preorder.filter (!·.isComment)).map uncommented := by
  induction c using children_induction with
  | h c ih =>
      have hChildren := flatMap_uncommented (f := preorder)
        (g := fun d => (d.preorder.filter (!·.isComment)).map uncommented) c.children
        (fun d _ hComment => by simp [preorder_of_isComment hComment, hComment]) ih
      rw [preorder_eq, preorder_eq c, children_uncommented, hChildren]
      simp [hc, List.filter_flatMap, List.map_flatMap]

theorem mem_preorder_uncommented (hc : c.isComment = false) :
    d ∈ c.uncommented.preorder ↔
      ∃ e ∈ c.preorder, e.isComment = false ∧ e.uncommented = d := by
  simp [preorder_uncommented hc, and_assoc]

/-- A node that is no comment is met, without its comments, in the tree without comments. -/
theorem uncommented_mem_preorder (hRoot : root.isComment = false) (hc : c ∈ root.preorder)
    (hComment : c.isComment = false) : c.uncommented ∈ root.uncommented.preorder :=
  (mem_preorder_uncommented hRoot).2 ⟨c, hc, hComment, rfl⟩

/-- Reads of what is left fail as they did. -/
theorem FaultFree.uncommented (hFree : root.FaultFree) (hRoot : root.isComment = false) :
    root.uncommented.FaultFree := by
  intro d hd
  obtain ⟨c, hc, -, rfl⟩ := (mem_preorder_uncommented hRoot).1 hd
  obtain ⟨hField, hText⟩ := hFree c hc
  rw [text_uncommented]
  refine ⟨failsOnly_field_iff.2 ?_, hText⟩
  have hSame := hField ""
  unfold field at hSame ⊢
  rw [info_uncommented]
  intro fault hFault
  split at hFault
  · cases hFault
  · cases hFault
  · next hFails =>
      apply hSame fault
      rw [hFails]
      exact hFault

theorem DistinctKeys.uncommented (hKeys : root.DistinctKeys) (hRoot : root.isComment = false) :
    root.uncommented.DistinctKeys := by
  unfold DistinctKeys
  rw [preorder_uncommented hRoot, List.map_map]
  have hSame : key ∘ Cursor.uncommented = key := by
    funext c
    exact c.key_uncommented
  rw [hSame]
  exact hKeys.sublist (List.filter_sublist.map key)

/-- Two nodes of a tree with distinct keys that look alike without comments are one node. -/
theorem DistinctKeys.eq_of_uncommented (hKeys : root.DistinctKeys) (hc : c ∈ root.preorder)
    (hd : d ∈ root.preorder) (hSame : c.uncommented = d.uncommented) : c = d := by
  apply hKeys.eq_of_key_eq hc hd
  rw [← key_uncommented, hSame, key_uncommented]

theorem bodyNodes_uncommented (f : Cursor) :
    f.uncommented.bodyNodes = (f.bodyNodes.filter (!·.isComment)).map uncommented := by
  unfold bodyNodes body
  rw [field_uncommented f (by decide)]
  cases hBody : f.field "body" with
  | error fault => rfl
  | ok found =>
      cases found with
      | none => rfl
      | some b => exact preorder_uncommented (isComment_eq_false_of_field (by decide) hBody)

/-- A node lies in a body if and only if it does so without comments. -/
theorem DistinctKeys.mem_bodyNodes_uncommented (hKeys : root.DistinctKeys) {f : Cursor}
    (hf : f ∈ root.preorder) (hc : c ∈ root.preorder) (hComment : c.isComment = false) :
    c.uncommented ∈ f.uncommented.bodyNodes ↔ c ∈ f.bodyNodes := by
  rw [bodyNodes_uncommented, List.mem_map]
  constructor
  · rintro ⟨d, hd, hSame⟩
    have hd := (List.mem_filter.1 hd).1
    have hMem := mem_preorder_trans (mem_preorder_of_mem_bodyNodes hd) hf
    rwa [← hKeys.eq_of_uncommented hMem hc hSame]
  · exact fun hMem => ⟨c, List.mem_filter.2 ⟨hMem, by simpa using hComment⟩, rfl⟩

end Cursor

/-- An event at a node without its comments. -/
def Event.uncommented (e : Event) : Event := ⟨e.phase, e.cursor.uncommented⟩

/-- The walk over what is left has the same events but for those at comments. -/
theorem Cursor.events_uncommented {c : Cursor} (hc : c.isComment = false) :
    c.uncommented.events =
      (c.events.filter fun e => !e.cursor.isComment).map Event.uncommented := by
  induction c using children_induction with
  | h c ih =>
      have hLeaf : ∀ d : Cursor, d.isComment = true → d.events = [⟨.enter, d⟩, ⟨.leave, d⟩] := by
        intro d hComment
        rw [events_eq, (isComment_iff.1 hComment).2.2.2]
        rfl
      have hChildren := flatMap_uncommented (f := events)
        (g := fun d => (d.events.filter fun e => !e.cursor.isComment).map Event.uncommented)
        c.children (fun d _ hComment => by simp [hLeaf d hComment, hComment]) ih
      rw [events_eq, events_eq c, children_uncommented, hChildren]
      simp [hc, List.filter_flatMap, List.map_flatMap, Event.uncommented]

end HotPath
