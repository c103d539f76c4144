import HotPath.Proofs.Comment.Scopes
import HotPath.Proofs.Resolve

/-! The roots of a tree without its comments. Callbacks are found among the functions handed to a
call, and a comment is no function, so the same callbacks are found in the same order. -/

namespace HotPath

def Root.uncommented (r : Root) : Root :=
  { r with function := r.function.uncommented, site := r.site.uncommented }

namespace Detector

/-- The roots that are found at a node; none where it cannot be read. -/
def foundAt (t : ScopeTable) (d : Detector) (c : Cursor) : List Root :=
  (d.rootsAt t c).toOption.getD []

theorem eq_of_detect_ok {t : ScopeTable} {d : Detector} {root : Cursor} {s : Unit}
    {roots : List Root} (h : ((d.detect t root).run s).result = .ok roots) :
    roots = root.preorder.flatMap (d.foundAt t) := by
  obtain ⟨found, hFound, h, -⟩ := Task.exists_of_bind_ok h
  cases h
  rw [Task.eq_map_of_collect_ok (fun _ _ _ _ => Task.eq_of_absorb_read_ok) hFound,
    List.flatMap_def]
  rfl

/-- Nothing is registered at a comment. -/
theorem foundAt_of_isComment (t : ScopeTable) (d : Detector) {c : Cursor}
    (h : c.isComment = true) : d.foundAt t c = [] := by
  have hSubscriptions : ∀ category apis, subscriptions t category apis c = .ok [] := by
    intro category apis
    unfold subscriptions
    rw [Cursor.isCall_eq_false_of_isComment h]
    rfl
  cases d with
  | frameLoop apis => simp [foundAt, rootsAt, hSubscriptions, Except.toOption]
  | timerLoop apis => simp [foundAt, rootsAt, hSubscriptions, Except.toOption]
  | fastEvent events =>
      simp [foundAt, rootsAt, eventHandlers, Cursor.kind_of_isComment h, Except.toOption, pure,
        Except.pure]

variable {root c : Cursor} {t t' : ScopeTable}

/-- A call subscribes to the same interface. -/
theorem apiName_uncommented (h : t.Reflects root t') (hPicks : root.PicksNoComment)
    (hc : c ∈ root.preorder) (hCall : c.isCall = true) (apis : List String) :
    apiName t' apis c.uncommented = apiName t apis c := by
  have hField : c.uncommented.callee = c.callee.map (·.map Cursor.uncommented) :=
    c.field_uncommented (by decide)
  unfold apiName
  rw [hPicks.calleeName_uncommented hc hCall, hField]
  cases c.calleeName with
  | error fault => rfl
  | ok found =>
      cases found with
      | none => rfl
      | some name =>
          simp only [bind, Except.bind]
          split
          · rfl
          · cases hCallee : c.callee with
            | error fault => rfl
            | ok found =>
                cases found with
                | none => rfl
                | some callee =>
                    have hScope := h.scopeFor callee (Cursor.mem_preorder_of_field hc hCallee)
                      (Cursor.isComment_eq_false_of_field (by decide) hCallee)
                    simp only [Except.map, Option.map_some, h.resolveIdentifier hScope]
                    cases t.resolveIdentifier callee with
                    | error fault => rfl
                    | ok binding =>
                        cases binding with
                        | none => rfl
                        | some b =>
                            have hExported : b.uncommented.kind.exported? = b.kind.exported? :=
                              b.kind.exported?_uncommented
                            simp [hExported]

theorem subscriptions_uncommented (h : t.Reflects root t') (hPicks : root.PicksNoComment)
    (hc : c ∈ root.preorder) (category : RootCategory) (apis : List String) :
    subscriptions t' category apis c.uncommented =
      (subscriptions t category apis c).map (·.map Root.uncommented) := by
  unfold subscriptions
  rw [Cursor.isCall_uncommented]
  cases hCall : c.isCall with
  | false => rfl
  | true =>
      simp only [Bool.not_true, Bool.false_eq_true, if_false,
        apiName_uncommented h hPicks hc hCall apis, Cursor.functionArguments_uncommented]
      cases apiName t apis c with
      | error fault => rfl
      | ok api =>
          cases api with
          | none => rfl
          | some api =>
              cases c.functionArguments with
              | error fault => rfl
              | ok args =>
                  simp [bind, Except.bind, Except.map, pure, Except.pure, Root.uncommented]

theorem eventHandlers_uncommented (hPicks : root.PicksNoComment) (hc : c ∈ root.preorder)
    (events : List String) :
    eventHandlers events c.uncommented =
      (eventHandlers events c).map (·.map Root.uncommented) := by
  unfold eventHandlers
  rw [Cursor.kind_uncommented]
  by_cases hKind : c.kind = "jsx_attribute"
  · have hParts : ∀ d ∈ c.namedChildren.take 2, d.isComment = false :=
      fun d hd => hPicks c hc d (by simp [Cursor.picked, hKind, hd])
    simp only [hKind, ne_eq, not_true_eq_false, if_false, Cursor.namedChildren_uncommented]
    cases hChildren : c.namedChildren with
    | nil => rfl
    | cons name others =>
        have hName : name.isComment = false := hParts name (by simp [hChildren])
        cases others with
        | nil => simp [hName, Except.map, pure, Except.pure]
        | cons value rest =>
            have hValue : value.isComment = false := hParts value (by simp [hChildren])
            simp only [List.filter_cons, hName, hValue, Bool.not_false, if_true, List.map_cons,
              Cursor.text_uncommented, Cursor.kind_uncommented, Cursor.namedChildren_uncommented,
              Cursor.filter_isFunctionLiteral_uncommented]
            cases name.text with
            | error fault => rfl
            | ok event =>
                simp only [bind, Except.bind]
                split
                · simp [Except.map, pure, Except.pure, Root.uncommented]
                · rfl
  · simp [hKind, Except.map, pure, Except.pure]

/-- The same callbacks are registered at a node. -/
theorem foundAt_uncommented (h : t.Reflects root t') (hPicks : root.PicksNoComment)
    (hc : c ∈ root.preorder) (d : Detector) :
    d.foundAt t' c.uncommented = (d.foundAt t c).map Root.uncommented := by
  have hRoots : d.rootsAt t' c.uncommented = (d.rootsAt t c).map (·.map Root.uncommented) := by
    cases d with
    | frameLoop apis => exact subscriptions_uncommented h hPicks hc .frame apis
    | timerLoop apis => exact subscriptions_uncommented h hPicks hc .timer apis
    | fastEvent events => exact eventHandlers_uncommented hPicks hc events
  unfold foundAt
  rw [hRoots]
  cases d.rootsAt t c with
  | error fault => rfl
  | ok roots => rfl

end Detector

namespace Root

theorem eq_of_detectAll_ok {t : ScopeTable} {ds : List Detector} {root : Cursor}
    {roots : List Root} (h : ((detectAll t ds root).run ()).result = .ok roots) :
    roots = (ds.flatMap fun d => root.preorder.flatMap (d.foundAt t)).mergeSort precedes := by
  obtain ⟨found, hFound, h, -⟩ := Task.exists_of_bind_ok h
  cases h
  rw [Task.eq_map_of_collect_ok (fun _ _ _ _ => Detector.eq_of_detect_ok) hFound,
    List.flatMap_def]

theorem precedes_uncommented (a b : Root) :
    precedes a.uncommented b.uncommented = precedes a b := by
  simp only [precedes, uncommented, Cursor.start_uncommented, Cursor.stop_uncommented]

/-- The same roots are detected, in the same order. -/
theorem detectAll_uncommented {root : Cursor} {t t' : ScopeTable} {ds : List Detector}
    {roots roots' : List Root} (h : t.Reflects root t') (hRoot : root.isComment = false)
    (hPicks : root.PicksNoComment) (hFound : ((detectAll t ds root).run ()).result = .ok roots)
    (hFound' : ((detectAll t' ds root.uncommented).run ()).result = .ok roots') :
    roots' = roots.map Root.uncommented := by
  have hEach : ∀ d : Detector, root.uncommented.preorder.flatMap (d.foundAt t') =
      (root.preorder.flatMap (d.foundAt t)).map Root.uncommented := by
    intro d
    rw [Cursor.preorder_uncommented hRoot, List.map_flatMap]
    apply Cursor.flatMap_uncommented
    · intro c _ hComment
      rw [d.foundAt_of_isComment t hComment, List.map_nil]
    · exact fun c hc _ => Detector.foundAt_uncommented h hPicks hc d
  rw [eq_of_detectAll_ok hFound, eq_of_detectAll_ok hFound',
    List.map_mergeSort fun a _ b _ => (precedes_uncommented a b).symm, List.map_flatMap]
  simp only [hEach]

end Root

end HotPath
