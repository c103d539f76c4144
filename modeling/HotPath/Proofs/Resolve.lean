import HotPath.Proofs.Reading
import HotPath.Root

/-! What resolution and detection find. A name resolves to a binding of the table, and a detected
callback is a node of the tree that was searched. -/

namespace HotPath

namespace Cursor

/-- A call of a name. -/
def CallsName (call : Cursor) (name : String) : Prop :=
  ∃ callee, call.callee = .ok (some callee) ∧ callee.kind = "identifier" ∧ callee.text = .ok name

/-- A call of a member of `this`. -/
def CallsMember (call : Cursor) (name : String) : Prop :=
  ∃ callee object property, call.callee = .ok (some callee) ∧
    callee.kind = "member_expression" ∧ callee.field "object" = .ok (some object) ∧
    object.kind = "this" ∧ callee.field "property" = .ok (some property) ∧
    property.text = .ok name

end Cursor

namespace ScopeTable

variable {t : ScopeTable} {call : Cursor} {name : String} {b : Binding}

theorem localBinding?_mem {n : Nat} {name : String} (h : t.localBinding? n name = some b) :
    b ∈ t.bindings := by
  obtain ⟨s, -, h⟩ := Option.bind_eq_some_iff.1 h
  obtain ⟨number, -, h⟩ := Option.bind_eq_some_iff.1 h
  exact List.mem_of_getElem? h

theorem resolve_mem {name : String} {n : Nat} {methods : Bool}
    (h : t.resolve name n methods = some b) : b ∈ t.bindings := by
  obtain ⟨m, -, h⟩ := List.exists_of_findSome?_eq_some h
  exact localBinding?_mem (Option.filter_eq_some_iff.1 h).1

/-- Following aliases from a binding of the table stays in the table. -/
theorem followAliases_mem {steps : Nat} {start : Option Binding}
    (hStart : ∀ b, start = some b → b ∈ t.bindings) (h : t.followAliases steps start = some b) :
    b ∈ t.bindings := by
  fun_induction t.followAliases steps start with
  | case1 => cases h
  | case2 => cases h
  | case3 steps b' hTarget =>
      cases h
      exact hStart _ rfl
  | case4 => cases h
  | case5 steps b' hTarget other hOther ih => exact ih (fun _ => resolve_mem) h

theorem resolveFunction_mem {name : String} {n : Nat} (h : t.resolveFunction name n = some b) :
    b ∈ t.bindings :=
  followAliases_mem (fun _ => resolve_mem) h

theorem resolveMember_mem {name : String} {n : Nat} (h : t.resolveMember name n = some b) :
    b ∈ t.bindings := by
  obtain ⟨owner, -, h⟩ := Option.bind_eq_some_iff.1 h
  exact localBinding?_mem (Option.filter_eq_some_iff.1 h).1

/-- A call is followed to the function that its name stands for, or to a member of the class around
it. -/
inductive Leads (t : ScopeTable) (call : Cursor) (b : Binding) : Prop
  | name {name : String} (hCalls : call.CallsName name)
      (hFound : t.resolveFunction name (t.scopeFor call) = some b)
  | member {name : String} (hCalls : call.CallsMember name)
      (hFound : t.resolveMember name (t.scopeFor call) = some b)

theorem resolveCallee_of_callsName (h : call.CallsName name) :
    t.resolveCallee call = .ok (t.resolveFunction name (t.scopeFor call)) := by
  obtain ⟨callee, hCallee, hKind, hText⟩ := h
  simp [resolveCallee, hCallee, hKind, hText, bind, Except.bind, pure, Except.pure]

theorem resolveCallee_of_callsMember (h : call.CallsMember name) :
    t.resolveCallee call = .ok (t.resolveMember name (t.scopeFor call)) := by
  obtain ⟨callee, object, property, hCallee, hKind, hObject, hThis, hProperty, hText⟩ := h
  simp only [resolveCallee, hCallee, hKind, hObject, hProperty, hThis, hText, bind, Except.bind,
    pure, Except.pure]
  cases hNearest : t.nearest? [.classBody] (t.scopeFor call) <;> simp [resolveMember, hNearest]

theorem resolveCallee_eq_some_iff : t.resolveCallee call = .ok (some b) ↔ t.Leads call b := by
  constructor
  · intro h
    obtain ⟨found, hCallee, h⟩ := exists_of_bind_eq_ok h
    cases found with
    | none => cases h
    | some callee =>
        simp only at h
        split at h
        · next hKind =>
            obtain ⟨name, hText, h⟩ := exists_of_bind_eq_ok h
            exact .name ⟨callee, hCallee, hKind, hText⟩ (Except.ok.inj h)
        · split at h
          · next hKind =>
              obtain ⟨object, hObject, h⟩ := exists_of_bind_eq_ok h
              obtain ⟨property, hProperty, h⟩ := exists_of_bind_eq_ok h
              match object, property with
              | none, _ => cases h
              | some _, none => cases h
              | some object, some property =>
                  simp only at h
                  split at h
                  · next hThis =>
                      split at h
                      · cases h
                      · obtain ⟨name, hText, h⟩ := exists_of_bind_eq_ok h
                        exact .member ⟨callee, object, property, hCallee, hKind, hObject, hThis,
                          hProperty, hText⟩ (Except.ok.inj h)
                  · cases h
          · cases h
  · rintro (⟨hCalls, hFound⟩ | ⟨hCalls, hFound⟩)
    · rw [resolveCallee_of_callsName hCalls, hFound]
    · rw [resolveCallee_of_callsMember hCalls, hFound]

/-- A call invokes a function that some binding of the table names. -/
theorem resolveCallee_mem (h : t.resolveCallee call = .ok (some b)) : b ∈ t.bindings := by
  cases resolveCallee_eq_some_iff.1 h with
  | name _ hFound => exact resolveFunction_mem hFound
  | member _ hFound => exact resolveMember_mem hFound

end ScopeTable

namespace Cursor.ReadsFailOnly

variable {P : Fault → Prop} {root c : Cursor}

theorem resolveCallee (h : root.ReadsFailOnly P) (hc : c ∈ root.preorder) (t : ScopeTable) :
    FailsOnly P (t.resolveCallee c) := by
  refine (h.field hc "function").bind fun found hFound => ?_
  cases found with
  | none => exact FailsOnly.ok none
  | some callee =>
      have hCallee := mem_preorder_of_field hc hFound
      simp only
      split
      · exact (h.text hCallee).bind fun _ _ => FailsOnly.ok _
      · split
        · refine (h.field hCallee "object").bind fun object _ => ?_
          refine (h.field hCallee "property").bind fun property hProperty => ?_
          split
          · split
            · split
              · exact FailsOnly.ok none
              · exact (h.text (mem_preorder_of_field hCallee hProperty)).bind
                  fun _ _ => FailsOnly.ok _
            · exact FailsOnly.ok none
          · exact FailsOnly.ok none
        · exact FailsOnly.ok none

theorem resolveIdentifier (h : root.ReadsFailOnly P) (hc : c ∈ root.preorder) (t : ScopeTable) :
    FailsOnly P (t.resolveIdentifier c) := by
  unfold ScopeTable.resolveIdentifier
  split
  · exact (h.text hc).bind fun _ _ => FailsOnly.ok _
  · exact FailsOnly.ok none

theorem apiName (h : root.ReadsFailOnly P) (hc : c ∈ root.preorder) (t : ScopeTable)
    (apis : List String) : FailsOnly P (Detector.apiName t apis c) := by
  refine (h.calleeName hc).bind fun name _ => ?_
  cases name with
  | none => exact FailsOnly.ok none
  | some name =>
      simp only
      split
      · exact FailsOnly.ok _
      · refine (h.field hc "function").bind fun found hFound => ?_
        cases found with
        | none => exact FailsOnly.ok none
        | some callee =>
            exact (h.resolveIdentifier (mem_preorder_of_field hc hFound) t).bind
              fun _ _ => FailsOnly.ok _

theorem rootsAt (h : root.ReadsFailOnly P) (hc : c ∈ root.preorder) (t : ScopeTable)
    (d : Detector) : FailsOnly P (d.rootsAt t c) := by
  have hSubscriptions : ∀ category apis,
      FailsOnly P (Detector.subscriptions t category apis c) := by
    intro category apis
    unfold Detector.subscriptions
    split
    · exact FailsOnly.ok []
    · refine (h.apiName hc t apis).bind fun api _ => ?_
      cases api with
      | none => exact FailsOnly.ok []
      | some api => exact (h.functionArguments hc).bind fun _ _ => FailsOnly.ok _
  cases d with
  | frameLoop apis => exact hSubscriptions _ apis
  | timerLoop apis => exact hSubscriptions _ apis
  | fastEvent events =>
      unfold Detector.rootsAt Detector.eventHandlers
      simp only
      split
      · exact FailsOnly.ok []
      · split
        · next name value rest hChildren =>
            have hName : name ∈ c.namedChildren := hChildren ▸ List.mem_cons_self
            refine (h.text (mem_preorder_of_mem_namedChildren hc hName)).bind fun event _ => ?_
            split
            · exact FailsOnly.ok _
            · exact FailsOnly.ok []
        · exact FailsOnly.ok []

end Cursor.ReadsFailOnly

namespace Detector

/-- A callback lies in the tree in which it was registered. -/
theorem function_mem_of_mem_rootsAt {t : ScopeTable} {d : Detector} {root c : Cursor}
    {roots : List Root} (hc : c ∈ root.preorder) (h : d.rootsAt t c = .ok roots) {r : Root}
    (hr : r ∈ roots) : r.function ∈ root.preorder := by
  have hSubscriptions : ∀ category apis,
      subscriptions t category apis c = .ok roots → r.function ∈ root.preorder := by
    intro category apis h
    unfold subscriptions at h
    split at h
    · cases h
      cases hr
    · obtain ⟨api, -, h⟩ := exists_of_bind_eq_ok h
      cases api with
      | none =>
          cases h
          cases hr
      | some api =>
          obtain ⟨args, hArgs, h⟩ := exists_of_bind_eq_ok h
          cases h
          obtain ⟨f, hf, rfl⟩ := List.mem_map.1 hr
          exact Cursor.mem_preorder_of_mem_functionArguments hc hArgs hf
  cases d with
  | frameLoop apis => exact hSubscriptions _ apis h
  | timerLoop apis => exact hSubscriptions _ apis h
  | fastEvent events =>
      unfold rootsAt eventHandlers at h
      simp only at h
      split at h
      · cases h
        cases hr
      · split at h
        · next name value rest hChildren =>
            have hValue : value ∈ c.namedChildren :=
              hChildren ▸ List.mem_cons_of_mem _ List.mem_cons_self
            obtain ⟨event, -, h⟩ := exists_of_bind_eq_ok h
            split at h
            · cases h
              obtain ⟨f, hf, rfl⟩ := List.mem_map.1 hr
              exact Cursor.mem_preorder_of_mem_namedChildren
                (Cursor.mem_preorder_of_mem_namedChildren hc hValue) (List.mem_filter.1 hf).1
            · cases h
              cases hr
        · cases h
          cases hr

theorem function_mem_of_detect_ok {t : ScopeTable} {d : Detector} {root : Cursor}
    {roots : List Root} (h : ((d.detect t root).run ()).result = .ok roots) {r : Root}
    (hr : r ∈ roots) : r.function ∈ root.preorder := by
  obtain ⟨found, hFound, h, -⟩ := Task.exists_of_bind_ok h
  cases h
  rw [Task.eq_map_of_collect_ok (fun _ _ _ _ => Task.eq_of_absorb_read_ok) hFound] at hr
  obtain ⟨rs, hrs, hr⟩ := List.mem_flatten.1 hr
  obtain ⟨c, hc, rfl⟩ := List.mem_map.1 hrs
  cases hRead : d.rootsAt t c with
  | ok rs =>
      rw [hRead] at hr
      exact function_mem_of_mem_rootsAt hc hRead hr
  | error fault =>
      rw [hRead] at hr
      cases hr

theorem keeps_detect {root : Cursor}
    (hReads : root.ReadsFailOnly fun fault => fault.absorbed = true)
    (t : ScopeTable) (d : Detector) :
    Task.Keeps (fun _ => False) Anywhere (d.detect t root) := by
  refine Task.Keeps.bind (Task.Keeps.collect fun c hc => ?_) fun found => Task.Keeps.pure _
  exact Task.Keeps.absorb_read (hReads.rootsAt hc t d) [] _

end Detector

namespace Root

/-- Every detected root is a function of the tree. -/
theorem function_mem_of_detectAll_ok {t : ScopeTable} {ds : List Detector} {root : Cursor}
    {roots : List Root} (h : ((detectAll t ds root).run ()).result = .ok roots) {r : Root}
    (hr : r ∈ roots) : r.function ∈ root.preorder := by
  obtain ⟨found, hFound, h, -⟩ := Task.exists_of_bind_ok h
  cases h
  rw [List.mem_mergeSort] at hr
  obtain ⟨rs, hrs, hr⟩ := List.mem_flatten.1 hr
  obtain ⟨d, -, ⟨⟩, hDetect⟩ := Task.exists_of_mem_collect_ok hFound hrs
  exact Detector.function_mem_of_detect_ok hDetect hr

/-- Detection never fails on a tree whose faults are absorbed. -/
theorem exists_detectAll_ok {root : Cursor}
    (hReads : root.ReadsFailOnly fun fault => fault.absorbed = true) (t : ScopeTable)
    (ds : List Detector) : ∃ roots, ((detectAll t ds root).run ()).result = .ok roots := by
  refine Task.Keeps.exists_ok (R := Anywhere) ?_ ()
  exact Task.Keeps.bind (Task.Keeps.collect fun d _ => Detector.keeps_detect hReads t d)
    fun found => Task.Keeps.pure _

end Root

end HotPath
