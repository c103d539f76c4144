import HotPath.Proofs.Scope.Handlers

/-! The scope walk as a function on shapes. Faults of single nodes are absorbed, so the walk always
comes to its end, and what it makes of the shape depends on nothing but which nodes open a scope. -/

namespace HotPath

/-- The kind of the scope that a node opens, if it opens one: a function whose name can be read, the
body of a class, and a block that is no body of a function. -/
def Cursor.opens? (c : Cursor) : Option ScopeKind :=
  if c.isFunction then if c.declaredName.isOk then some .function else none
  else if c.kind = "class_body" then some .classBody
  else if blockKinds.contains c.kind &&
    !(c.kind == "statement_block" && c.parent?.any (·.isFunction)) then some .block
  else none

namespace Shape

/-- What entering a node does. -/
def enter (c : Cursor) (s : Shape) : Shape :=
  match c.opens? with
  | none => s
  | some kind => s.push kind c

/-- What an event of the walk does. -/
def step (e : Event) (s : Shape) : Shape :=
  match e.phase with
  | .enter => (s.enter e.cursor).place e.cursor
  | .leave => if ScopeStep.closesScope e.cursor.kind then s.pop e.cursor else s

/-- What events of the walk do, one after the other. -/
def walk (es : List Event) (s : Shape) : Shape := es.foldl (fun s e => s.step e) s

end Shape

namespace ScopeStep

open ScopeBuilder

variable {P : Fault → Prop} {root c : Cursor}

theorem enters_of_declares (hOpens : c.opens? = none) {t : ScopeStep Unit}
    (h : Task.Keeps P (Declares root) t) : Task.Keeps P (Moves root (Shape.enter c)) t := by
  refine h.imp fun hab => ⟨?_, hab.grows⟩
  rw [hab.shape_eq, Shape.enter, hOpens]
  rfl

theorem enters_of_pushes {kind : ScopeKind} (hOpens : c.opens? = some kind) {t : ScopeStep Unit}
    (h : Task.Keeps P (Moves root (Shape.push kind c)) t) :
    Task.Keeps P (Moves root (Shape.enter c)) t := by
  refine h.imp fun hab => ⟨?_, hab.grows⟩
  rw [hab.shape_eq, Shape.enter, hOpens]

theorem opens?_of_isFunction (h : c.isFunction = true) :
    c.opens? = if c.declaredName.isOk then some .function else none := by
  rw [Cursor.opens?, if_pos h]

theorem opens?_of_block (hFunction : c.isFunction = false) (hBlock : blockKinds.contains c.kind) :
    c.opens? = if isFunctionBody c then none else some .block := by
  have hKind : c.kind ≠ "class_body" := by
    intro hKind
    rw [hKind] at hBlock
    exact absurd hBlock (by decide)
  rw [Cursor.opens?, hFunction, if_neg Bool.false_ne_true, if_neg hKind, hBlock, Bool.true_and,
    ← isFunctionBody]
  cases isFunctionBody c with
  | false => rfl
  | true => rfl

theorem opens?_of_other (hFunction : c.isFunction = false)
    (hBlock : blockKinds.contains c.kind = false) (hKind : c.kind ≠ "class_body") :
    c.opens? = none := by
  rw [Cursor.opens?, hFunction, if_neg Bool.false_ne_true, if_neg hKind, hBlock, Bool.false_and,
    if_neg Bool.false_ne_true]

/-- The kinds of classes and fields are no kinds that open a scope. -/
theorem kind_of_mem_classKinds {kind : String} (h : classKinds.contains kind = true) :
    blockKinds.contains kind = false ∧ kind ≠ "class_body" := by
  simp only [classKinds, List.contains_cons, List.contains_nil, Bool.or_eq_true, beq_iff_eq,
    Bool.or_false] at h
  rcases h with rfl | rfl | rfl <;> decide

theorem kind_of_mem_fieldKinds {kind : String} (h : fieldKinds.contains kind = true) :
    kind ≠ "class_body" := by
  simp only [fieldKinds, List.contains_cons, List.contains_nil, Bool.or_eq_true, beq_iff_eq,
    Bool.or_false] at h
  rcases h with rfl | rfl <;> decide

/-- The handler that a node has, with the scope that the node is said to open. -/
inductive Handled (c : Cursor) : Option (Cursor → ScopeStep Unit) → Prop
  | function (hFunction : c.isFunction = true)
      (hOpens : c.opens? = if c.declaredName.isOk then some .function else none) :
      Handled c (some enterFunction)
  | classes (hOpens : c.opens? = none) : Handled c (some enterClass)
  | block (hOpens : c.opens? = if isFunctionBody c then none else some .block) :
      Handled c (some enterBlock)
  | field (hOpens : c.opens? = none) : Handled c (some enterField)
  | classBody (hOpens : c.opens? = some .classBody) : Handled c (some enterClassBody)
  | declarator (hOpens : c.opens? = none) : Handled c (some enterDeclarator)
  | importing (hOpens : c.opens? = none) : Handled c (some enterImport)
  | other (hOpens : c.opens? = none) : Handled c none

theorem handled (c : Cursor) : Handled c (enter c.kind) := by
  unfold enter
  split
  · next hFunction => exact .function hFunction (opens?_of_isFunction hFunction)
  · next hFunction =>
      have hFunction : c.isFunction = false := by simpa [Cursor.isFunction] using hFunction
      split
      · next hClass =>
          obtain ⟨hBlock, hKind⟩ := kind_of_mem_classKinds hClass
          exact .classes (opens?_of_other hFunction hBlock hKind)
      · split
        · next hBlock => exact .block (opens?_of_block hFunction hBlock)
        · next hBlock =>
            have hBlock : blockKinds.contains c.kind = false := by simpa using hBlock
            split
            · next hField =>
                exact .field (opens?_of_other hFunction hBlock (kind_of_mem_fieldKinds hField))
            · split
              · next hKind =>
                  refine .classBody ?_
                  rw [Cursor.opens?, hFunction, if_neg Bool.false_ne_true, if_pos hKind]
              · next hKind =>
                  have hOpens := opens?_of_other hFunction hBlock hKind
                  split
                  · exact .declarator hOpens
                  · split
                    · exact .importing hOpens
                    · exact .other hOpens

/-- Each handler opens the scope that its node is said to open, or none. -/
theorem keeps_enter (hReads : root.ReadsFailOnly P) (hc : c ∈ root.preorder)
    {handler : Cursor → ScopeStep Unit} (hHandler : enter c.kind = some handler) :
    Task.Keeps P (Moves root (Shape.enter c)) (handler c) := by
  have hHandled := handled c
  rw [hHandler] at hHandled
  cases hHandled with
  | function hFunction hOpens =>
      cases hName : c.declaredName with
      | ok name =>
          refine enters_of_pushes ?_
            (keeps_enterFunction hReads (List.mem_filter.2 ⟨hc, hFunction⟩) hName)
          rw [hOpens, hName]
          rfl
      | error fault =>
          refine enters_of_declares ?_ ?_
          · rw [hOpens, hName]
            rfl
          · unfold enterFunction
            rw [hName]
            exact Task.Keeps.stop (hReads.declaredName hc fault hName)
  | classes hOpens => exact enters_of_declares hOpens (keeps_enterClass hReads hc)
  | block hOpens =>
      cases hBody : isFunctionBody c with
      | true =>
          refine enters_of_declares ?_ ?_
          · rw [hOpens, hBody]
            rfl
          · unfold enterBlock
            rw [hBody, if_pos rfl]
            exact Task.Keeps.pure ()
      | false =>
          refine enters_of_pushes ?_ (keeps_enterBlock hReads hc hBody)
          rw [hOpens, hBody]
          rfl
  | field hOpens => exact enters_of_declares hOpens (keeps_enterField hReads hc)
  | classBody hOpens => exact enters_of_pushes hOpens (keeps_push .classBody c)
  | declarator hOpens => exact enters_of_declares hOpens (keeps_enterDeclarator hReads hc)
  | importing hOpens => exact enters_of_declares hOpens (keeps_enterImport hReads hc)

theorem opens?_of_enter_none (h : enter c.kind = none) : c.opens? = none := by
  have hHandled := handled c
  rw [h] at hHandled
  cases hHandled with
  | other hOpens => exact hOpens

theorem keeps_dispatch {R : ScopeBuilder → ScopeBuilder → Prop} {e : Event}
    {handler : Cursor → ScopeStep Unit}
    (h : Task.Keeps (fun fault => fault.absorbed = true) R (handler e.cursor)) :
    Task.Keeps (fun _ => False) R (Handlers.dispatch handler e) := by
  refine (h.absorb () _).mono ?_
  rintro fault ⟨hAbsorbed, hEscapes⟩
  rw [hAbsorbed] at hEscapes
  cases hEscapes

theorem keeps_each_single {f : Shape → Shape} {e : Event} {handler : Cursor → ScopeStep Unit}
    (h : Task.Keeps (fun _ => False) (Moves root f) (Handlers.dispatch handler e)) :
    Task.Keeps (fun _ => False) (Moves root f) (Task.each (Handlers.dispatch · e) [handler]) :=
  Task.Keeps.bind_of_total h (fun _ => Task.Keeps.pure (R := Declares root) ()) moves_trans

/-- Handling an event never fails, and it changes the shape as the event says. -/
theorem keeps_handle (hReads : root.ReadsFailOnly fun fault => fault.absorbed = true) {e : Event}
    (he : e.cursor ∈ root.preorder) :
    Task.Keeps (fun _ => False) (Moves root (Shape.step e)) (handlers.handle e) := by
  obtain ⟨phase, c⟩ := e
  unfold Handlers.handle Handlers.handlersAt
  cases phase with
  | enter =>
      have hPlace : Task.Keeps (fun _ => False) (Moves root (Shape.place c))
          (Task.each (Handlers.dispatch · ⟨.enter, c⟩)
            [fun c => Task.update (ScopeBuilder.place c)]) :=
        keeps_each_single
          (keeps_dispatch (Task.Keeps.update fun b => ⟨shape_place c b, fun _ hx => .inl hx⟩))
      change Task.Keeps _ _ (Task.each _ ((enter c.kind).toList ++ [_]))
      cases hEnter : enter c.kind with
      | none =>
          refine hPlace.imp fun hab => ⟨?_, hab.grows⟩
          rw [hab.shape_eq]
          simp only [Shape.step, Shape.enter, opens?_of_enter_none hEnter]
      | some handler =>
          exact Task.Keeps.bind_of_total (keeps_dispatch (keeps_enter hReads he hEnter))
            (fun _ => hPlace) moves_trans
  | leave =>
      change Task.Keeps _ _ (Task.each _ (leave c.kind).toList)
      have hStep : Shape.step ⟨.leave, c⟩ = if closesScope c.kind then Shape.pop c else id := by
        funext s
        simp only [Shape.step]
        split <;> rfl
      unfold leave
      rw [hStep]
      split
      · exact keeps_each_single (keeps_dispatch (Task.Keeps.update fun b =>
          ⟨shape_pop c b, fun x hx => .inl (table_pop c b ▸ hx)⟩))
      · exact Task.Keeps.pure ()

theorem keeps_each_handle (hReads : root.ReadsFailOnly fun fault => fault.absorbed = true)
    {es : List Event} (hes : ∀ e ∈ es, e.cursor ∈ root.preorder) :
    Task.Keeps (fun _ => False) (Moves root (Shape.walk es)) (Task.each handlers.handle es) := by
  induction es with
  | nil => exact Task.Keeps.pure (R := Declares root) ()
  | cons e rest ih =>
      obtain ⟨he, hRest⟩ := List.forall_mem_cons.1 hes
      exact Task.Keeps.bind_of_total (keeps_handle hReads he) (fun _ => ih hRest) moves_trans

/-- Whatever the faults, a name is bound to functions of the tree only. -/
theorem keeps_grows_handle {e : Event} (he : e.cursor ∈ root.preorder) :
    Task.Keeps (fun _ => True) (Grows root) (handlers.handle e) := by
  obtain ⟨phase, c⟩ := e
  have hReads : root.ReadsFailOnly fun _ => True :=
    fun c _ => ⟨fun _ _ _ => trivial, fun _ _ => trivial⟩
  refine Task.Keeps.each fun handler hHandler => ?_
  suffices h : Task.Keeps (fun _ => True) (Grows root) (handler c) from
    (h.absorb () _).mono fun _ _ => trivial
  cases phase with
  | enter =>
      change handler ∈ (enter c.kind).toList ++ [fun c => Task.update (ScopeBuilder.place c)]
        at hHandler
      rcases List.mem_append.1 hHandler with hEnter | hPlace
      · exact (keeps_enter hReads he (Option.mem_toList.1 hEnter)).imp fun hab => hab.grows
      · rw [List.mem_singleton.1 hPlace]
        exact Task.Keeps.update fun b x hx => .inl hx
  | leave =>
      change handler ∈ (leave c.kind).toList at hHandler
      unfold leave at hHandler
      split at hHandler
      · rw [List.mem_singleton.1 hHandler]
        exact Task.Keeps.update fun b x hx => .inl (table_pop c b ▸ hx)
      · cases hHandler

end ScopeStep

/-- The walk meets nodes of the tree only. -/
theorem Cursor.mem_preorder_of_mem_events {c : Cursor} {e : Event} (he : e ∈ c.events) :
    e.cursor ∈ c.preorder := by
  induction c using children_induction with
  | h c ih =>
      rw [events_eq, List.mem_cons, List.mem_append, List.mem_singleton, List.mem_flatMap] at he
      rcases he with rfl | ⟨d, hd, he⟩ | rfl
      · exact c.mem_preorder_self
      · exact mem_preorder_iff.2 (.inr ⟨d, hd, ih d hd he⟩)
      · exact c.mem_preorder_self

/-- The shape before the walk: one scope for the whole program. -/
def Shape.start (root : Cursor) : Shape := ⟨[⟨.program, root, []⟩], {}, 0, []⟩

/-- What has been built after some events of the walk. -/
def ScopeBuilder.after (root : Cursor) (es : List Event) : ScopeBuilder :=
  ((Task.each ScopeStep.handlers.handle es).run (start .empty root)).state

/-- Events in a tree whose faults are absorbed are handled without failing. The shape is what the
events make of the program scope, and every function that a name stands for is one of the tree. -/
theorem ScopeBuilder.after_spec {root : Cursor}
    (hReads : root.ReadsFailOnly fun fault => fault.absorbed = true) {es : List Event}
    (hes : ∀ e ∈ es, e.cursor ∈ root.preorder) :
    ((Task.each ScopeStep.handlers.handle es).run (start .empty root)).result = .ok () ∧
      (after root es).shape = (Shape.start root).walk es ∧
      ∀ x ∈ (after root es).table.bindings, ∀ f, x.target? = some f → f ∈ root.functions := by
  have hWalk := ScopeStep.keeps_each_handle hReads hes
  obtain ⟨⟨⟩, hOk⟩ := hWalk.exists_ok (start .empty root)
  obtain ⟨hShape, hGrows⟩ := hWalk.state (start .empty root)
  refine ⟨hOk, hShape, fun x hx => ?_⟩
  rcases hGrows x hx with hOld | hTarget
  · cases hOld
  · exact hTarget

/-- Building a table never fails on such a tree. -/
theorem ScopeTable.build_spec {root : Cursor}
    (hReads : root.ReadsFailOnly fun fault => fault.absorbed = true) :
    ((build root).run empty).result = .ok () ∧
      ((build root).run empty).state = (ScopeBuilder.after root root.events).table := by
  have hWalk : ((ScopeStep.handlers.walk root).run (.start empty root)).result = .ok () :=
    (ScopeBuilder.after_spec hReads fun _ => Cursor.mem_preorder_of_mem_events).1
  unfold build
  rw [Task.result_state_bind, Task.state_state_bind]
  dsimp only
  rw [Task.run_bind_of_ok (Task.result_withState_of_ok hWalk empty)]
  exact ⟨rfl, rfl⟩

/-- In a table that was built from a tree, also one with faults, every function that a name stands
for is one of the tree. -/
theorem ScopeTable.target_mem_functions {root : Cursor} {x : Binding}
    (hx : x ∈ ((build root).run empty).state.bindings) {f : Cursor} (hf : x.target? = some f) :
    f ∈ root.functions := by
  have hWalks : Task.Keeps (fun _ => True) (ScopeBuilder.Grows root)
      (ScopeStep.handlers.walk root) :=
    Task.Keeps.each fun e he => ScopeStep.keeps_grows_handle (Cursor.mem_preorder_of_mem_events he)
  unfold build at hx
  rw [Task.state_state_bind] at hx
  cases hWalk : ((ScopeStep.handlers.walk root).run (.start empty root)).result with
  | error fault =>
      rw [Task.run_bind_of_error (Task.result_withState_of_error hWalk empty)] at hx
      cases hx
  | ok _ =>
      rw [Task.run_bind_of_ok (Task.result_withState_of_ok hWalk empty)] at hx
      rcases hWalks.state _ x hx with hOld | hTarget
      · cases hOld
      · exact hTarget f hf

end HotPath
