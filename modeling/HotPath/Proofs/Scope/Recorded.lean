import HotPath.Proofs.Scope.Chain
import HotPath.Proofs.Scope.Entered
import Mathlib.Data.List.Find
import Mathlib.Data.List.Forall2
import Mathlib.Data.List.Induction

/-! What a finished table records. Wherever the walk comes to a node, the scopes that are open are
those of the nodes around it, as the finished table has them. So every declaration is made in the
scope that the text says, and the bindings of the table are the declarations of the text in order. -/

namespace HotPath

namespace Shape

variable {s : Shape} {c : Cursor}

theorem frames_pop (c : Cursor) (s : Shape) : (s.pop c).frames = s.frames := by
  unfold pop
  split
  · rfl
  · split <;> rfl

theorem placed_pop (c : Cursor) (s : Shape) : (s.pop c).placed = s.placed := by
  unfold pop
  split
  · rfl
  · split <;> rfl

theorem mem_stack_of_pop {i : Nat} (h : i ∈ (s.pop c).stack) : i ∈ s.stack := by
  obtain ⟨frames, placed, top, below⟩ := s
  unfold pop at h
  cases below with
  | nil => exact h
  | cons next rest =>
      simp only at h
      split at h
      · exact List.mem_cons_of_mem top h
      · exact h

/-- Scopes are never removed. -/
theorem isPrefix_step (s : Shape) (e : Event) : s.frames <+: (s.step e).frames := by
  obtain ⟨phase, c⟩ := e
  cases phase with
  | enter =>
      obtain ⟨new, hNew, -⟩ := s.frames_inside c
      exact ⟨new, hNew.symm⟩
  | leave =>
      simp only [step]
      split
      · exact (frames_pop c s).symm ▸ List.prefix_rfl
      · exact List.prefix_rfl

theorem isPrefix_walk (s : Shape) (es : List Event) : s.frames <+: (s.walk es).frames := by
  induction es generalizing s with
  | nil => exact List.prefix_rfl
  | cons e rest ih => exact (s.isPrefix_step e).trans (ih _)

/-- A node stays where it was placed until a node of its key is entered. -/
theorem get?_placed_walk {k : Key} {es : List Event}
    (h : ∀ c, ⟨.enter, c⟩ ∈ es → c.key ≠ k) (s : Shape) :
    (s.walk es).placed.get? k = s.placed.get? k := by
  induction es generalizing s with
  | nil => rfl
  | cons e rest ih =>
      have hStep : (s.step e).placed.get? k = s.placed.get? k := by
        obtain ⟨phase, c⟩ := e
        cases phase with
        | enter =>
            change (s.inside c).placed.get? k = _
            rw [get?_placed_inside, if_neg (h c List.mem_cons_self).symm]
        | leave =>
            simp only [step]
            split
            · rw [placed_pop]
            · rfl
      exact (ih (fun c hc => h c (List.mem_cons_of_mem e hc)) _).trans hStep

/-- The numbers of scopes that a shape mentions are those of scopes that it has. -/
structure InRange (s : Shape) : Prop where
  stack : ∀ i ∈ s.stack, i < s.frames.length
  outer : ∀ f ∈ s.frames, ∀ i ∈ f.outer, i < s.frames.length

namespace InRange

theorem start (root : Cursor) : (Shape.start root).InRange := by
  constructor
  · intro i hi
    obtain rfl := List.mem_singleton.1 hi
    exact Nat.zero_lt_one
  · intro f hf i hi
    obtain rfl := List.mem_singleton.1 hf
    cases hi

theorem push (h : s.InRange) (kind : ScopeKind) (c : Cursor) : (s.push kind c).InRange := by
  have hLength : (s.push kind c).frames.length = s.frames.length + 1 := List.length_append
  constructor
  · intro i hi
    rw [hLength]
    rcases List.mem_cons.1 hi with rfl | hi
    · exact Nat.lt_succ_self _
    · exact Nat.lt_succ_of_lt (h.stack i hi)
  · intro f hf i hi
    rw [hLength]
    rcases List.mem_append.1 hf with hf | hf
    · exact Nat.lt_succ_of_lt (h.outer f hf i hi)
    · obtain rfl := List.mem_singleton.1 hf
      exact Nat.lt_succ_of_lt (h.stack i hi)

theorem step (h : s.InRange) (e : Event) : (s.step e).InRange := by
  obtain ⟨phase, c⟩ := e
  cases phase with
  | enter =>
      change ((s.enter c).place c).InRange
      unfold Shape.enter
      cases c.opens? with
      | none => exact ⟨h.stack, h.outer⟩
      | some kind => exact ⟨(h.push kind c).stack, (h.push kind c).outer⟩
  | leave =>
      simp only [Shape.step]
      split
      · constructor
        · rw [frames_pop]
          exact fun i hi => h.stack i (mem_stack_of_pop hi)
        · rw [frames_pop]
          exact h.outer
      · exact h

theorem walk (h : s.InRange) (es : List Event) : (s.walk es).InRange := by
  induction es generalizing s with
  | nil => exact h
  | cons e rest ih => exact ih (h.step e)

end InRange

end Shape

namespace ScopeTable

variable {t : ScopeTable} {b : ScopeBuilder}

theorem map_frame_scope? (t : ScopeTable) (i : Nat) :
    (t.scope? i).map Scope.frame = (t.scopes.map Scope.frame)[i]? := List.getElem?_map.symm

theorem chain_eq_frame (t : ScopeTable) (i : Nat) :
    t.chain i = (((t.scope? i).map Scope.frame).map fun f => i :: f.outer).getD [] := by
  unfold chain
  cases t.scope? i with
  | none => rfl
  | some x => rfl

/-- A table under construction whose scopes are the first ones of a finished table. -/
structure Precedes (b : ScopeBuilder) (t : ScopeTable) : Prop where
  frames : b.shape.frames <+: t.scopes.map Scope.frame
  range : b.shape.InRange

namespace Precedes

variable (h : Precedes b t)

include h

theorem frame_eq {i : Nat} (hi : i < b.shape.frames.length) :
    (b.table.scope? i).map Scope.frame = (t.scope? i).map Scope.frame := by
  obtain ⟨new, hNew⟩ := h.frames
  rw [map_frame_scope?, map_frame_scope?, ← hNew, List.getElem?_append_left hi]
  rfl

theorem kind_eq {i : Nat} (hi : i < b.shape.frames.length) :
    (b.table.scope? i).map (·.kind) = (t.scope? i).map (·.kind) := by
  have hFrame := congrArg (Option.map Frame.kind) (h.frame_eq hi)
  rw [Option.map_map, Option.map_map] at hFrame
  exact hFrame

theorem chain_eq {i : Nat} (hi : i < b.shape.frames.length) :
    b.table.chain i = t.chain i := by
  rw [chain_eq_frame, chain_eq_frame, h.frame_eq hi]

theorem lt_of_mem_chain {i j : Nat} (hi : i < b.shape.frames.length)
    (hj : j ∈ b.table.chain i) : j < b.shape.frames.length := by
  unfold chain at hj
  cases hScope : b.table.scope? i with
  | none => simp [hScope] at hj
  | some x =>
      simp only [hScope, List.mem_cons] at hj
      rcases hj with rfl | hj
      · exact hi
      · exact h.range.outer x.frame (List.mem_map_of_mem (List.mem_of_getElem? hScope)) j hj

theorem nearest?_eq (kinds : List ScopeKind) {i : Nat} (hi : i < b.shape.frames.length) :
    b.table.nearest? kinds i = t.nearest? kinds i := by
  unfold nearest?
  rw [← h.chain_eq hi]
  apply List.find?_congr
  intro j hj
  have hKind := congrArg (Option.any kinds.contains) (h.kind_eq (h.lt_of_mem_chain hi hj))
  rw [Option.any_map, Option.any_map] at hKind
  exact hKind

end Precedes

end ScopeTable

namespace Cursor

/-- The owner of the scope into which a node declares around itself. -/
def home? (c root : Cursor) : Option Cursor :=
  if c.isHoisted then functionOwner? ((c.outward root).drop 1)
  else opener? ((c.outward root).drop 1)

/-- Whether the innermost scope around a node is that of a class body. -/
def inClassBody (c root : Cursor) : Bool :=
  ownerKind? (opener? ((c.outward root).drop 1)) = some .classBody

/-- The declarations of a node, each with the owner of the scope that it belongs to. -/
def declarations (c root : Cursor) : List (Option Cursor × Declaration) :=
  (((c.outerDeclarations (c.inClassBody root)).map (c.home? root, ·)) ++
    if c.opens?.isSome then c.innerDeclarations.map (some c, ·) else []).filter
      fun p => !p.2.name.isEmpty

/-- A declarator declares around itself only. -/
theorem declarations_of_declarator {c : Cursor} (hKind : c.kind = "variable_declarator")
    (root : Cursor) : c.declarations root =
      (c.declaratorDeclarations.map (c.home? root, ·)).filter fun p => !p.2.name.isEmpty := by
  obtain ⟨hOpens, hOuter⟩ := ScopeStep.outerDeclarations_declarator hKind
  rw [declarations, hOpens, hOuter]
  simp

end Cursor

namespace ScopeTable

open Cursor

variable {t : ScopeTable} {root c : Cursor} {b : ScopeBuilder}

/-- What is true of a table under construction when the walk comes to a node. The innermost scope is
that of the nearest node around it, and the scope that the node opens is the next one. -/
structure Arrived (root : Cursor) (t : ScopeTable) (c : Cursor) (b : ScopeBuilder) : Prop
    extends Precedes b t where
  top : t.OpenedBy b.top (opener? ((c.outward root).drop 1))
  own : ∀ kind, c.opens? = some kind → t.OpenedBy b.table.scopes.length (some c)

namespace Arrived

theorem top_lt (h : Arrived root t c b) : b.top < b.shape.frames.length :=
  h.range.stack b.top List.mem_cons_self

theorem topKind?_iff (h : Arrived root t c b) (hLexical : t.Lexical root) :
    b.topKind? = some .classBody ↔ c.inClassBody root = true := by
  unfold ScopeBuilder.topKind? inClassBody
  rw [h.kind_eq h.top_lt, hLexical.kind_eq h.top, decide_eq_true_eq]

theorem home (h : Arrived root t c b) (hLexical : t.Lexical root) (hc : c ∈ root.preorder) :
    t.OpenedBy (b.home c) (c.home? root) := by
  unfold ScopeBuilder.home home?
  split
  · obtain ⟨j, hNearest, hj⟩ := hLexical.exists_nearest (hLexical.chain_around hc h.top)
    rw [h.nearest?_eq _ h.top_lt, hNearest]
    exact hj
  · exact h.top

end Arrived

/-- A binding is a declaration that was made in the scope of its owner. -/
def Records (t : ScopeTable) (p : Option Cursor × Declaration) (x : Binding) : Prop :=
  t.OpenedBy x.scope p.1 ∧ x.toDeclaration = p.2

/-- Declarations in the scope of one owner are recorded in order, but for empty names. -/
theorem records_declareAll {ps : List (Option Cursor × Declaration)} {n : Nat}
    {owner : Option Cursor} (hOwner : t.OpenedBy n owner) (ds : List Declaration)
    (h : List.Forall₂ t.Records ps b.table.bindings) :
    List.Forall₂ t.Records (ps ++ (ds.map (owner, ·)).filter fun p => !p.2.name.isEmpty)
      (b.declareAll n ds).table.bindings := by
  induction ds generalizing ps b with
  | nil => simpa using h
  | cons d rest ih =>
      change List.Forall₂ _ _ ((b.declare n d).declareAll n rest).table.bindings
      unfold ScopeBuilder.declare
      cases hName : d.name.isEmpty with
      | true =>
          simp only [List.map_cons, hName, Bool.not_true, List.filter_cons_of_neg,
            Bool.false_eq_true, not_false_eq_true, if_true]
          exact ih h
      | false =>
          have hNew : List.Forall₂ t.Records (ps ++ [(owner, d)])
              (b.table.declare n d).bindings :=
            List.rel_append h (.cons ⟨hOwner, rfl⟩ .nil)
          have hRest := ih (b := { b with table := b.table.declare n d }) hNew
          simpa [hName] using hRest

theorem shape_declareAll (n : Nat) (ds : List Declaration) (b : ScopeBuilder) :
    (b.declareAll n ds).shape = b.shape := by
  induction ds generalizing b with
  | nil => rfl
  | cons d rest ih => exact (ih _).trans (ScopeBuilder.shape_declare n d b)

theorem length_scopes_declareAll (n : Nat) (ds : List Declaration) (b : ScopeBuilder) :
    (b.declareAll n ds).table.scopes.length = b.table.scopes.length := by
  have hShape := congrArg (fun s => s.frames.length) (shape_declareAll n ds b)
  simpa [ScopeBuilder.shape] using hShape

/-- Entering a node records its declarations. -/
theorem Arrived.records_entered (h : Arrived root t c b) (hLexical : t.Lexical root)
    (hc : c ∈ root.preorder) {ps : List (Option Cursor × Declaration)}
    (hRecords : List.Forall₂ t.Records ps b.table.bindings) :
    List.Forall₂ t.Records (ps ++ c.declarations root) (b.entered c).table.bindings := by
  have hOuter := records_declareAll (h.home hLexical hc)
    (c.outerDeclarations (c.inClassBody root)) hRecords
  have hClass : decide (b.topKind? = some .classBody) = c.inClassBody root := by
    rw [Bool.eq_iff_iff, decide_eq_true_iff]
    exact h.topKind?_iff hLexical
  unfold ScopeBuilder.entered declarations
  rw [hClass]
  cases hOpens : c.opens? with
  | none => simpa using hOuter
  | some kind =>
      simp only [Option.isSome_some, if_true, List.filter_append, length_scopes_declareAll]
      rw [← List.append_assoc]
      exact records_declareAll (h.own kind hOpens) _ hOuter

theorem eq_of_chain_eq_cons {i j : Nat} {rest : List Nat} (h : t.chain i = j :: rest) :
    i = j := by
  unfold chain at h
  split at h
  · cases h
  · exact (List.cons.inj h).1

/-- Where the finished table puts a node tells which scopes were open when it was entered: its own
scope lies in the innermost of them, and without one it lies there itself. -/
theorem Precedes.arrived (h : Precedes b t) (hLexical : t.Lexical root) (hc : c ∈ root.preorder)
    (hInside : (b.shape.inside c).frames <+: t.scopes.map Scope.frame)
    (hPlaced : t.placed.get? c.key = some (b.shape.inside c).top) : Arrived root t c b := by
  have hScope : t.OpenedBy (b.shape.inside c).top (opener? (c.outward root)) :=
    scopeFor_of_placed hPlaced ▸ hLexical.placed c hc
  rw [outward_eq_cons hc] at hScope
  unfold Shape.inside Shape.enter at hInside hScope
  cases hOpens : c.opens? with
  | none =>
      rw [opener?_cons_of_none hOpens, hOpens] at hScope
      exact ⟨h, hScope, fun kind hKind => by cases hOpens.symm.trans hKind⟩
  | some kind =>
      rw [opener?_cons_of_some hOpens, hOpens] at hScope
      rw [hOpens] at hInside
      have hLength : b.shape.frames.length = b.table.scopes.length := List.length_map _
      obtain ⟨hPos, x, hx, hNode, -⟩ := id hScope
      obtain ⟨-, p, hp, hOuter⟩ := hLexical.parent _ x hPos hx
      have hFrame : some x.frame = some ⟨kind, c, b.shape.stack⟩ := by
        obtain ⟨new, hNew⟩ := hInside
        rw [← Option.map_some, ← hx, map_frame_scope?, ← hNew]
        simp [Shape.place, Shape.push, Shape.stack]
      have hStack : x.outer = b.top :: b.below := congrArg Frame.outer (Option.some.inj hFrame)
      rw [eq_of_chain_eq_cons (hOuter.symm.trans hStack), hNode] at hp
      exact ⟨h, hp, fun _ _ => hLength ▸ hScope⟩

/-- Whenever the walk enters a node, it finds the scopes that the finished table has around it. -/
theorem arrived (hKeys : root.DistinctKeys)
    (hReads : root.ReadsFailOnly fun fault => fault.absorbed = true) {before rest : List Event}
    (hEvents : root.events = before ++ ⟨.enter, c⟩ :: rest) :
    Arrived root (ScopeBuilder.after root root.events).table c
      (ScopeBuilder.after root before) := by
  have hMem : ∀ e ∈ root.events, e.cursor ∈ root.preorder :=
    fun _ => mem_preorder_of_mem_events
  have hc : c ∈ root.preorder := hMem ⟨.enter, c⟩ (by simp [hEvents])
  have hLexical := (finished_build hKeys hReads).lexical hKeys
  have hBefore := (ScopeBuilder.after_spec hReads
    fun e he => hMem e (hEvents ▸ List.mem_append_left _ he)).2.1
  have hFinal : (ScopeBuilder.after root root.events).shape =
      ((ScopeBuilder.after root before).shape.inside c).walk rest := by
    rw [(ScopeBuilder.after_spec hReads hMem).2.1, hEvents, Shape.walk_append, hBefore]
    rfl
  -- No other node has the key, so the finished table still has the node where it was placed here.
  have hOther : ∀ d, ⟨.enter, d⟩ ∈ rest → d.key ≠ c.key := by
    intro d hd hSame
    have hdRoot := hMem ⟨.enter, d⟩ (by simp [hEvents, hd])
    exact (hKeys.enter_notMem hEvents).2 (hKeys.eq_of_key_eq hdRoot hc hSame ▸ hd)
  have hInside : ((ScopeBuilder.after root before).shape.inside c).frames <+:
      (ScopeBuilder.after root root.events).shape.frames := by
    rw [hFinal]
    exact Shape.isPrefix_walk _ rest
  apply Precedes.arrived _ hLexical hc hInside
  · change (ScopeBuilder.after root root.events).shape.placed.get? c.key = _
    rw [hFinal, Shape.get?_placed_walk hOther, Shape.get?_placed_inside, if_pos rfl]
  · constructor
    · exact (Shape.isPrefix_step _ ⟨.enter, c⟩).trans hInside
    · rw [hBefore]
      exact (Shape.InRange.start root).walk before

/-- As far as the walk has come, the bindings are the declarations of the nodes that it entered. -/
theorem records_after (hKeys : root.DistinctKeys) (hFree : root.FaultFree)
    {before rest : List Event} (hEvents : root.events = before ++ rest) :
    List.Forall₂ (ScopeBuilder.after root root.events).table.Records
      ((before.filterMap Event.entered?).flatMap (·.declarations root))
      (ScopeBuilder.after root before).table.bindings := by
  have hReads := hFree.reads fun fault => fault.absorbed = true
  induction before using List.reverseRecOn generalizing rest with
  | nil => exact .nil
  | append_singleton before e ih =>
      rw [List.append_assoc, List.singleton_append] at hEvents
      have hMem : ∀ e' ∈ before ++ [e], e'.cursor ∈ root.preorder := by
        intro e' he'
        apply mem_preorder_of_mem_events
        rw [hEvents, ← List.singleton_append, ← List.append_assoc]
        exact List.mem_append_left rest he'
      have hBefore := ih hEvents
      rw [ScopeStep.after_concat hFree hMem, List.filterMap_append, List.flatMap_append]
      obtain ⟨phase, c⟩ := e
      cases phase with
      | enter =>
          have hLexical := (finished_build hKeys hReads).lexical hKeys
          have hc : c ∈ root.preorder := hMem ⟨.enter, c⟩ (by simp)
          rw [List.filterMap_cons_some (Event.entered?_enter c), List.filterMap_nil,
            List.flatMap_singleton]
          exact (arrived hKeys hReads hEvents).records_entered hLexical hc hBefore
      | leave =>
          simp only [List.filterMap_cons, Event.entered?_leave, List.filterMap_nil,
            List.flatMap_nil, List.append_nil, ScopeBuilder.step]
          split
          · rw [ScopeBuilder.table_pop]
            exact hBefore
          · exact hBefore

end ScopeTable

end HotPath
