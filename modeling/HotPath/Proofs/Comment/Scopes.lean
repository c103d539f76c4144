import HotPath.Proofs.Comment.Declared
import HotPath.Proofs.Scope.Entered
import HotPath.Proofs.Scope.Lexical
import HotPath.Scope.Resolve

/-! The scopes of a tree without its comments. The walks over the tree with and without comments go
in step, but for the events at comments, which declare nothing and open no scope. So the two tables
have the same scopes and bindings, and all names are resolved alike. -/

namespace HotPath

def Scope.uncommented (s : Scope) : Scope := { s with node := s.node.uncommented }

def Binding.uncommented (b : Binding) : Binding :=
  { b with toDeclaration := b.toDeclaration.uncommented }

@[simp] theorem Binding.target?_uncommented (b : Binding) :
    b.uncommented.target? = b.target?.map Cursor.uncommented :=
  b.kind.target?_uncommented

@[simp] theorem Binding.isMethod_uncommented (b : Binding) :
    b.uncommented.kind.isMethod = b.kind.isMethod :=
  b.kind.isMethod_uncommented

namespace ScopeTable

/-- One table has the scopes and bindings of another, without comments. -/
structure Mirrors (t t' : ScopeTable) : Prop where
  scopes : t'.scopes = t.scopes.map Scope.uncommented
  bindings : t'.bindings = t.bindings.map Binding.uncommented

namespace Mirrors

variable {t t' : ScopeTable} {c : Cursor} (h : t.Mirrors t')

include h

theorem scope? (n : Nat) : t'.scope? n = (t.scope? n).map Scope.uncommented := by
  rw [ScopeTable.scope?, h.scopes, List.getElem?_map]
  rfl

theorem binding? (n : Nat) : t'.binding? n = (t.binding? n).map Binding.uncommented := by
  rw [ScopeTable.binding?, h.bindings, List.getElem?_map]
  rfl

theorem chain (n : Nat) : t'.chain n = t.chain n := by
  unfold ScopeTable.chain
  rw [h.scope?]
  cases t.scope? n with
  | none => rfl
  | some s => rfl

theorem nearest? (kinds : List ScopeKind) (n : Nat) : t'.nearest? kinds n = t.nearest? kinds n := by
  unfold ScopeTable.nearest?
  rw [h.chain]
  congr 1
  funext m
  rw [h.scope?]
  cases t.scope? m with
  | none => rfl
  | some s => rfl

theorem localBinding? (n : Nat) (name : String) :
    t'.localBinding? n name = (t.localBinding? n name).map Binding.uncommented := by
  unfold ScopeTable.localBinding?
  rw [h.scope?]
  cases t.scope? n with
  | none => rfl
  | some s =>
      show (s.names.get? name).bind t'.binding? =
        ((s.names.get? name).bind t.binding?).map Binding.uncommented
      cases s.names.get? name with
      | none => rfl
      | some number => exact h.binding? number

/-- A name is resolved to the same binding. -/
theorem resolve (name : String) (n : Nat) (methods : Bool) :
    t'.resolve name n methods = (t.resolve name n methods).map Binding.uncommented := by
  have hLocal : (fun m => (t'.localBinding? m name).filter fun b => methods || !b.kind.isMethod) =
      Option.map Binding.uncommented ∘ fun m =>
        (t.localBinding? m name).filter fun b => methods || !b.kind.isMethod := by
    funext m
    simp only [h.localBinding?, Option.filter_map, Function.comp_def, Binding.isMethod_uncommented]
  unfold ScopeTable.resolve
  rw [h.chain, hLocal, List.map_findSome?]

theorem followAliases (steps : Nat) (start : Option Binding) :
    t'.followAliases steps (start.map Binding.uncommented) =
      (t.followAliases steps start).map Binding.uncommented := by
  fun_induction t.followAliases steps start with
  | case1 => rfl
  | case2 => rfl
  | case3 steps b hTarget => simp [ScopeTable.followAliases, hTarget]
  | case4 steps b hTarget hAlias =>
      have hAlias : b.uncommented.aliasOf = none := hAlias
      simp [ScopeTable.followAliases, hTarget, hAlias]
  | case5 steps b hTarget other hAlias ih =>
      have hAlias : b.uncommented.aliasOf = some other := hAlias
      have hScope : b.uncommented.scope = b.scope := rfl
      rw [← ih, ← h.resolve]
      simp [ScopeTable.followAliases, hTarget, hAlias, hScope]

theorem resolveFunction (name : String) (n : Nat) :
    t'.resolveFunction name n = (t.resolveFunction name n).map Binding.uncommented := by
  unfold ScopeTable.resolveFunction
  rw [h.resolve, h.followAliases]

theorem resolveMember (name : String) (n : Nat) :
    t'.resolveMember name n = (t.resolveMember name n).map Binding.uncommented := by
  unfold ScopeTable.resolveMember
  rw [h.nearest?]
  cases t.nearest? [.classBody] n with
  | none => rfl
  | some owner =>
      show (t'.localBinding? owner name).filter _ =
        ((t.localBinding? owner name).filter _).map Binding.uncommented
      simp only [h.localBinding?, Option.filter_map, Function.comp_def,
        Binding.target?_uncommented, Option.isSome_map]

/-- A call invokes the same function. -/
theorem resolveCallee (hScope : t'.scopeFor c.uncommented = t.scopeFor c) :
    t'.resolveCallee c.uncommented =
      (t.resolveCallee c).map (·.map Binding.uncommented) := by
  have hCallee : c.uncommented.callee = c.callee.map (·.map Cursor.uncommented) :=
    c.field_uncommented (by decide)
  unfold ScopeTable.resolveCallee
  rw [hCallee, hScope]
  cases c.callee with
  | error fault => rfl
  | ok found =>
      cases found with
      | none => rfl
      | some callee =>
          simp only [Except.map, Option.map_some, bind, Except.bind, Cursor.kind_uncommented,
            Cursor.text_uncommented, callee.field_uncommented (show "object" ≠ "" by decide),
            callee.field_uncommented (show "property" ≠ "" by decide)]
          split
          · cases callee.text with
            | error fault => rfl
            | ok name => exact congrArg Except.ok (h.resolveFunction name _)
          split
          · cases callee.field "object" with
            | error fault => rfl
            | ok object =>
                cases callee.field "property" with
                | error fault => rfl
                | ok property =>
                    cases object with
                    | none => rfl
                    | some object =>
                        cases property with
                        | none => rfl
                        | some property =>
                            simp only [Option.map_some, Cursor.kind_uncommented,
                              Cursor.text_uncommented, h.nearest?]
                            split
                            · split
                              · rfl
                              · cases property.text with
                                | error fault => rfl
                                | ok name => exact congrArg Except.ok (h.resolveMember name _)
                            · rfl
          · rfl

/-- An identifier refers to the same binding. -/
theorem resolveIdentifier (hScope : t'.scopeFor c.uncommented = t.scopeFor c) :
    t'.resolveIdentifier c.uncommented =
      (t.resolveIdentifier c).map (·.map Binding.uncommented) := by
  unfold ScopeTable.resolveIdentifier
  rw [Cursor.kind_uncommented, Cursor.text_uncommented, hScope]
  split
  · cases c.text with
    | error fault => rfl
    | ok name => exact congrArg Except.ok (h.resolve name _ false)
  · rfl

end Mirrors

end ScopeTable

namespace ScopeBuilder

/-- One builder is where another is, without comments. Which scope is in effect at a comment is
noted only by the one that comes to comments. -/
structure Mirrors (root : Cursor) (b b' : ScopeBuilder) : Prop where
  table : b.table.Mirrors b'.table
  placed : ∀ c ∈ root.preorder, c.isComment = false →
    b'.table.placed.get? c.key = b.table.placed.get? c.key
  top : b'.top = b.top
  below : b'.below = b.below

namespace Mirrors

variable {root c : Cursor} {b b' : ScopeBuilder} (h : Mirrors root b b')

include h

theorem topKind? : b'.topKind? = b.topKind? := by
  unfold ScopeBuilder.topKind?
  rw [h.top, h.table.scope?, Option.map_map]
  rfl

theorem home (c : Cursor) : b'.home c.uncommented = b.home c := by
  unfold ScopeBuilder.home
  rw [Cursor.isHoisted_uncommented, h.table.nearest?, h.top]

theorem push (kind : ScopeKind) (c : Cursor) :
    Mirrors root (b.push kind c) (b'.push kind c.uncommented) := by
  have hLength : b'.table.scopes.length = b.table.scopes.length := by simp [h.table.scopes]
  refine ⟨⟨?_, h.table.bindings⟩, h.placed, hLength, ?_⟩
  · simp [ScopeBuilder.push, ScopeTable.addScope, h.table.scopes, h.top, h.below,
      Scope.uncommented]
  · simp [ScopeBuilder.push, h.top, h.below]

theorem pop (c : Cursor) : Mirrors root (b.pop c) (b'.pop c.uncommented) := by
  have hTop : ((b'.table.scope? b'.top).any fun s => s.node.key = c.uncommented.key) =
      (b.table.scope? b.top).any fun s => s.node.key = c.key := by
    rw [h.top, h.table.scope?, Cursor.key_uncommented]
    cases b.table.scope? b.top with
    | none => rfl
    | some s => simp [Scope.uncommented]
  unfold ScopeBuilder.pop
  rw [hTop, h.below]
  cases hBelow : b.below with
  | nil => exact h
  | cons next rest =>
      dsimp only
      split
      · exact ⟨h.table, h.placed, rfl, rfl⟩
      · exact h

theorem place (c : Cursor) : Mirrors root (b.place c) (b'.place c.uncommented) := by
  refine ⟨⟨h.table.scopes, h.table.bindings⟩, fun d hd hComment => ?_, h.top, h.below⟩
  simp only [ScopeBuilder.place, OrderedMap.get?_insert, Cursor.key_uncommented, h.top,
    h.placed d hd hComment]

/-- Coming to a comment leaves no trace at other nodes. -/
theorem placeComment (hKeys : root.DistinctKeys) (hc : c ∈ root.preorder)
    (hComment : c.isComment = true) : Mirrors root (b.place c) b' := by
  refine ⟨⟨h.table.scopes, h.table.bindings⟩, fun d hd hOther => ?_, h.top, h.below⟩
  have hKey : d.key ≠ c.key := by
    intro hKey
    rw [hKeys.eq_of_key_eq hd hc hKey, hComment] at hOther
    cases hOther
  simp only [ScopeBuilder.place, OrderedMap.get?_insert_of_ne _ hKey, h.placed d hd hOther]

theorem declare (n : Nat) (d : Declaration) :
    Mirrors root (b.declare n d) (b'.declare n d.uncommented) := by
  have hName : d.uncommented.name = d.name := rfl
  unfold ScopeBuilder.declare
  rw [hName]
  split
  · exact h
  · refine ⟨⟨?_, ?_⟩, h.placed, h.top, h.below⟩
    · apply List.ext_getElem?
      intro i
      simp only [ScopeTable.declare, h.table.scopes, h.table.bindings, List.length_map,
        List.getElem?_map, List.getElem?_modify, hName]
      cases b.table.scopes[i]? with
      | none => rfl
      | some s =>
          by_cases hi : n = i
          · simp [hi, Scope.uncommented]
          · simp [hi]
    · simp [ScopeTable.declare, h.table.bindings, Binding.uncommented]

theorem declareAll (n : Nat) (ds : List Declaration) :
    Mirrors root (b.declareAll n ds) (b'.declareAll n (ds.map Declaration.uncommented)) := by
  induction ds generalizing b b' with
  | nil => exact h
  | cons d rest ih => exact ih (h.declare n d)

theorem entered (hPicks : root.PicksNoComment) (hc : c ∈ root.preorder) :
    Mirrors root (b.entered c) (b'.entered c.uncommented) := by
  have hOuter := h.declareAll (b.home c)
    (c.outerDeclarations (b.topKind? = some .classBody))
  unfold ScopeBuilder.entered
  rw [h.home, h.topKind?, Cursor.outerDeclarations_uncommented hPicks hc, Cursor.opens?_uncommented,
    Cursor.innerDeclarations_uncommented]
  cases c.opens? with
  | none => exact hOuter
  | some kind =>
      dsimp only
      rw [show (b'.declareAll _ _).table.scopes.length = _ from
        (congrArg List.length hOuter.table.scopes).trans (List.length_map _)]
      exact (hOuter.push kind c).declareAll _ _

/-- An event at a node that is no comment, met by both walks. -/
theorem step (hPicks : root.PicksNoComment) {e : Event} (he : e.cursor ∈ root.preorder) :
    Mirrors root (b.step e) (b'.step e.uncommented) := by
  obtain ⟨phase, c⟩ := e
  cases phase with
  | enter => exact (h.entered hPicks he).place c
  | leave =>
      show Mirrors root (if ScopeStep.closesScope c.kind then b.pop c else b)
        (if ScopeStep.closesScope c.uncommented.kind then b'.pop c.uncommented else b')
      rw [Cursor.kind_uncommented]
      split
      · exact h.pop c
      · exact h

/-- An event at a comment, met by one walk only. -/
theorem stepComment (hKeys : root.DistinctKeys) {e : Event} (he : e.cursor ∈ root.preorder)
    (hComment : e.cursor.isComment = true) : Mirrors root (b.step e) b' := by
  obtain ⟨phase, c⟩ := e
  have hKind : c.kind = "comment" := Cursor.kind_of_isComment hComment
  cases phase with
  | enter =>
      have hEntered : b.entered c = b := by
        apply ScopeStep.entered_of_enter_none
        rw [hKind]
        decide
      show Mirrors root ((b.entered c).place c) b'
      rw [hEntered]
      exact h.placeComment hKeys he hComment
  | leave =>
      have hStays : ScopeStep.closesScope c.kind = false := by
        rw [hKind]
        decide
      show Mirrors root (if ScopeStep.closesScope c.kind then b.pop c else b) b'
      rw [hStays]
      exact h

/-- The walks go in step. -/
theorem walk (hKeys : root.DistinctKeys) (hPicks : root.PicksNoComment) {es : List Event}
    (hes : ∀ e ∈ es, e.cursor ∈ root.preorder) :
    Mirrors root (es.foldl ScopeBuilder.step b)
      (((es.filter fun e => !e.cursor.isComment).map Event.uncommented).foldl
        ScopeBuilder.step b') := by
  induction es generalizing b b' with
  | nil => exact h
  | cons e rest ih =>
      obtain ⟨he, hRest⟩ := List.forall_mem_cons.1 hes
      cases hComment : e.cursor.isComment with
      | true => simpa [hComment] using ih (h.stepComment hKeys he hComment) hRest
      | false => simpa [hComment] using ih (h.step hPicks he) hRest

end Mirrors

theorem mirrors_start (root : Cursor) :
    Mirrors root (start .empty root) (start .empty root.uncommented) :=
  ⟨⟨rfl, rfl⟩, fun _ _ _ => rfl, rfl, rfl⟩

end ScopeBuilder

namespace ScopeTable

/-- One table mirrors another and also gives the same scope for every node that is no comment. -/
structure Reflects (root : Cursor) (t t' : ScopeTable) : Prop extends t.Mirrors t' where
  scopeFor : ∀ c ∈ root.preorder, c.isComment = false → t'.scopeFor c.uncommented = t.scopeFor c

/-- The table of a tree without faults notes a scope for every node. -/
theorem exists_placed {root c : Cursor} (hKeys : root.DistinctKeys) (hFree : root.FaultFree)
    (hc : c ∈ root.preorder) :
    ∃ i, (ScopeBuilder.after root root.events).table.placed.get? c.key = some i := by
  obtain ⟨around, inside, hs⟩ := (finished_build hKeys (hFree.reads _)).exists_enclosed hc
  obtain ⟨i, -, hHead⟩ := hs.within.exists_head
  exact ⟨i, hs.placed.trans hHead⟩

/-- Building the scopes of a tree without its comments gives the same scopes. -/
theorem reflects_build {root : Cursor} (hRoot : root.isComment = false) (hFree : root.FaultFree)
    (hKeys : root.DistinctKeys) (hPicks : root.PicksNoComment) :
    Reflects root ((build root).run empty).state ((build root.uncommented).run empty).state := by
  have hFree' := hFree.uncommented hRoot
  rw [(build_spec (hFree.reads _)).2, (build_spec (hFree'.reads _)).2]
  have hMirrors := (ScopeBuilder.mirrors_start root).walk hKeys hPicks
    fun e he => Cursor.mem_preorder_of_mem_events he
  rw [← Cursor.events_uncommented hRoot,
    ← ScopeStep.after_eq_foldl hFree fun e he => Cursor.mem_preorder_of_mem_events he,
    ← ScopeStep.after_eq_foldl hFree' fun e he => Cursor.mem_preorder_of_mem_events he] at hMirrors
  refine ⟨hMirrors.table, fun c hc hComment => ?_⟩
  obtain ⟨i, hi⟩ := exists_placed hKeys hFree hc
  have hi' := (hMirrors.placed c hc hComment).trans hi
  rw [scopeFor_of_placed hi, scopeFor_of_placed (c.key_uncommented ▸ hi')]

end ScopeTable

end HotPath
