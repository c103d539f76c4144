import HotPath.Proofs.Comment.Roots
import HotPath.Proofs.Reachability
import Mathlib.Data.List.Sort

/-! The hazards of a tree without its comments. The same functions call each other, so the same
nodes are hot at the same depths, and the same hazards are reported in the same order. This needs
that no comment is picked in the place of another node: a comment in front of a callback hides the
callback from a wrapping call, and with it whatever the callback does. -/

namespace HotPath

namespace Heat

/-- Scopes and roots of a tree, and those of the tree without its comments. -/
structure Mirrored (root : Cursor) (t t' : ScopeTable) (roots roots' : List Root) : Prop where
  scopes : t.Reflects root t'
  roots_eq : roots' = roots.map Root.uncommented
  tree : Confined root t roots

namespace Mirrored

variable {root f c : Cursor} {t t' : ScopeTable} {roots roots' : List Root}
  (h : Mirrored root t t' roots roots')

include h

/-- A function calls the same functions. -/
theorem invokes_iff (hf : f ∈ root.preorder) {g' : Cursor} :
    t'.Invokes f.uncommented g' ↔ ∃ g, t.Invokes f g ∧ g.uncommented = g' := by
  have hResolve : ∀ c ∈ f.bodyNodes, c.isCall = true →
      t'.resolveCallee c.uncommented = (t.resolveCallee c).map (·.map Binding.uncommented) := by
    intro c hc hCall
    have hMem := Cursor.mem_preorder_trans (Cursor.mem_preorder_of_mem_bodyNodes hc) hf
    have hScope := h.scopes.scopeFor c hMem (Cursor.isComment_eq_false_of_isCall hCall)
    exact h.scopes.resolveCallee hScope
  constructor
  · rintro ⟨c', hc', hCall, b', hb', hTarget⟩
    rw [Cursor.bodyNodes_uncommented] at hc'
    obtain ⟨c, hc, rfl⟩ := List.mem_map.1 hc'
    have hc := (List.mem_filter.1 hc).1
    rw [Cursor.isCall_uncommented] at hCall
    rw [hResolve c hc hCall] at hb'
    cases hFound : t.resolveCallee c with
    | error fault =>
        rw [hFound] at hb'
        cases hb'
    | ok found =>
        rw [hFound] at hb'
        obtain ⟨b, rfl, rfl⟩ := Option.map_eq_some_iff.1 (Except.ok.inj hb')
        rw [Binding.target?_uncommented] at hTarget
        obtain ⟨g, hg, rfl⟩ := Option.map_eq_some_iff.1 hTarget
        exact ⟨g, ⟨c, hc, hCall, b, hFound, hg⟩, rfl⟩
  · rintro ⟨g, ⟨c, hc, hCall, b, hb, hTarget⟩, rfl⟩
    have hMem := Cursor.mem_preorder_trans (Cursor.mem_preorder_of_mem_bodyNodes hc) hf
    refine ⟨c.uncommented, ?_, by simpa using hCall, b.uncommented, ?_, ?_⟩
    · exact (h.tree.keys.mem_bodyNodes_uncommented hf hMem
        (Cursor.isComment_eq_false_of_isCall hCall)).2 hc
    · rw [hResolve c hc hCall, hb]
      rfl
    · rw [Binding.target?_uncommented, hTarget]
      rfl

/-- As many invocations lead from a root to a function. -/
theorem reached_iff {n : Nat} {f' : Cursor} :
    Reached t' roots' n f' ↔ ∃ f, Reached t roots n f ∧ f.uncommented = f' := by
  constructor
  · intro hReached
    induction hReached with
    | root hr =>
        rw [h.roots_eq] at hr
        obtain ⟨r, hMem, rfl⟩ := List.mem_map.1 hr
        exact ⟨r.function, .root hMem, rfl⟩
    | call _ hCall ih =>
        obtain ⟨f, hf, rfl⟩ := ih
        obtain ⟨g, hInvokes, rfl⟩ :=
          (h.invokes_iff (hf.mem_preorder h.tree.targets h.tree.roots)).1 hCall
        exact ⟨g, .call hf hInvokes, rfl⟩
  · rintro ⟨f, hReached, rfl⟩
    induction hReached with
    | root hr => exact .root (r := Root.uncommented _) (h.roots_eq ▸ List.mem_map_of_mem hr)
    | call hf hCall ih =>
        exact .call ih
          ((h.invokes_iff (hf.mem_preorder h.tree.targets h.tree.roots)).2 ⟨_, hCall, rfl⟩)

theorem distance_uncommented (hf : f ∈ root.preorder) {n : Nat} :
    Distance t' roots' f.uncommented n ↔ Distance t roots f n := by
  have hReached : ∀ n, Reached t' roots' n f.uncommented ↔ Reached t roots n f := by
    intro n
    rw [h.reached_iff]
    constructor
    · rintro ⟨g, hg, hSame⟩
      have hMem := hg.mem_preorder h.tree.targets h.tree.roots
      rwa [← h.tree.keys.eq_of_uncommented hMem hf hSame]
    · exact fun hReached => ⟨f, hReached, rfl⟩
  unfold Distance
  rw [show {n | Reached t' roots' n f.uncommented} = {n | Reached t roots n f} from
    Set.ext hReached]

/-- A node that is no comment is as hot as before. -/
theorem hot_uncommented (hc : c ∈ root.preorder) (hComment : c.isComment = false) {limit : Int}
    {n : Nat} : Hot t' roots' limit c.uncommented n ↔ Hot t roots limit c n := by
  constructor
  · rintro ⟨f', hDistance, hLimit, hBody⟩
    obtain ⟨f, hReached, rfl⟩ := h.reached_iff.1 hDistance.1
    have hf := hReached.mem_preorder h.tree.targets h.tree.roots
    exact ⟨f, (h.distance_uncommented hf).1 hDistance, hLimit,
      (h.tree.keys.mem_bodyNodes_uncommented hf hc hComment).1 hBody⟩
  · rintro ⟨f, hDistance, hLimit, hBody⟩
    have hf := hDistance.1.mem_preorder h.tree.targets h.tree.roots
    exact ⟨f.uncommented, (h.distance_uncommented hf).2 hDistance, hLimit,
      (h.tree.keys.mem_bodyNodes_uncommented hf hc hComment).2 hBody⟩

end Mirrored

end Heat

/-- What a hazard is, and where. -/
structure Hazard.Outline where
  node : Cursor
  operation : String
  kind : HazardKind
  depth : Int

namespace Hazard

def outline (hz : Hazard) : Outline := ⟨hz.node, hz.operation, hz.kind, hz.depth⟩

/-- The same hazard without the comments around its node and below it. -/
def Outline.uncommented (o : Outline) : Outline := { o with node := o.node.uncommented }

end Hazard

namespace Matcher

/-- A hazard that a matcher is to report: something that it finds on a hot node of the tree, at the
least depth at which the node is hot. -/
structure Finds (m : Matcher) (root : Cursor) (t : ScopeTable) (roots : List Root) (limit : Int)
    (o : Hazard.Outline) : Prop where
  inside : o.node ∈ root.preorder
  classified : m.classify o.node = .ok (some (o.kind, o.operation))
  depth : ∃ n : Nat, o.depth = n ∧ IsLeast {n | Heat.Hot t roots limit o.node n} n
  counts : o.kind ≠ .literal ∨ o.depth = 0

/-- A matcher finds the same on a node. -/
theorem classify_uncommented {root c : Cursor} (hPicks : root.PicksNoComment)
    (hc : c ∈ root.preorder) (m : Matcher) : m.classify c.uncommented = m.classify c := by
  unfold classify
  rw [Cursor.isCall_uncommented, Cursor.kind_uncommented, Cursor.literalLabel_uncommented]
  cases hCall : c.isCall with
  | false => rfl
  | true => rw [hPicks.calleeName_uncommented hc hCall]

/-- A matcher finds nothing on a comment, unless it looks for comments. -/
theorem classify_of_isComment {m : Matcher} {c : Cursor} (hComment : c.isComment = true)
    (hLiterals : "comment" ∉ m.literals) : m.classify c = .ok none := by
  simp [classify, Cursor.isCall_eq_false_of_isComment hComment, Cursor.kind_of_isComment hComment,
    hLiterals, bind, Except.bind, pure, Except.pure]

theorem isComment_eq_false_of_mem_found {m : Matcher} {h : Heat}
    (hLiterals : "comment" ∉ m.literals) {hz : Hazard} (hMem : hz ∈ m.found h) :
    hz.node.isComment = false := by
  obtain ⟨mark, -, found, hFound, rfl⟩ :=
    Hazard.mem_filterMap_ofMark.1 (List.mem_filter.1 hMem).1
  rw [Bool.eq_false_iff]
  intro hComment
  rw [classify_of_isComment hComment hLiterals] at hFound
  cases hFound

end Matcher

theorem Heat.Settled.mem_outlines_iff {root : Cursor} {m : Matcher} {t : ScopeTable} {limit : Int}
    {roots : List Root} {h : Heat} {scanned : Queue} (hs : Settled t limit roots h scanned)
    (hTree : Confined root t roots) (hLimit : 0 ≤ limit) {o : Hazard.Outline} :
    o ∈ (m.found h).map Hazard.outline ↔ m.Finds root t roots limit o := by
  rw [List.mem_map]
  constructor
  · rintro ⟨hz, hMem, rfl⟩
    obtain ⟨hMem, hCounts⟩ := List.mem_filter.1 hMem
    obtain ⟨mark, hMark, found, hFound, rfl⟩ := Hazard.mem_filterMap_ofMark.1 hMem
    have hMark := hs.mem_inOrder_iff.1 hMark
    have hc := (hs.inside hTree hMark).1
    exact ⟨hc, hFound, hs.isLeast_hot hTree hLimit hc hMark,
      by simpa [Hazard.counts, Hazard.outline] using hCounts⟩
  · rintro ⟨hc, hFound, ⟨n, hDepth, hLeast⟩, hCounts⟩
    obtain ⟨mark, hMark⟩ := (hs.exists_markOf?_iff hTree hLimit hc).2 ⟨n, hLeast.1⟩
    obtain ⟨k, hk, hLeast'⟩ := hs.isLeast_hot hTree hLimit hc hMark
    have hSame : mark.depth = o.depth := by rw [hk, hDepth, hLeast'.unique hLeast]
    have hNode := hs.node_eq_of_markOf? hTree hc hMark
    rw [← hNode] at hFound hMark
    refine ⟨_, List.mem_filter.2 ⟨Hazard.mem_filterMap_ofMark.2
      ⟨mark, hs.mem_inOrder_iff.2 hMark, _, hFound, rfl⟩, ?_⟩, ?_⟩
    · simpa [Hazard.counts, hSame] using hCounts
    · simp [Hazard.outline, hNode, hSame]

theorem Heat.Mirrored.finds_iff {root : Cursor} {m : Matcher} {t t' : ScopeTable} {limit : Int}
    {roots roots' : List Root} (h : Mirrored root t t' roots roots')
    (hRoot : root.isComment = false) (hPicks : root.PicksNoComment) {o' : Hazard.Outline} :
    m.Finds root.uncommented t' roots' limit o' ↔
      ∃ o, m.Finds root t roots limit o ∧ o.node.isComment = false ∧ o.uncommented = o' := by
  have hSame : ∀ o : Hazard.Outline, o.node ∈ root.preorder → o.node.isComment = false →
      (m.Finds root.uncommented t' roots' limit o.uncommented ↔ m.Finds root t roots limit o) := by
    intro o hc hComment
    have hHot : {n | Hot t' roots' limit o.node.uncommented n} = {n | Hot t roots limit o.node n} :=
      Set.ext fun n => h.hot_uncommented hc hComment
    constructor
    · rintro ⟨-, hFound, hDepth, hCounts⟩
      exact ⟨hc, (m.classify_uncommented hPicks hc).symm.trans hFound, hHot ▸ hDepth, hCounts⟩
    · rintro ⟨-, hFound, hDepth, hCounts⟩
      exact ⟨Cursor.uncommented_mem_preorder hRoot hc hComment,
        (m.classify_uncommented hPicks hc).trans hFound, hHot.symm ▸ hDepth, hCounts⟩
  constructor
  · intro hFinds
    obtain ⟨c, hc, hComment, hNode⟩ := (Cursor.mem_preorder_uncommented hRoot).1 hFinds.inside
    obtain ⟨node, operation, kind, depth⟩ := o'
    obtain rfl : c.uncommented = node := hNode
    exact ⟨⟨c, operation, kind, depth⟩, (hSame ⟨c, operation, kind, depth⟩ hc hComment).1 hFinds,
      hComment, rfl⟩
  · rintro ⟨o, hFinds, hComment, rfl⟩
    exact (hSame o hFinds.inside hComment).2 hFinds

/-- No two nodes stand before each other. -/
theorem Cursor.Before.asymm {a b : Cursor} (h : a.Before b) : ¬ b.Before a := by
  rcases h with hStart | ⟨hStart, hStop | ⟨hStop, hKind⟩⟩
  · rintro (hStart' | ⟨hStart', -⟩) <;> omega
  · rintro (hStart' | ⟨-, hStop' | ⟨hStop', -⟩⟩) <;> omega
  · rintro (hStart' | ⟨-, hStop' | ⟨-, hKind'⟩⟩)
    · omega
    · omega
    · exact lt_asymm hKind hKind'

theorem Cursor.before_uncommented {a b : Cursor} :
    a.uncommented.Before b.uncommented ↔ a.Before b := by
  simp only [Before, start_uncommented, stop_uncommented, kind_uncommented]

/-- Outlines in the order of the text are determined by which ones they are. -/
theorem Hazard.Outline.eq_of_ordered {xs ys : List Outline}
    (hxs : xs.Pairwise fun a b => a.node.Before b.node)
    (hys : ys.Pairwise fun a b => a.node.Before b.node) (h : ∀ o, o ∈ xs ↔ o ∈ ys) : xs = ys := by
  let before := fun a b : Outline => a.node.Before b.node
  have : Std.Antisymm before := ⟨fun a b hab hba => (hab.asymm hba).elim⟩
  have : Std.Irrefl before := ⟨fun a ha => ha.asymm ha⟩
  exact hxs.eq_of_mem_iff hys h

/-- What is found without comments is what is found at nodes that are no comments. -/
theorem Heat.Mirrored.found_uncommented {root : Cursor} {t t' : ScopeTable} {limit : Int}
    {roots roots' : List Root} {h h' : Heat} {scanned scanned' : Queue}
    (hMirrored : Mirrored root t t' roots roots') (hTree' : Confined root.uncommented t' roots')
    (hs : Settled t limit roots h scanned) (hs' : Settled t' limit roots' h' scanned')
    (hRoot : root.isComment = false) (hPicks : root.PicksNoComment) (hLimit : 0 ≤ limit)
    (m : Matcher) :
    (m.found h').map Hazard.outline =
      ((m.found h).filter (!·.node.isComment)).map (·.outline.uncommented) := by
  apply Hazard.Outline.eq_of_ordered
  · exact List.pairwise_map.2 (hs'.pairwise_found m)
  · exact List.pairwise_map.2 (((hs.pairwise_found m).filter _).imp Cursor.before_uncommented.2)
  · intro o'
    rw [hs'.mem_outlines_iff hTree' hLimit, hMirrored.finds_iff hRoot hPicks]
    constructor
    · rintro ⟨o, hFinds, hComment, rfl⟩
      obtain ⟨hz, hMem, rfl⟩ :=
        List.mem_map.1 ((hs.mem_outlines_iff hMirrored.tree hLimit).2 hFinds)
      have hComment : hz.node.isComment = false := hComment
      exact List.mem_map.2 ⟨hz, List.mem_filter.2 ⟨hMem, by simp [hComment]⟩, rfl⟩
    · intro hMem
      obtain ⟨hz, hKept, rfl⟩ := List.mem_map.1 hMem
      obtain ⟨hMem, hComment⟩ := List.mem_filter.1 hKept
      have hComment : hz.node.isComment = false := by simpa using hComment
      have hFinds := (hs.mem_outlines_iff hMirrored.tree hLimit).1 (List.mem_map_of_mem hMem)
      exact ⟨hz.outline, hFinds, hComment, rfl⟩

namespace Engine

variable {e : Engine} {m : Matcher} {root : Cursor} {a : Analysis}

/-- A banned call on a hot node can be found in the marks, before they are put in order. -/
theorem exists_hazard_of_any (hMatcher : e.matcher = some m)
    (hOk : ((e.analyze root).run ()).result = .ok a) {name : String} {depth : Int}
    (hAny : (((e.propagate root).run ()).result.toOption.any fun a =>
      a.heat.nodes.values.any fun mark => mark.depth = depth ∧
        (m.classify mark.node).toOption.getD none = some (.call, name)) = true) :
    ∃ hz ∈ a.hazards, hz.operation = name ∧ hz.depth = depth := by
  obtain ⟨hStages, hSeek⟩ := analyze_ok_iff.1 hOk
  simp only [seek, hMatcher] at hSeek
  rw [hStages.ok] at hAny
  obtain ⟨mark, hMark, hFound⟩ := List.any_eq_true.1 hAny
  obtain ⟨hDepth, hClassify⟩ := of_decide_eq_true hFound
  have hMark : mark ∈ a.heat.nodes.inOrder := List.mem_mergeSort.2 hMark
  have hMem := (Hazard.mem_filterMap_ofMark (h := a.heat)).2
    ⟨mark, hMark, _, getD_toOption_eq_some_iff.1 hClassify, rfl⟩
  rw [Matcher.hazards_eq hSeek]
  exact ⟨_, List.mem_filter.2 ⟨hMem, rfl⟩, rfl, hDepth⟩

/-- Where nothing is found on any mark there are no hazards. -/
theorem hazards_eq_nil_of_all (hMatcher : e.matcher = some m)
    (hOk : ((e.analyze root).run ()).result = .ok a)
    (hAll : (((e.propagate root).run ()).result.toOption.all fun a =>
      a.heat.nodes.values.all fun mark => (m.classify mark.node).toOption.getD none = none) =
        true) : a.hazards = [] := by
  obtain ⟨hStages, hSeek⟩ := analyze_ok_iff.1 hOk
  simp only [seek, hMatcher] at hSeek
  rw [hStages.ok] at hAll
  rw [Matcher.hazards_eq hSeek, List.eq_nil_iff_forall_not_mem]
  intro hz hMem
  obtain ⟨mark, hMark, found, hFound, -⟩ :=
    Hazard.mem_filterMap_ofMark.1 (List.mem_filter.1 hMem).1
  have hNone := of_decide_eq_true (List.all_eq_true.1 hAll mark (List.mem_mergeSort.1 hMark))
  rw [getD_toOption_eq_some_iff.2 hFound] at hNone
  cases hNone

end Engine

/-- Comments change nothing but where they are picked in the place of other nodes. If that happens
nowhere, the analyses of a tree and of the tree without its comments succeed and report the same
hazards in the same order, whatever is looked for. Only a matcher that looks for comments as
literals loses what it has found at comments. -/
theorem Engine.analyze_uncommented (detectors : List Detector) (banned literals : List String)
    (limit : Int) (root : Cursor) (hRoot : root.isComment = false) (hFree : root.FaultFree)
    (hKeys : root.DistinctKeys) (hPicks : root.PicksNoComment) :
    ∃ a a', (((Engine.mk detectors (some ⟨banned, literals⟩) limit).analyze root).run ()).result =
        .ok a ∧
      (((Engine.mk detectors (some ⟨banned, literals⟩) limit).analyze root.uncommented).run
        ()).result = .ok a' ∧
      a'.hazards.map Hazard.outline =
        (a.hazards.filter (!·.node.isComment)).map (·.outline.uncommented) ∧
      ("comment" ∉ literals →
        a'.hazards.map Hazard.outline = a.hazards.map (·.outline.uncommented)) := by
  obtain ⟨a, hOk, hTree⟩ := exists_analyze_ok ⟨detectors, some ⟨banned, literals⟩, limit⟩
    hFree hKeys
  obtain ⟨a', hOk', hTree'⟩ := exists_analyze_ok ⟨detectors, some ⟨banned, literals⟩, limit⟩
    (hFree.uncommented hRoot) (hKeys.uncommented hRoot)
  obtain ⟨hStages, hSeek⟩ := analyze_ok_iff.1 hOk
  obtain ⟨hStages', hSeek'⟩ := analyze_ok_iff.1 hOk'
  obtain ⟨scanned, run⟩ := Heat.exists_runs_of_propagate_ok hStages.heat
  obtain ⟨scanned', run'⟩ := Heat.exists_runs_of_propagate_ok hStages'.heat
  -- Only limits from zero on have the exact meaning of a distance.
  have hs := run.settled.max_zero
  have hs' := run'.settled.max_zero
  have hScopes : a.scopes.Reflects root a'.scopes := by
    rw [show a.scopes = _ from hStages.scopes, show a'.scopes = _ from hStages'.scopes]
    exact ScopeTable.reflects_build hRoot hFree hKeys hPicks
  have hMirrored : Heat.Mirrored root a.scopes a'.scopes a.roots a'.roots :=
    ⟨hScopes, Root.detectAll_uncommented hScopes hRoot hPicks hStages.roots hStages'.roots, hTree⟩
  have hFound := hMirrored.found_uncommented hTree' hs hs' hRoot hPicks (le_max_right _ _)
    ⟨banned, literals⟩
  rw [← Matcher.hazards_eq hSeek, ← Matcher.hazards_eq hSeek'] at hFound
  refine ⟨a, a', hOk, hOk', hFound, fun hLiterals => ?_⟩
  rw [hFound, List.filter_eq_self.2]
  intro hz hMem
  rw [Matcher.hazards_eq hSeek] at hMem
  simp [Matcher.isComment_eq_false_of_mem_found hLiterals hMem]

def Node.comment (start stop : Nat) : Node := inner "comment" "" start stop []

open Node in
/-- A callback that is handed to a wrapping call and called in a loop, with room for comments in
front of both callbacks:
`const tick = useCallback(/* go */ () => clone()); useFrame(/* on */ () => tick())`. -/
def Node.wrapped (go on : List Node) : Node :=
  inner "program" "" 0 81 [
    inner "lexical_declaration" "" 0 49 [
      inner "variable_declarator" "" 6 48 [
        word "name" 6 10 (.text "tick"),
        inner "call_expression" "value" 13 48 [
          word "function" 13 24 (.text "useCallback"),
          inner "arguments" "arguments" 24 48 <| go ++ [
            inner "arrow_function" "" 34 47 [
              inner "call_expression" "body" 40 47 [word "function" 40 45 (.text "clone")]]]]]],
    inner "call_expression" "" 50 81 [
      word "function" 50 58 (.text "useFrame"),
      inner "arguments" "arguments" 58 81 <| on ++ [
        inner "arrow_function" "" 68 80 [
          inner "call_expression" "body" 74 80 [word "function" 74 78 (.text "tick")]]]]]

/-- A comment in front of the callback of the loop. -/
def Cursor.commentedLoop : Cursor := .root (.wrapped [] [.comment 59 67])

/-- A comment in front of the callback that is handed to the wrapping call. -/
def Cursor.commentedWrapper : Cursor := .root (.wrapped [.comment 25 33] [])

/-- In front of the callback of a loop a comment is harmless, because functions are sought among all
arguments. -/
theorem Engine.analyze_uncommented_loop :
    Cursor.commentedLoop.isComment = false ∧ Cursor.commentedLoop.FaultFree ∧
      Cursor.commentedLoop.DistinctKeys ∧ Cursor.commentedLoop.PicksNoComment ∧
      Cursor.commentedLoop.uncommented = .root (.wrapped [] []) ∧
      ∃ a a', ((sample.analyze .commentedLoop).run ()).result = .ok a ∧
        ((sample.analyze Cursor.commentedLoop.uncommented).run ()).result = .ok a' ∧
        (∃ hz ∈ a.hazards, hz.operation = "clone" ∧ hz.depth = 1) ∧
        a'.hazards.map Hazard.outline = a.hazards.map (·.outline.uncommented) := by
  have hRoot : Cursor.commentedLoop.isComment = false := by decide +kernel
  have hFree : Cursor.commentedLoop.FaultFree := by decide +kernel
  have hKeys : Cursor.commentedLoop.DistinctKeys := by decide +kernel
  have hPicks : Cursor.commentedLoop.PicksNoComment := by decide +kernel
  obtain ⟨a, a', hOk, hOk', -, hSame⟩ :=
    analyze_uncommented [.frameLoop ["useFrame"]] ["clone"] [] 1 _ hRoot hFree hKeys hPicks
  exact ⟨hRoot, hFree, hKeys, hPicks, rfl, a, a', hOk, hOk',
    exists_hazard_of_any rfl hOk (by decide +kernel), hSame (by decide)⟩

/-- In front of the function that a wrapping call returns a comment hides the function, and the loop
no longer reaches what the function does. -/
theorem Engine.analyze_hidden_by_comment :
    Cursor.commentedWrapper.isComment = false ∧ Cursor.commentedWrapper.FaultFree ∧
      Cursor.commentedWrapper.DistinctKeys ∧
      Cursor.commentedWrapper.uncommented = .root (.wrapped [] []) ∧
      ∃ a a', ((sample.analyze .commentedWrapper).run ()).result = .ok a ∧ a.hazards = [] ∧
        ((sample.analyze Cursor.commentedWrapper.uncommented).run ()).result = .ok a' ∧
        ∃ hz ∈ a'.hazards, hz.operation = "clone" ∧ hz.depth = 1 := by
  have hRoot : Cursor.commentedWrapper.isComment = false := by decide +kernel
  have hFree : Cursor.commentedWrapper.FaultFree := by decide +kernel
  have hKeys : Cursor.commentedWrapper.DistinctKeys := by decide +kernel
  obtain ⟨a, hOk, -⟩ := exists_analyze_ok sample hFree hKeys
  obtain ⟨a', hOk', -⟩ :=
    exists_analyze_ok sample (hFree.uncommented hRoot) (hKeys.uncommented hRoot)
  exact ⟨hRoot, hFree, hKeys, rfl, a, a', hOk,
    hazards_eq_nil_of_all rfl hOk (by decide +kernel), hOk',
    exists_hazard_of_any rfl hOk' (by decide +kernel)⟩

end HotPath
