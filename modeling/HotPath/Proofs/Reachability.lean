import HotPath.Proofs.Success

/-! What an analysis finds in a tree without faults. A node is marked if and only if it lies in the
body of a function within so many calls of a root as the limit allows, at the least number of calls,
and the hazards are the banned calls and disallowed literals among these nodes. -/

namespace HotPath

namespace Matcher

variable {m : Matcher} {c : Cursor}

/-- A node is a call of a banned name. -/
def Bans (m : Matcher) (c : Cursor) (name : String) : Prop :=
  c.isCall = true ∧ c.calleeName = .ok (some name) ∧ name ∈ m.banned

/-- The banned name that a call invokes, where the name can be read. -/
theorem bannedName_of_ok {found : Option String} (h : c.calleeName = .ok found) :
    m.bannedName c = .ok (if c.isCall then found.filter m.banned.contains else none) := by
  unfold bannedName
  rw [h]
  cases c.isCall with
  | false => rfl
  | true =>
      cases hBanned : m.banned with
      | nil => cases found <;> rfl
      | cons first rest => rfl

theorem bans_iff {found : Option String} (h : c.calleeName = .ok found) {name : String} :
    m.Bans c name ↔ (if c.isCall then found.filter m.banned.contains else none) = some name := by
  unfold Bans
  rw [h]
  cases c.isCall with
  | false => simp
  | true => simp [Option.filter_eq_some_iff]

/-- A matcher finds a banned call, or a disallowed literal that is no banned call. -/
theorem classify_eq_some_iff (hRead : FailsOnly (fun _ => False) c.calleeName)
    {found : HazardKind × String} :
    m.classify c = .ok (some found) ↔
      (found.1 = .call ∧ m.Bans c found.2) ∨
        (found.1 = .literal ∧ (∀ name, ¬ m.Bans c name) ∧ c.kind ∈ m.literals ∧
          c.literalLabel = .ok found.2) := by
  obtain ⟨name, hName⟩ := hRead.exists_ok
  obtain ⟨kind, operation⟩ := found
  simp only [m.classify_eq, bannedName_of_ok hName, bans_iff hName]
  cases (if c.isCall then name.filter m.banned.contains else none) with
  | some banned => simp [bind, Except.bind, eq_comm]
  | none =>
      by_cases hLiteral : c.kind ∈ m.literals
      · cases c.literalLabel <;> simp [bind, Except.bind, Except.map, hLiteral, eq_comm]
      · simp [bind, Except.bind, hLiteral]

/-- A node is to be reported: it is hot and a call of a banned name, or it is no such call but a
disallowed literal in the body of a root. -/
def Reports (m : Matcher) (t : ScopeTable) (roots : List Root) (limit : Int) (c : Cursor) : Prop :=
  ((∃ name, m.Bans c name) ∧ ∃ n, Heat.Hot t roots limit c n) ∨
    ((∀ name, ¬ m.Bans c name) ∧ c.kind ∈ m.literals ∧ ∃ r ∈ roots, c ∈ r.function.bodyNodes)

end Matcher

theorem Cursor.Before.key_ne {a b : Cursor} (h : a.Before b) : a.key ≠ b.key := by
  intro hKey
  have hStart : a.start = b.start := Int.ofNat.inj (congrArg Key.start hKey)
  have hStop : a.stop = b.stop := Int.ofNat.inj (congrArg Key.stop hKey)
  have hKind : a.kind = b.kind := congrArg Key.kind hKey
  unfold Cursor.Before at h
  simp [hStart, hStop, hKind] at h

namespace Heat.Settled

variable {root : Cursor} {m : Matcher} {t : ScopeTable} {limit : Int} {roots : List Root}
  {h : Heat} {scanned : Queue}

/-- A hazard is a banned call or a disallowed literal, at the least depth at which its node is
hot. -/
theorem hazard_spec (hs : Settled t limit roots h scanned) (hTree : Confined root t roots)
    (hFree : root.FaultFree) (hLimit : 0 ≤ limit) {hz : Hazard} (hMem : hz ∈ m.found h) :
    hz.node ∈ root.preorder ∧ ∃ n : Nat, hz.depth = n ∧
      IsLeast {n | Hot t roots limit hz.node n} n ∧
      ((hz.kind = .call ∧ m.Bans hz.node hz.operation) ∨
        (hz.kind = .literal ∧ (∀ name, ¬ m.Bans hz.node name) ∧ hz.node.kind ∈ m.literals ∧
          hz.node.literalLabel = .ok hz.operation ∧ n = 0)) := by
  obtain ⟨hMem, hCounts⟩ := List.mem_filter.1 hMem
  obtain ⟨mark, hMark, found, hFound, rfl⟩ := Hazard.mem_filterMap_ofMark.1 hMem
  have hc := (hs.inside hTree (hs.mem_inOrder_iff.1 hMark)).1
  obtain ⟨n, hDepth, hLeast⟩ := hs.isLeast_hot hTree hLimit hc (hs.mem_inOrder_iff.1 hMark)
  refine ⟨hc, n, hDepth, hLeast, ?_⟩
  rcases (Matcher.classify_eq_some_iff (hFree.calleeName hc)).1 hFound with
    hBanned | ⟨hKind, hNot, hLiteral, hLabel⟩
  · exact .inl hBanned
  · refine .inr ⟨hKind, hNot, hLiteral, hLabel, ?_⟩
    simp only [Hazard.counts, hKind, ne_eq, not_true_eq_false, decide_false, Bool.false_or,
      decide_eq_true_eq] at hCounts
    omega

/-- A hot node on which the matcher finds something that counts is reported. -/
theorem exists_hazard_of_classify (hs : Settled t limit roots h scanned)
    (hTree : Confined root t roots) {c : Cursor} (hc : c ∈ root.preorder) {mark : Mark}
    (hMark : h.nodes.markOf? c = some mark) {found : HazardKind × String}
    (hFound : m.classify c = .ok (some found)) (hCounts : found.1 ≠ .literal ∨ mark.depth = 0) :
    ∃ hz ∈ m.found h, hz.node = c := by
  obtain rfl : mark.node = c := hs.node_eq_of_markOf? hTree hc hMark
  refine ⟨_, List.mem_filter.2 ⟨Hazard.mem_filterMap_ofMark.2
    ⟨mark, hs.mem_inOrder_iff.2 hMark, found, hFound, rfl⟩, ?_⟩, rfl⟩
  simpa [Hazard.counts] using hCounts

/-- Whatever is to be reported is reported. -/
theorem exists_hazard (hs : Settled t limit roots h scanned) (hTree : Confined root t roots)
    (hFree : root.FaultFree) (hLimit : 0 ≤ limit) {c : Cursor} (hc : c ∈ root.preorder)
    (hReports : m.Reports t roots limit c) : ∃ hz ∈ m.found h, hz.node = c := by
  have hRead := hFree.calleeName hc
  rcases hReports with ⟨⟨name, hBans⟩, hHot⟩ | ⟨hNot, hLiteral, hBody⟩
  · obtain ⟨mark, hMark⟩ := (hs.exists_markOf?_iff hTree hLimit hc).2 hHot
    have hFound : m.classify c = .ok (some (.call, name)) :=
      (Matcher.classify_eq_some_iff hRead).2 (.inl ⟨rfl, hBans⟩)
    exact hs.exists_hazard_of_classify hTree hc hMark hFound (.inl (by simp))
  · have hHot : Hot t roots limit c 0 := (hot_zero_iff hLimit).2 hBody
    obtain ⟨mark, hMark⟩ := (hs.exists_markOf?_iff hTree hLimit hc).2 ⟨0, hHot⟩
    obtain ⟨n, hDepth, -, hLeast⟩ := hs.isLeast_hot hTree hLimit hc hMark
    obtain rfl : n = 0 := Nat.le_zero.1 (hLeast hHot)
    obtain ⟨label, hLabel⟩ := (hFree.literalLabel hc).exists_ok
    have hFound : m.classify c = .ok (some (.literal, label)) :=
      (Matcher.classify_eq_some_iff hRead).2 (.inr ⟨rfl, hNot, hLiteral, hLabel⟩)
    exact hs.exists_hazard_of_classify hTree hc hMark hFound (.inr hDepth)

/-- Whatever is sought on the hot nodes is found in the order of the text. -/
theorem pairwise_ofMark (hs : Settled t limit roots h scanned)
    (predicate : Cursor → Except Fault (Option (HazardKind × String))) :
    (h.nodes.inOrder.filterMap (Hazard.ofMark h predicate)).Pairwise
      fun a b => a.node.Before b.node := by
  have hMarks := (keyed_spread scanned).pairwise_inOrder
  rw [← hs.nodes_eq] at hMarks
  refine hMarks.filterMap _ ?_
  intro a a' hBefore b hb b' hb'
  obtain ⟨-, -, rfl⟩ := Option.map_eq_some_iff.1 hb
  obtain ⟨-, -, rfl⟩ := Option.map_eq_some_iff.1 hb'
  exact hBefore

theorem pairwise_found (hs : Settled t limit roots h scanned) (m : Matcher) :
    (m.found h).Pairwise fun a b => a.node.Before b.node :=
  (hs.pairwise_ofMark m.classify).filter _

end Heat.Settled

/-- An analysis marks the hot nodes at their least depths and reports each node that is to be
reported once, in the order of the text, and nothing else. -/
structure Analysis.Exact (root : Cursor) (m : Matcher) (limit : Int) (a : Analysis) : Prop where
  marked_iff : ∀ c ∈ root.preorder,
    (∃ mark, a.heat.nodes.markOf? c = some mark) ↔ ∃ n, Heat.Hot a.scopes a.roots limit c n
  depth : ∀ c ∈ root.preorder, ∀ mark, a.heat.nodes.markOf? c = some mark →
    mark.node = c ∧ ∃ n : Nat, mark.depth = n ∧ IsLeast {n | Heat.Hot a.scopes a.roots limit c n} n
  inside : ∀ k mark, a.heat.nodes.get? k = some mark →
    mark.node ∈ root.preorder ∧ mark.node.key = k
  once_iff : ∀ c ∈ root.preorder,
    (a.hazards.map (·.node.key)).count c.key = 1 ↔ m.Reports a.scopes a.roots limit c
  never_iff : ∀ c ∈ root.preorder,
    (a.hazards.map (·.node.key)).count c.key = 0 ↔ ¬ m.Reports a.scopes a.roots limit c
  hazard : ∀ hz ∈ a.hazards, hz.node ∈ root.preorder ∧ ∃ n : Nat, hz.depth = n ∧
    IsLeast {n | Heat.Hot a.scopes a.roots limit hz.node n} n ∧
    ((hz.kind = .call ∧ m.Bans hz.node hz.operation) ∨
      (hz.kind = .literal ∧ (∀ name, ¬ m.Bans hz.node name) ∧ hz.node.kind ∈ m.literals ∧
        hz.node.literalLabel = .ok hz.operation ∧ n = 0))
  ordered : a.hazards.Pairwise fun x y => x.node.Before y.node

namespace Heat.Settled

variable {root : Cursor} {m : Matcher} {limit : Int} {a : Analysis} {scanned : Queue}

theorem mem_hazard_keys_iff (hs : Settled a.scopes limit a.roots a.heat scanned)
    (hTree : Confined root a.scopes a.roots) (hFree : root.FaultFree) (hLimit : 0 ≤ limit)
    {c : Cursor} (hc : c ∈ root.preorder) :
    c.key ∈ (m.found a.heat).map (·.node.key) ↔ m.Reports a.scopes a.roots limit c := by
  rw [List.mem_map]
  constructor
  · rintro ⟨hz, hMem, hKey⟩
    obtain ⟨hNode, n, -, ⟨hHot, -⟩, hKind⟩ := hs.hazard_spec hTree hFree hLimit hMem
    rw [hTree.keys.eq_of_key_eq hNode hc hKey] at hHot hKind
    rcases hKind with ⟨-, hBans⟩ | ⟨-, hNot, hLiteral, -, rfl⟩
    · exact .inl ⟨⟨_, hBans⟩, n, hHot⟩
    · exact .inr ⟨hNot, hLiteral, (hot_zero_iff hLimit).1 hHot⟩
  · intro hReports
    obtain ⟨hz, hMem, rfl⟩ := hs.exists_hazard hTree hFree hLimit hc hReports
    exact ⟨hz, hMem, rfl⟩

theorem exact_of_found (hs : Settled a.scopes limit a.roots a.heat scanned)
    (hTree : Confined root a.scopes a.roots) (hFree : root.FaultFree) (hLimit : 0 ≤ limit)
    (hHazards : a.hazards = m.found a.heat) : a.Exact root m limit := by
  have hOrdered := hs.pairwise_found m
  have hOnce : ((m.found a.heat).map (·.node.key)).Nodup :=
    List.pairwise_map.2 (hOrdered.imp Cursor.Before.key_ne)
  have hKeys {c : Cursor} (hc : c ∈ root.preorder) :=
    hs.mem_hazard_keys_iff (m := m) hTree hFree hLimit hc
  rw [← hHazards] at hOrdered hOnce hKeys
  exact
    { marked_iff := fun c hc => hs.exists_markOf?_iff hTree hLimit hc
      depth := fun c hc mark hMark =>
        ⟨hs.node_eq_of_markOf? hTree hc hMark, hs.isLeast_hot hTree hLimit hc hMark⟩
      inside := fun k mark hMark => hs.inside hTree hMark
      once_iff := fun c hc => by
        rw [← hKeys hc]
        exact ⟨fun hCount => List.count_pos_iff.1 (by omega), List.count_eq_one_of_mem hOnce⟩
      never_iff := fun c hc => by rw [← hKeys hc, List.count_eq_zero]
      hazard := fun hz hMem => hs.hazard_spec hTree hFree hLimit (hHazards ▸ hMem)
      ordered := hOrdered }

end Heat.Settled

/-- The analysis of a tree without faults succeeds and is exact. A node is marked if and only if it
lies in the body of a function that so many invocations reach from a root as the limit allows, at
the least such number, and the hazards are the banned calls among these nodes and the disallowed
literals in the bodies of roots. -/
theorem Engine.analyze_exact (e : Engine) (m : Matcher) (root : Cursor)
    (hMatcher : e.matcher = some m) (hFree : root.FaultFree) (hKeys : root.DistinctKeys)
    (hLimit : 0 ≤ e.maxCallDepth) :
    ∃ a, ((e.analyze root).run ()).result = .ok a ∧
      ((ScopeTable.build root).run ScopeTable.empty).state = a.scopes ∧
      ((Root.detectAll a.scopes e.detectors root).run ()).result = .ok a.roots ∧
      a.Exact root m e.maxCallDepth := by
  obtain ⟨a, hOk, hTree⟩ := exists_analyze_ok e hFree hKeys
  obtain ⟨hStages, hSeek⟩ := analyze_ok_iff.1 hOk
  obtain ⟨scanned, run⟩ := Heat.exists_runs_of_propagate_ok hStages.heat
  simp only [seek, hMatcher] at hSeek
  have hs : Heat.Settled a.scopes e.maxCallDepth a.roots a.heat scanned := run.settled
  exact ⟨a, hOk, hStages.scopes.symm, hStages.roots,
    hs.exact_of_found hTree hFree hLimit (Matcher.hazards_eq hSeek)⟩

theorem Engine.analyze_exact_sample :
    sample.matcher = some ⟨["clone"], []⟩ ∧ 0 ≤ sample.maxCallDepth ∧
      (Cursor.sample (.text "helper")).FaultFree ∧
      (Cursor.sample (.text "helper")).DistinctKeys ∧
      ∃ a, ((sample.analyze (.sample (.text "helper"))).run ()).result = .ok a ∧
        a.Exact (.sample (.text "helper")) ⟨["clone"], []⟩ 1 := by
  have hFree : (Cursor.sample (.text "helper")).FaultFree := by decide +kernel
  have hKeys : (Cursor.sample (.text "helper")).DistinctKeys := by decide +kernel
  obtain ⟨a, hOk, -, -, hExact⟩ :=
    analyze_exact sample ⟨["clone"], []⟩ _ rfl hFree hKeys (by decide)
  exact ⟨rfl, by decide, hFree, hKeys, a, hOk, hExact⟩

end HotPath
