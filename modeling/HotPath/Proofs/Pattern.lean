import HotPath.Proofs.Reading

/-! The names of a pattern. They are the names of the patterns right inside it, and an element of an
array pattern has as its position the number of commas in front of it. -/

namespace HotPath

namespace PatternNames

variable {p : PatternName} {parts : List PatternNames}

theorem concat_cons (first : PatternNames) (rest : List PatternNames) :
    concat (first :: rest) = first.append (concat rest) := rfl

theorem exists_of_mem_concat (hp : p ∈ (concat parts).names) : ∃ part ∈ parts, p ∈ part.names := by
  induction parts with
  | nil => cases hp
  | cons first rest ih =>
      rw [concat_cons, append] at hp
      split at hp
      · exact ⟨first, List.mem_cons_self, hp⟩
      · rcases List.mem_append.1 hp with hp | hp
        · exact ⟨first, List.mem_cons_self, hp⟩
        · obtain ⟨part, hPart, hp⟩ := ih hp
          exact ⟨part, List.mem_cons_of_mem first hPart, hp⟩

/-- Where no fault cuts a part short, the names of all parts are there. -/
theorem mem_concat (hFaults : ∀ part ∈ parts, part.fault = none) {part : PatternNames}
    (hPart : part ∈ parts) (hp : p ∈ part.names) : p ∈ (concat parts).names := by
  induction parts with
  | nil => cases hPart
  | cons first rest ih =>
      obtain ⟨hFirst, hRest⟩ := List.forall_mem_cons.1 hFaults
      rw [concat_cons, append, hFirst]
      rcases List.mem_cons.1 hPart with rfl | hPart
      · exact List.mem_append_left _ hp
      · exact List.mem_append_right _ (ih hRest hPart)

end PatternNames

namespace Cursor

variable {root c d : Cursor} {index : Option Nat}

theorem boundNames_of_name {name : String} (hName : c.isPatternName = true)
    (hText : c.text = .ok name) : c.boundNames index = ⟨[⟨name, c, index⟩], none⟩ := by
  rw [boundNames, if_pos hName, hText]

theorem boundNames_of_error {fault : Fault} (hName : c.isPatternName = false)
    (hParts : c.subPatterns index = .error fault) : c.boundNames index = ⟨[], some fault⟩ := by
  rw [boundNames, hName, if_neg Bool.false_ne_true]
  split
  · next hFault =>
      rw [hParts] at hFault
      cases hFault
      rfl
  · next hFound =>
      rw [hParts] at hFound
      cases hFound

/-- The names of a pattern that is no name itself are those of the patterns inside. -/
theorem boundNames_of_parts {parts : List (Cursor × Option Nat)}
    (hName : c.isPatternName = false) (hParts : c.subPatterns index = .ok parts) :
    c.boundNames index = .concat (parts.map fun p => p.1.boundNames p.2) := by
  rw [boundNames, hName, if_neg Bool.false_ne_true]
  split
  · next fault hFault =>
      rw [hParts] at hFault
      cases hFault
  · next parts' hParts' =>
      rw [hParts] at hParts'
      cases hParts'
      congr 1
      exact List.attach_map_val (f := fun p : Cursor × Option Nat => p.1.boundNames p.2)

theorem subPatterns_of_array (hKind : c.kind = "array_pattern") (index : Option Nat) :
    c.subPatterns index = .ok (elements 0 c.children) := by
  have hNone : patternFields.lookup "array_pattern" = none := by decide
  simp [subPatterns, hKind, hNone]

theorem subPatterns_of_default (hKind : c.kind = "assignment_pattern") (index : Option Nat) :
    c.subPatterns index = (c.field "left").map fun inner => inner.toList.map (·, index) := by
  have hLeft : patternFields.lookup "assignment_pattern" = some "left" := by decide
  simp only [subPatterns, hKind, hLeft]

/-- A pattern is right inside another one. -/
def PartOf (d c : Cursor) : Prop :=
  ∃ index parts i, c.subPatterns index = .ok parts ∧ (d, i) ∈ parts

/-- A name comes from the pattern that it is, or from a pattern right inside. -/
theorem mem_boundNames_cases {p : PatternName} (hp : p ∈ (c.boundNames index).names) :
    (c.isPatternName = true ∧ c.text = .ok p.name ∧ p.node = c ∧ p.index = index) ∨
      ∃ parts d i, c.subPatterns index = .ok parts ∧ (d, i) ∈ parts ∧
        p ∈ (d.boundNames i).names := by
  cases hName : c.isPatternName with
  | true =>
      rw [boundNames, if_pos hName] at hp
      split at hp
      · next name hText =>
          obtain rfl := List.mem_singleton.1 hp
          exact .inl ⟨rfl, hText, rfl, rfl⟩
      · cases hp
  | false =>
      cases hParts : c.subPatterns index with
      | error fault =>
          rw [boundNames_of_error hName hParts] at hp
          cases hp
      | ok parts =>
          rw [boundNames_of_parts hName hParts] at hp
          obtain ⟨part, hPart, hp⟩ := PatternNames.exists_of_mem_concat hp
          obtain ⟨⟨d, i⟩, hd, rfl⟩ := List.mem_map.1 hPart
          exact .inr ⟨parts, d, i, rfl, hd, hp⟩

/-- Without faults the names of a pattern right inside are all there. -/
theorem FaultFree.mem_boundNames (hFree : root.FaultFree) (hc : c ∈ root.preorder)
    (hName : c.isPatternName = false) {parts : List (Cursor × Option Nat)} {i : Option Nat}
    (hParts : c.subPatterns index = .ok parts) (hd : (d, i) ∈ parts) {p : PatternName}
    (hp : p ∈ (d.boundNames i).names) : p ∈ (c.boundNames index).names := by
  rw [boundNames_of_parts hName hParts]
  refine PatternNames.mem_concat ?_ (List.mem_map_of_mem hd) hp
  rintro part hPart
  obtain ⟨q, hq, rfl⟩ := List.mem_map.1 hPart
  have hChild := mem_children_of_mem_subPatterns hParts hq
  have hMem := mem_preorder_trans (mem_preorder_of_mem_children hChild) hc
  cases hFault : (q.1.boundNames q.2).fault with
  | none => rfl
  | some fault => exact (ReadsFailOnly.boundNames hFree hMem q.2 hFault).elim

/-! Positions. -/

/-- The commas in front of a node in a list. -/
def commasBefore (d : Cursor) (cs : List Cursor) : Nat :=
  (cs.takeWhile (·.key ≠ d.key)).countP (·.kind = ",")

theorem commasBefore_self (d : Cursor) (rest : List Cursor) : commasBefore d (d :: rest) = 0 := by
  rw [commasBefore, List.takeWhile_cons_of_neg (by simp)]
  rfl

theorem commasBefore_cons {rest : List Cursor} (hKeys : ((c :: rest).map key).Nodup)
    (hd : d ∈ rest) :
    commasBefore d (c :: rest) = (if c.kind = "," then 1 else 0) + commasBefore d rest := by
  have hOther : c.key ≠ d.key := by
    intro hSame
    rw [List.map_cons, List.nodup_cons] at hKeys
    exact hKeys.1 (hSame ▸ List.mem_map_of_mem hd)
  rw [commasBefore, List.takeWhile_cons_of_pos (by simpa using hOther), List.countP_cons,
    Nat.add_comm]
  simp [commasBefore]

/-- The elements are the named children but for commas, and their positions count the commas in
front. -/
theorem mem_elements_iff {k : Nat} {cs : List Cursor} (hKeys : (cs.map key).Nodup)
    {i : Option Nat} :
    (d, i) ∈ elements k cs ↔ d ∈ cs ∧ d.kind ≠ "," ∧ d.info.countsAsNamed = true ∧
      i = some (k + commasBefore d cs) := by
  fun_induction elements k cs with
  | case1 => simp
  | case2 k c rest hComma ih =>
      have hRest := ih (List.nodup_cons.1 hKeys).2
      have hCount := commasBefore_cons (d := d) hKeys
      grind
  | case3 k c rest hComma hNamed ih =>
      have hRest := ih (List.nodup_cons.1 hKeys).2
      have hCount := commasBefore_cons (d := d) hKeys
      have hFirst := commasBefore_self c rest
      grind
  | case4 k c rest hComma hNamed ih =>
      have hRest := ih (List.nodup_cons.1 hKeys).2
      have hCount := commasBefore_cons (d := d) hKeys
      grind

/-- The position of an element of an array pattern. Holes count. -/
def positionOf (array element : Cursor) : Nat := commasBefore element array.children

/-- An array pattern gives its elements their positions in it, and other patterns pass on the
position that they have themselves. -/
theorem index_of_mem_subPatterns (hKeys : c.DistinctKeys) {parts : List (Cursor × Option Nat)}
    {i : Option Nat} (hParts : c.subPatterns index = .ok parts) (hd : (d, i) ∈ parts) :
    i = if c.kind = "array_pattern" then some (c.positionOf d) else index := by
  by_cases hKind : c.kind = "array_pattern"
  · rw [subPatterns_of_array hKind] at hParts
    cases hParts
    rw [if_pos hKind, ((mem_elements_iff hKeys.nodup_children).1 hd).2.2.2, Nat.zero_add]
    rfl
  · rw [if_neg hKind]
    unfold subPatterns at hParts
    split at hParts
    · next role _ =>
        cases hField : c.field role with
        | error fault =>
            rw [hField] at hParts
            cases hParts
        | ok found =>
            rw [hField] at hParts
            cases hParts
            obtain ⟨e, -, hSame⟩ := List.mem_map.1 hd
            exact (Prod.mk.inj hSame).2.symm
    · rw [if_neg hKind] at hParts
      split at hParts
      · cases hParts
        obtain ⟨e, -, hSame⟩ := List.mem_map.1 hd
        exact (Prod.mk.inj hSame).2.symm
      · cases hParts
        cases hd

end Cursor

end HotPath
