import HotPath.Syntax.Reading

/-! Names bound by a pattern. A pattern is an identifier or takes a value apart into smaller
patterns, which may lie in each other as deep as they like. Inside an array pattern a name also has
a position, which counts holes. -/

namespace HotPath

/-- A name that a pattern binds. -/
structure PatternName where
  name : String
  node : Cursor
  /-- Position in the innermost array pattern around the name. -/
  index : Option Nat

/-- The names of a pattern up to its end, or up to the fault that stopped the reading. -/
structure PatternNames where
  names : List PatternName
  fault : Option Fault

namespace PatternNames

/-- Names of one pattern and then of the next, which is not read after a fault. -/
def append (first second : PatternNames) : PatternNames :=
  match first.fault with
  | some fault => ⟨first.names, some fault⟩
  | none => ⟨first.names ++ second.names, second.fault⟩

def concat (parts : List PatternNames) : PatternNames :=
  parts.foldr append ⟨[], none⟩

end PatternNames

namespace Cursor

/-- The elements of an array pattern with their positions. Each comma moves on by one. -/
def elements : Nat → List Cursor → List (Cursor × Option Nat)
  | _, [] => []
  | i, c :: rest =>
    if c.kind = "," then elements (i + 1) rest
    else if c.info.countsAsNamed then (c, some i) :: elements i rest
    else elements i rest

theorem mem_of_mem_elements {i : Nat} {cs : List Cursor} {p : Cursor × Option Nat}
    (h : p ∈ elements i cs) : p.1 ∈ cs := by
  fun_induction elements i cs with
  | case1 => cases h
  | case2 _ _ _ _ ih => exact List.mem_cons_of_mem _ (ih h)
  | case3 i c rest _ _ ih =>
      rcases List.mem_cons.1 h with rfl | h
      · exact List.mem_cons_self
      · exact List.mem_cons_of_mem _ (ih h)
  | case4 _ _ _ _ _ ih => exact List.mem_cons_of_mem _ (ih h)

/-- Kinds of patterns that hold one pattern in a field, with the field. -/
def patternFields : List (String × String) :=
  [("required_parameter", "pattern"), ("optional_parameter", "pattern"),
    ("assignment_pattern", "left"), ("object_assignment_pattern", "left"),
    ("pair_pattern", "value")]

/-- The patterns right inside a pattern, with the position that they pass on to names. -/
def subPatterns (c : Cursor) (index : Option Nat) :
    Except Fault (List (Cursor × Option Nat)) :=
  match patternFields.lookup c.kind with
  | some role => (c.field role).map fun inner => inner.toList.map (·, index)
  | none =>
    if c.kind = "array_pattern" then .ok (elements 0 c.children)
    else if c.kind = "rest_pattern" || c.kind = "object_pattern" then
      .ok (c.namedChildren.map (·, index))
    else .ok []

theorem mem_children_of_mem_subPatterns {c : Cursor} {index : Option Nat}
    {ps : List (Cursor × Option Nat)} (h : c.subPatterns index = .ok ps)
    {p : Cursor × Option Nat} (hp : p ∈ ps) : p.1 ∈ c.children := by
  unfold subPatterns at h
  split at h
  · next role _ =>
      cases hf : c.field role with
      | error fault => rw [hf] at h; cases h
      | ok inner =>
          rw [hf] at h
          cases h
          cases inner with
          | none => simp at hp
          | some d =>
              have : p = (d, index) := by simpa using hp
              subst this
              exact mem_children_of_field hf
  · split at h
    · cases h
      exact mem_of_mem_elements hp
    · split at h
      · cases h
        obtain ⟨d, hd, rfl⟩ := List.mem_map.1 hp
        exact mem_children_of_mem_namedChildren hd
      · cases h
        cases hp

/-- Kinds of patterns that are a name. -/
def isPatternName (c : Cursor) : Bool :=
  c.kind == "identifier" || c.kind == "shorthand_property_identifier_pattern"

/-- The names that a pattern binds, in the order of the text. -/
def boundNames (c : Cursor) (index : Option Nat) : PatternNames :=
  if c.isPatternName then
    match c.text with
    | .ok name => ⟨[⟨name, c, index⟩], none⟩
    | .error fault => ⟨[], some fault⟩
  else
    match h : c.subPatterns index with
    | .error fault => ⟨[], some fault⟩
    | .ok parts => .concat (parts.attach.map fun part =>
        have := size_lt_of_mem_children (mem_children_of_mem_subPatterns h part.2)
        boundNames part.1.1 part.1.2)
termination_by c.size

end Cursor

end HotPath
