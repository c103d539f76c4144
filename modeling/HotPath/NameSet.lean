import HotPath.RawText

/-! Sets of names. The names of a set are kept in order and none of them twice, so sets with the
same names in them are written the same way. -/

namespace HotPath

/-- A set of names, as the list of its names in order. -/
structure NameSet where
  names : List RawText
  sorted : names.Pairwise (· < ·)
deriving DecidableEq

namespace NameSet

instance : Membership RawText NameSet := ⟨fun s name => name ∈ s.names⟩

instance (name : RawText) (s : NameSet) : Decidable (name ∈ s) :=
  inferInstanceAs (Decidable (name ∈ s.names))

instance : EmptyCollection NameSet := ⟨⟨[], .nil⟩⟩

/-- Put a name into its place among names in order, unless it is there. -/
def insertInto (name : RawText) : List RawText → List RawText
  | [] => [name]
  | first :: rest =>
    if name < first then name :: first :: rest
    else if name = first then first :: rest
    else first :: insertInto name rest

theorem mem_insertInto {name other : RawText} {names : List RawText} :
    name ∈ insertInto other names ↔ name = other ∨ name ∈ names := by
  fun_induction insertInto other names with
  | case1 => simp
  | case2 first rest _ => simp
  | case3 => simp
  | case4 first rest _ _ ih => simp [ih, or_left_comm]

theorem pairwise_insertInto {names : List RawText} (name : RawText)
    (h : names.Pairwise (· < ·)) : (insertInto name names).Pairwise (· < ·) := by
  fun_induction insertInto name names with
  | case1 => exact List.pairwise_singleton _ _
  | case2 first rest hBefore =>
      refine List.pairwise_cons.2 ⟨?_, h⟩
      intro other hOther
      rcases List.mem_cons.1 hOther with rfl | hOther
      · exact hBefore
      · exact RawText.lt_trans hBefore ((List.pairwise_cons.1 h).1 other hOther)
  | case3 => exact h
  | case4 first rest hBefore hNe ih =>
      obtain ⟨hFirst, hRest⟩ := List.pairwise_cons.1 h
      refine List.pairwise_cons.2 ⟨?_, ih hRest⟩
      intro other hOther
      rcases mem_insertInto.1 hOther with rfl | hOther
      · exact RawText.lt_of_not_lt hBefore hNe
      · exact hFirst other hOther

/-- A set with one more name. -/
def insert (name : RawText) (s : NameSet) : NameSet :=
  ⟨insertInto name s.names, pairwise_insertInto name s.sorted⟩

/-- The set of the names of a list, in whatever order and however often they are listed. -/
def ofList (names : List RawText) : NameSet := names.foldr insert {}

/-- The set of names that have no halves. -/
def ofTexts (names : List String) : NameSet := ofList (names.map .plain)

/-- The names without halves. No other name is met in a program. -/
def texts (s : NameSet) : List String := s.names.filterMap RawText.plain?

theorem mem_def {name : RawText} {s : NameSet} : name ∈ s ↔ name ∈ s.names := Iff.rfl

@[simp]
theorem mem_insert {name other : RawText} {s : NameSet} :
    name ∈ s.insert other ↔ name = other ∨ name ∈ s := mem_insertInto

@[simp]
theorem mem_ofList {name : RawText} {names : List RawText} :
    name ∈ ofList names ↔ name ∈ names := by
  induction names with
  | nil => simp [ofList, mem_def, EmptyCollection.emptyCollection]
  | cons first rest ih => simpa [ofList] using or_congr_right ih

@[simp]
theorem mem_texts {s : NameSet} {name : String} : name ∈ s.texts ↔ .plain name ∈ s := by
  simp only [texts, List.mem_filterMap, mem_def]
  constructor
  · rintro ⟨t, hMem, hPlain⟩
    cases t with
    | plain s =>
        cases hPlain
        exact hMem
    | broken => cases hPlain
  · intro hMem
    exact ⟨_, hMem, rfl⟩

end NameSet

end HotPath
