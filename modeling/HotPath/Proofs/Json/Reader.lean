import HotPath.Json.Reader
import HotPath.Proofs.Checks
import HotPath.Proofs.OrderedMap

/-! What the reader of documents gives: values in which no object, however deep, has two members of
one name. A name that is written twice is inserted twice, and insertion keeps names apart. -/

namespace HotPath

/-- The members of an object. Other values have none. -/
def Value.members : Value → List (RawText × Value)
  | .object members => members
  | _ => []

theorem Value.member?_eq (v : Value) (name : String) :
    v.member? name = v.members.lookup (.plain name) := by
  cases v <;> rfl

/-- No object in a value has two members of one name. -/
inductive Value.Proper : Value → Prop
  | atom {v : Value} (h : v.isKey = true) : Proper v
  | list {items : List Value} (h : ∀ v ∈ items, Proper v) : Proper (.list items)
  | object {members : List (RawText × Value)} (hNames : (members.map Prod.fst).Nodup)
      (h : ∀ m ∈ members, Proper m.2) : Proper (.object members)

namespace Value.Proper

theorem of_mem_items {items : List Value} (h : (Value.list items).Proper) {v : Value}
    (hv : v ∈ items) : v.Proper := by
  cases h with
  | atom h => cases h
  | list h => exact h v hv

theorem nodup_names {members : List (RawText × Value)} (h : (Value.object members).Proper) :
    (members.map Prod.fst).Nodup := by
  cases h with
  | atom h => cases h
  | object hNames _ => exact hNames

theorem of_mem_members {v : Value} (h : v.Proper) {m : RawText × Value} (hm : m ∈ v.members) :
    m.2.Proper := by
  cases h with
  | atom h => cases v <;> simp_all [Value.members, Value.isKey]
  | list h => cases hm
  | object _ h => exact h m hm

theorem of_member? {v w : Value} (h : v.Proper) {name : String} (hMember : v.member? name = some w) :
    w.Proper := by
  rw [Value.member?_eq] at hMember
  obtain ⟨before, after, hSplit, -⟩ := List.lookup_eq_some_iff.1 hMember
  exact h.of_mem_members (m := (.plain name, w)) (by simp [hSplit])

end Value.Proper

namespace Json

open Checks

theorem isKey_of_number {cs rest : List Char} {v : Value} (h : number cs = .ok (v, rest)) :
    v.isKey = true := by
  unfold number at h
  split at h
  dsimp only at h
  split at h
  · cases h
  · split at h
    · split at h
      · cases h
      · cases h
        rfl
    · cases h
      rfl

theorem isKey_of_word? {cs rest : List Char} {v : Value} (h : word? cs = some (v, rest)) :
    v.isKey = true := by
  obtain ⟨entry, hFind, hEntry⟩ := Option.map_eq_some_iff.1 h
  have hWords : ∀ entry ∈ words, entry.2.isKey = true := by simp [words, Value.isKey]
  cases hEntry
  exact hWords entry (List.mem_of_find?_eq_some hFind)

/-- The members that have been read of an object. -/
def ProperMembers (m : OrderedMap RawText Value) : Prop :=
  m.Distinct ∧ ∀ k v, m.get? k = some v → v.Proper

theorem ProperMembers.insert {m : OrderedMap RawText Value} (h : ProperMembers m) (k : RawText)
    {v : Value} (hv : v.Proper) : ProperMembers (m.insert k v) := by
  refine ⟨h.1.insert k v, ?_⟩
  intro k' v' hGet
  rw [OrderedMap.get?_insert] at hGet
  split at hGet
  · cases hGet
    exact hv
  · exact h.2 k' v' hGet

theorem ProperMembers.proper {m : OrderedMap RawText Value} (h : ProperMembers m) :
    (Value.object m.entries).Proper := by
  refine .object h.1 ?_
  rintro ⟨k, v⟩ hMem
  exact h.2 k v (h.1.mem_entries_iff.1 hMem)

/-- Values, items and members are read by calls of each other, so all three are judged together. -/
theorem proper_of_fuel (fuel : Nat) :
    (∀ cs v rest, value fuel cs = .ok (v, rest) → v.Proper) ∧
    (∀ cs vs rest, items fuel cs = .ok (vs, rest) → ∀ v ∈ vs, v.Proper) ∧
    (∀ earlier cs ms rest, members fuel earlier cs = .ok (ms, rest) →
      ProperMembers earlier → ProperMembers ms) := by
  induction fuel with
  | zero => simp [value, items, members]
  | succ fuel ih =>
      obtain ⟨ihValue, ihItems, ihMembers⟩ := ih
      refine ⟨?_, ?_, ?_⟩
      · intro cs v rest h
        unfold value at h
        split at h
        · obtain ⟨⟨s, _⟩, -, hEq⟩ := map_eq_ok_iff.1 h
          cases hEq
          exact .atom rfl
        · split at h
          · cases h
            exact .list (by simp)
          · obtain ⟨⟨vs, _⟩, hItems, hEq⟩ := map_eq_ok_iff.1 h
            cases hEq
            exact .list (ihItems _ _ _ hItems)
        · split at h
          · cases h
            exact .object (by simp) (by simp)
          · obtain ⟨⟨ms, _⟩, hMembers, hEq⟩ := map_eq_ok_iff.1 h
            cases hEq
            have hStart : ProperMembers {} :=
              ⟨OrderedMap.distinct_empty, fun k v hGet => by cases hGet⟩
            exact (ihMembers _ _ _ _ hMembers hStart).proper
        · split at h
          · next hWord =>
              cases h
              exact .atom (isKey_of_word? hWord)
          · exact .atom (isKey_of_number h)
      · intro cs vs rest h
        unfold items at h
        obtain ⟨⟨first, _⟩, hFirst, hRest⟩ := bind_eq_ok_iff.1 h
        have hProper := ihValue _ _ _ hFirst
        dsimp only at hRest
        split at hRest
        · cases hRest
          simpa using hProper
        · obtain ⟨⟨others, _⟩, hOthers, hEq⟩ := bind_eq_ok_iff.1 hRest
          cases hEq
          simpa using ⟨hProper, ihItems _ _ _ hOthers⟩
        · cases hRest
      · intro earlier cs ms rest h hEarlier
        unfold members at h
        split at h
        · obtain ⟨⟨name, _⟩, -, hColon⟩ := bind_eq_ok_iff.1 h
          dsimp only at hColon
          split at hColon
          · obtain ⟨⟨v, _⟩, hValue, hNext⟩ := bind_eq_ok_iff.1 hColon
            have hKnown := hEarlier.insert name (ihValue _ _ _ hValue)
            dsimp only at hNext
            split at hNext
            · cases hNext
              exact hKnown
            · exact ihMembers _ _ _ _ hNext hKnown
            · cases hNext
          · cases hColon
        · cases h

/-- A document that can be read is a value without repeated names. -/
theorem proper_of_readChars {cs : List Char} {v : Value} (h : readChars cs = .ok v) : v.Proper := by
  unfold readChars at h
  split at h
  · cases h
  · obtain ⟨⟨read, _⟩, hRead, hEnd⟩ := bind_eq_ok_iff.1 h
    have hProper := (proper_of_fuel _).1 _ _ _ hRead
    dsimp only at hEnd
    split at hEnd
    · cases hEnd
      exact hProper
    · cases hEnd

end Json

end HotPath
