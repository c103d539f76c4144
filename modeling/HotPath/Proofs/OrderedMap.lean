import HotPath.OrderedMap
import Mathlib.Data.List.Induction
import Mathlib.Data.List.Nodup
import Mathlib.Data.List.Perm.Subperm

/-! What a map holds, seen through its lookup. No key has two entries in a map that was built by
insertions, so entries, values and lookups tell the same. Of several values for one key the last one
counts, and it does not matter whether pairs are laid over a map one by one or together. -/

namespace HotPath.OrderedMap

variable {α β : Type}

theorem find_isSome_iff [DecidableEq α] (k : α) (entries : List (α × β)) :
    (find k entries).isSome ↔ k ∈ entries.map Prod.fst := by
  induction entries with
  | nil => simp [find]
  | cons entry rest ih =>
      by_cases h : entry.1 = k
      · simp [find, h]
      · simp [find, h, ih, Ne.symm h]

theorem contains_iff_mem_keys [DecidableEq α] (m : OrderedMap α β) (k : α) :
    m.contains k = true ↔ k ∈ m.keys :=
  find_isSome_iff k m.entries

theorem contains_eq_false_iff [DecidableEq α] (m : OrderedMap α β) (k : α) :
    m.contains k = false ↔ k ∉ m.keys := by
  rw [← contains_iff_mem_keys, Bool.not_eq_true]

theorem exists_get?_iff_mem_keys [DecidableEq α] (m : OrderedMap α β) (k : α) :
    (∃ v, m.get? k = some v) ↔ k ∈ m.keys := by
  rw [← contains_iff_mem_keys, contains, Option.isSome_iff_exists]

theorem mem_keys_insert [DecidableEq α] (m : OrderedMap α β) (k k' : α) (v : β) :
    k' ∈ (m.insert k v).keys ↔ k' = k ∨ k' ∈ m.keys := by
  rw [keys_insert]
  split
  · next h =>
      constructor
      · exact Or.inr
      · rintro (rfl | h')
        · exact h
        · exact h'
  · rw [List.mem_append, List.mem_singleton, or_comm]

theorem eq_or_mem_of_mem_insert [DecidableEq α] {m : OrderedMap α β} {k : α} {v : β} {p : α × β}
    (h : p ∈ (m.insert k v).entries) : p = (k, v) ∨ p ∈ m.entries := by
  unfold insert at h
  dsimp only at h
  generalize m.entries = entries at h ⊢
  induction entries with
  | nil => simpa [put] using h
  | cons entry rest ih =>
      by_cases hk : entry.1 = k
      · simp only [put, hk, if_true, List.mem_cons] at h
        exact h.imp_right fun hRest => by simp [hRest]
      · simp only [put, hk, if_false, List.mem_cons] at h
        rcases h with rfl | hRest
        · simp
        · exact (ih hRest).imp_right fun hMem => by simp [hMem]

/-- No key has two entries. -/
def Distinct (m : OrderedMap α β) : Prop := m.keys.Nodup

theorem distinct_empty : (empty : OrderedMap α β).Distinct := List.nodup_nil

theorem Distinct.insert [DecidableEq α] {m : OrderedMap α β} (h : m.Distinct) (k : α) (v : β) :
    (m.insert k v).Distinct := by
  unfold Distinct
  rw [keys_insert]
  split
  · exact h
  · next hk =>
      apply List.Nodup.append h (List.nodup_singleton k)
      simpa using hk

/-- In a map without repeated keys an entry is what the lookup of its key finds. -/
theorem Distinct.mem_entries_iff [DecidableEq α] {m : OrderedMap α β} (h : m.Distinct) {k : α}
    {v : β} : (k, v) ∈ m.entries ↔ m.get? k = some v := by
  unfold Distinct keys at h
  unfold get?
  induction hEntries : m.entries generalizing m with
  | nil => simp [find]
  | cons entry rest ih =>
      obtain ⟨k', v'⟩ := entry
      rw [hEntries, List.map_cons, List.nodup_cons] at h
      have hRest := @ih ⟨rest⟩ h.2 rfl
      by_cases hk : k' = k
      · subst hk
        have hAbsent : (k', v) ∉ rest := fun hMem => h.1 (List.mem_map.2 ⟨_, hMem, rfl⟩)
        simp [find, hAbsent, eq_comm]
      · simp [find, hk, Ne.symm hk, hRest]

theorem Distinct.mem_values_iff [DecidableEq α] {m : OrderedMap α β} (h : m.Distinct) {v : β} :
    v ∈ m.values ↔ ∃ k, m.get? k = some v := by
  simp only [values, List.mem_map, Prod.exists, exists_eq_right, h.mem_entries_iff]

/-- A key counts once in a map without repeated keys, if its value is one of those counted. -/
theorem Distinct.countP_key [DecidableEq α] {m : OrderedMap α β} (h : m.Distinct) (k : α)
    (q : β → Bool) :
    m.entries.countP (fun p => p.1 = k && q p.2) = ((m.get? k).any q).toNat := by
  unfold Distinct keys at h
  unfold get?
  generalize m.entries = entries at h
  induction entries with
  | nil => rfl
  | cons entry rest ih =>
      obtain ⟨k', v⟩ := entry
      rw [List.map_cons, List.nodup_cons] at h
      by_cases hk : k' = k
      · subst hk
        have hRest : rest.countP (fun p => p.1 = k' && q p.2) = 0 := by
          rw [List.countP_eq_zero]
          intro p hp hCounted
          have hKey : p.1 = k' := by simp_all
          exact h.1 (List.mem_map.2 ⟨p, hp, hKey⟩)
        cases hq : q v <;> simp [find, hq, hRest]
      · simpa [find, hk] using ih h.2

theorem find_eq_find? [DecidableEq α] (k : α) (entries : List (α × β)) :
    find k entries = (entries.find? (·.1 = k)).map Prod.snd := by
  induction entries with
  | nil => rfl
  | cons entry rest ih => by_cases h : entry.1 = k <;> simp [find, h, ih]

theorem find_append [DecidableEq α] (k : α) (xs ys : List (α × β)) :
    find k (xs ++ ys) = (find k xs).or (find k ys) := by
  induction xs with
  | nil => simp [find]
  | cons entry rest ih => by_cases h : entry.1 = k <;> simp [find, h, ih]

/-- After insertions from left to right a key has the last value that was inserted for it. -/
theorem get?_foldl_insert [DecidableEq α] (pairs : List (α × β)) (m : OrderedMap α β) (k : α) :
    (pairs.foldl (fun m p => m.insert p.1 p.2) m).get? k =
      (find k pairs.reverse).or (m.get? k) := by
  induction pairs generalizing m with
  | nil => simp [find]
  | cons p rest ih =>
      rw [List.foldl_cons, ih, get?_insert, List.reverse_cons, find_append]
      by_cases h : k = p.1
      · simp [find, h]
      · simp [find, h, Ne.symm h]

theorem Distinct.foldl_insert [DecidableEq α] {m : OrderedMap α β} (h : m.Distinct)
    (pairs : List (α × β)) : (pairs.foldl (fun m p => m.insert p.1 p.2) m).Distinct := by
  induction pairs generalizing m with
  | nil => exact h
  | cons p rest ih => exact ih (h.insert p.1 p.2)

theorem distinct_ofList [DecidableEq α] (pairs : List (α × β)) : (ofList pairs).Distinct :=
  distinct_empty.foldl_insert pairs

/-- Of two values for one key only the second one stays. -/
theorem insert_insert_self [DecidableEq α] (m : OrderedMap α β) (k : α) (v w : β) :
    (m.insert k v).insert k w = m.insert k w := by
  unfold insert
  congr 1
  induction m.entries with
  | nil => simp [put]
  | cons entry rest ih => by_cases h : entry.1 = k <;> simp [put, h, ih]

/-- A key that has its place may get its value before or after another key is inserted. -/
theorem insert_comm_of_mem [DecidableEq α] {m : OrderedMap α β} {j k : α} (hk : k ∈ m.keys)
    (hne : j ≠ k) (v w : β) : (m.insert j w).insert k v = (m.insert k v).insert j w := by
  unfold keys at hk
  unfold insert
  congr 1
  induction hEntries : m.entries generalizing m with
  | nil => simp [hEntries] at hk
  | cons entry rest ih =>
      by_cases h : entry.1 = k
      · simp [put, h, Ne.symm hne]
      · have hRest : k ∈ rest.map Prod.fst := by simpa [hEntries, Ne.symm h] using hk
        by_cases hj : entry.1 = j
        · simp [put, hj, hne]
        · simpa [put, h, hj] using @ih ⟨rest⟩ hRest rfl

theorem foldl_insert_comm [DecidableEq α] {m : OrderedMap α β} {k : α} (hk : k ∈ m.keys) (v : β)
    {pairs : List (α × β)} (hAbsent : k ∉ pairs.map Prod.fst) :
    (pairs.foldl (fun m p => m.insert p.1 p.2) m).insert k v =
      pairs.foldl (fun m p => m.insert p.1 p.2) (m.insert k v) := by
  induction pairs generalizing m with
  | nil => rfl
  | cons p rest ih =>
      simp only [List.map_cons, List.mem_cons, not_or] at hAbsent
      rw [List.foldl_cons, List.foldl_cons,
        ih ((mem_keys_insert m p.1 k p.2).2 (.inr hk)) hAbsent.2,
        insert_comm_of_mem hk (Ne.symm hAbsent.1)]

/-- Laying a map over another one can be followed by an insertion into the upper one. -/
theorem update_insert [DecidableEq α] (m : OrderedMap α β) {more : OrderedMap α β}
    (h : more.Distinct) (k : α) (v : β) :
    m.update (more.insert k v) = (m.update more).insert k v := by
  unfold Distinct keys at h
  unfold update insert
  dsimp only
  induction hEntries : more.entries generalizing m more with
  | nil => rfl
  | cons entry rest ih =>
      obtain ⟨k', v'⟩ := entry
      rw [hEntries, List.map_cons, List.nodup_cons] at h
      by_cases hk : k' = k
      · subst hk
        have hPlace : k' ∈ (m.insert k' v').keys := (mem_keys_insert m k' k' v').2 (.inl rfl)
        have hComm := foldl_insert_comm hPlace v h.1
        rw [insert_insert_self] at hComm
        simpa [put, insert] using hComm.symm
      · simpa [put, insert, hk] using @ih (m.insert k' v') ⟨rest⟩ h.2 rfl

/-- Pairs can be collected into a map of their own before they are laid over another one. -/
theorem update_ofList [DecidableEq α] (m : OrderedMap α β) (pairs : List (α × β)) :
    m.update (ofList pairs) = pairs.foldl (fun m p => m.insert p.1 p.2) m := by
  induction pairs using List.reverseRecOn with
  | nil => rfl
  | append_singleton rest p ih =>
      have hOf : ofList (rest ++ [p]) = (ofList rest).insert p.1 p.2 := by
        simp [ofList, List.foldl_append]
      rw [hOf, update_insert m (distinct_ofList rest), ih, List.foldl_append]
      rfl

end HotPath.OrderedMap
