import HotPath.Command.Setup
import HotPath.Proofs.Json.Reader
import HotPath.Proofs.Rule.Options

/-! Options as tables. Tables can be made of objects and of items that are pairs. In a table that was
made of what a document says no option is named twice, so setting an option leaves one value for it,
and the table tells for each option what was given. -/

namespace HotPath

open Checks

/-- Only the text itself is the same key as a text. -/
theorem Value.sameKey_text_iff {key : Value} {s : String} :
    key.sameKey (.text s) = true ↔ key = .text s := by
  cases key <;> simp [sameKey, keyNumber?]

namespace PairTable

open RuleOptions

variable {t t' : PairTable} {key v : Value} {raw : RawOptions}

/-- No option is named twice. -/
def Unambiguous (t : PairTable) : Prop :=
  (t.map Prod.fst).Pairwise fun a b => ∀ n : OptionName, a = .text n.name → b ≠ .text n.name

/-- A key that is there keeps its place, and a new key comes last. -/
theorem keys_put (key v : Value) (t : PairTable) :
    (put key v t).map Prod.fst =
      if t.any (fun m => m.1.sameKey key) then t.map Prod.fst else t.map Prod.fst ++ [key] := by
  fun_induction put key v t with
  | case1 => simp
  | case2 k old rest hSame => simp [hSame]
  | case3 k old rest hOther ih =>
      rw [List.map_cons, ih]
      by_cases hRest : rest.any (fun m => m.1.sameKey key) <;> simp [hOther, hRest]

theorem Unambiguous.put (h : t.Unambiguous) (key v : Value) : (put key v t).Unambiguous := by
  unfold Unambiguous at h ⊢
  rw [keys_put]
  split
  · exact h
  · next hNew =>
      apply List.pairwise_append.2 ⟨h, List.pairwise_singleton _ _, ?_⟩
      intro a ha b hb n hFirst hAgain
      obtain rfl := List.mem_singleton.1 hb
      -- the key would be the same as one that is there
      apply hNew
      obtain ⟨m, hm, rfl⟩ := List.mem_map.1 ha
      rw [hAgain]
      exact List.any_eq_true.2 ⟨m, hm, Value.sameKey_text_iff.2 hFirst⟩

/-- After an option has been set, its new value is what the table gives for it. -/
theorem given?_put (h : t.Unambiguous) (n k : OptionName) (v : Value) :
    given? (put (.text n.name) v t) k = if k = n then some v else given? t k := by
  unfold Unambiguous at h
  induction t with
  | nil => by_cases hk : k = n <;> simp [PairTable.put, given?, isNamed_text, hk]
  | cons first rest ih =>
      obtain ⟨key, old⟩ := first
      rw [List.map_cons, List.pairwise_cons] at h
      by_cases hKey : key = .text n.name
      · have hRest : given? rest n = none :=
          given?_eq_none_iff.2 fun m hm => h.1 m.1 (List.mem_map_of_mem hm) n hKey
        have hSame : key.sameKey (.text n.name) = true := Value.sameKey_text_iff.2 hKey
        rw [PairTable.put, if_pos hSame, given?_cons, given?_cons, hKey, isNamed_text, isNamed_text]
        by_cases hk : k = n <;> simp [hk, hRest]
      · have hOther : ¬key.sameKey (.text n.name) = true := fun hSame =>
          hKey (Value.sameKey_text_iff.1 hSame)
        rw [PairTable.put, if_neg hOther, given?_cons, given?_cons, ih h.2]
        by_cases hk : k = n <;> simp [hk]

theorem unambiguous_of_nodup {members : List (RawText × Value)}
    (h : (members.map Prod.fst).Nodup) :
    Unambiguous (members.map fun m => (.str m.1, m.2)) := by
  have hKeys : (members.map fun m => ((.str m.1, m.2) : Value × Value)).map Prod.fst =
      (members.map Prod.fst).map Value.str := by
    simp
  unfold Unambiguous
  rw [hKeys, List.pairwise_map]
  apply h.imp
  intro a b hNe n hFirst hAgain
  exact hNe (Value.str.inj (hFirst.trans hAgain.symm))

theorem Unambiguous.addItem {item : Value × Nat} (h : t.Unambiguous)
    (hItem : PairTable.addItem t item = .ok t') : t'.Unambiguous := by
  unfold PairTable.addItem at hItem
  split at hItem
  · cases hItem
  · split at hItem
    · cases hItem
      exact h.put _ _
    · cases hItem
  · cases hItem

/-- What a document says gives tables in which no option is named twice. -/
theorem unambiguous_of_ofValue (hProper : v.Proper) (h : ofValue v = .ok t) : t.Unambiguous := by
  have hEmpty : Unambiguous [] := .nil
  unfold ofValue at h
  split at h
  · cases h
    exact hEmpty
  · split at h
    · cases h
      exact unambiguous_of_nodup hProper.nodup_names
    · split at h
      · cases h
      · exact foldlM_keeps Unambiguous (fun t item t' ht hItem => ht.addItem hItem) hEmpty h

theorem ofRaw_givenOptions (raw : RawOptions) :
    ofRaw (LintRequest.givenOptions raw) = ofRaw raw := by
  cases raw with
  | members ms => rfl
  | value v => cases h : v.isTruthy <;> simp [LintRequest.givenOptions, ofRaw, ofValue, h]

/-- Options that are accepted are those of a table. -/
theorem exists_of_ofRaw {rule : Option RawText} {recognized : List String} {base o : RuleOptions}
    (h : RuleOptions.ofRaw rule recognized base raw = .ok o) :
    ∃ t, ofRaw raw = .ok t ∧ ofMembers rule recognized base t = .ok o := by
  unfold RuleOptions.ofRaw at h
  split at h
  · exact ⟨[], rfl, h⟩
  · next members =>
      refine ⟨_, ?_, h⟩
      cases members <;> simp [ofRaw, ofValue, Value.isTruthy]
  · cases h
  · exact ⟨_, rfl, h⟩

/-- A pair of a key and a value. -/
def IsPair (v : Value) : Prop :=
  ∃ key w, itemsOf? v = some [key, w] ∧ key.isKey = true

/-- Whether a table can be made of a value. -/
def Tabular (v : Value) : Prop :=
  v.isTruthy = false ∨ (∃ members, v = .object members) ∨
    ∃ items, itemsOf? v = some items ∧ ∀ item ∈ items, IsPair item

theorem addItem_isOk_iff (t : PairTable) (item : Value × Nat) :
    (∃ t', addItem t item = .ok t') ↔ IsPair item.1 := by
  unfold addItem IsPair
  split
  · next hNone => simp [hNone]
  · next key w hPair => by_cases hKey : key.isKey <;> simp [hPair, hKey]
  · next items hOther hItems =>
      simp only [reduceCtorEq, exists_false, false_iff]
      rintro ⟨key, w, hPair, -⟩
      exact hOther key w (Option.some.inj (hItems.symm.trans hPair))

theorem ofValue_isOk_iff (v : Value) : (∃ t, ofValue v = .ok t) ↔ Tabular v := by
  unfold ofValue Tabular
  split
  · next hAbsent => simp_all
  · next hGiven =>
      split
      · simp
      · next hOther =>
          have hItems (items : List Value) :
              (∃ t, items.zipIdx.foldlM addItem [] = .ok t) ↔ ∀ item ∈ items, IsPair item := by
            rw [foldlM_isOk_iff addItem_isOk_iff]
            constructor
            · intro h item hItem
              obtain ⟨i, hi⟩ := List.mem_iff_getElem?.1 hItem
              exact h (item, i) (List.mem_zipIdx_iff_getElem?.2 hi)
            · intro h item hItem
              exact h item.1 (List.fst_mem_of_mem_zipIdx hItem)
          split
          · next hNone => simp_all
          · next items hSome => simp_all

end PairTable

end HotPath
