/-! Finite maps that remember the order of insertion. A key that is inserted again gets the new
value and keeps its place. The entries are a plain list, so a map can be inspected, compared and
reasoned about without any notion of hashing or balance. -/

namespace HotPath

/-- Keys with their values, in the order in which the keys were first inserted. -/
structure OrderedMap (α β : Type) where
  entries : List (α × β)

namespace OrderedMap

variable {α β : Type}

/-- The map without entries. -/
def empty : OrderedMap α β := ⟨[]⟩

instance : EmptyCollection (OrderedMap α β) := ⟨empty⟩

instance : Inhabited (OrderedMap α β) := ⟨empty⟩

def keys (m : OrderedMap α β) : List α := m.entries.map Prod.fst

def values (m : OrderedMap α β) : List β := m.entries.map Prod.snd

def size (m : OrderedMap α β) : Nat := m.entries.length

variable [DecidableEq α]

/-- The value of the first entry with a given key. -/
def find (k : α) : List (α × β) → Option β
  | [] => none
  | (k', v) :: rest => if k' = k then some v else find k rest

/-- Replace the value of a key in place, or add the key at the end. -/
def put (k : α) (v : β) : List (α × β) → List (α × β)
  | [] => [(k, v)]
  | (k', v') :: rest => if k' = k then (k', v) :: rest else (k', v') :: put k v rest

def get? (m : OrderedMap α β) (k : α) : Option β := find k m.entries

def contains (m : OrderedMap α β) (k : α) : Bool := (m.get? k).isSome

def insert (m : OrderedMap α β) (k : α) (v : β) : OrderedMap α β := ⟨put k v m.entries⟩

/-- The map with the given pairs, inserted from left to right. -/
def ofList (pairs : List (α × β)) : OrderedMap α β :=
  pairs.foldl (fun m p => m.insert p.1 p.2) {}

/-- The entries of another map laid over those of a map. -/
def update (m more : OrderedMap α β) : OrderedMap α β :=
  more.entries.foldl (fun m p => m.insert p.1 p.2) m

@[simp] theorem get?_empty (k : α) : (empty : OrderedMap α β).get? k = none := rfl

@[simp] theorem get?_insert_self (m : OrderedMap α β) (k : α) (v : β) :
    (m.insert k v).get? k = some v := by
  unfold get? insert
  dsimp only
  induction m.entries with
  | nil => simp [put, find]
  | cons entry rest ih => by_cases h : entry.1 = k <;> simp [put, find, h, ih]

theorem get?_insert_of_ne (m : OrderedMap α β) {k k' : α} (h : k' ≠ k) (v : β) :
    (m.insert k v).get? k' = m.get? k' := by
  unfold get? insert
  dsimp only
  induction m.entries with
  | nil => simp [put, find, h.symm]
  | cons entry rest ih =>
      by_cases hk : entry.1 = k
      · simp [put, find, hk, h.symm]
      · by_cases hk' : entry.1 = k'
        · subst hk'; simp [put, find, hk]
        · simp [put, find, hk, hk', ih]

/-- Looking up a key after an insertion. -/
theorem get?_insert (m : OrderedMap α β) (k k' : α) (v : β) :
    (m.insert k v).get? k' = if k' = k then some v else m.get? k' := by
  by_cases h : k' = k
  · subst h; simp
  · simp [h, get?_insert_of_ne m h]

/-- A key that is already there keeps its place, and a new key comes last. -/
theorem keys_insert (m : OrderedMap α β) (k : α) (v : β) :
    (m.insert k v).keys = if k ∈ m.keys then m.keys else m.keys ++ [k] := by
  unfold keys insert
  dsimp only
  induction m.entries with
  | nil => simp [put]
  | cons entry rest ih =>
      by_cases h : entry.1 = k
      · simp [put, h]
      · by_cases hk : k ∈ rest.map Prod.fst
        · simp [put, h, ih, hk]
        · simp [put, h, ih, hk, Ne.symm h]

end OrderedMap

end HotPath
