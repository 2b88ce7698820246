import Netos.Lib.CString
import Netos.Lib.Cxx

/-!
# The sync table

`tables/sync_table.h` and `tables/sync_table.cpp`: which origins asked for which of the served keys,
for at most `capacity` keys, the least recently recorded of which is evicted. The source keeps in
every entry an iterator into the list `lru_`; here the nodes of that list are numbered, and an
iterator is the number of its node.
-/

namespace Netos

open CString Cxx

/-- `SyncTable::Entry`. -/
structure SyncTable.Entry where
  /-- The origins that asked for the key, in the order in which they were recorded. -/
  destinations : List Bytes
  /-- The node of the key in `lru`. -/
  lru_it : ℕ
deriving DecidableEq

/-- `SyncTable`. -/
structure SyncTable where
  /-- How many keys are kept. -/
  capacity : ℕ
  /-- The nodes of the list of keys, the most recently recorded first. -/
  lru : List (ℕ × Bytes)
  /-- The number of the next node. -/
  next_node : ℕ
  /-- The entries. -/
  table : UnorderedMap Bytes SyncTable.Entry
  /-- The number of destinations over all entries. -/
  destination_total : ℕ
  /-- The calls of `record_destination`. -/
  updates : UInt64
  /-- The calls that found the destination recorded. -/
  duplicate_destinations : UInt64
  /-- The keys evicted. -/
  evicted_total : UInt64

namespace SyncTable

/-- The constructor. -/
def construct (capacity : ℕ) : SyncTable := ⟨capacity, [], 0, ∅, 0, 0, 0, 0⟩

/-- `Update`. -/
structure Update where
  /-- The key was not in the table. -/
  key_added : Bool := false
  /-- The destination was not recorded for the key. -/
  destination_added : Bool := false
  /-- The destination was recorded for the key. -/
  destination_duplicate : Bool := false
  /-- The number of keys. -/
  key_count : ℕ := 0
  /-- The number of destinations of the key. -/
  destination_count : ℕ := 0
  /-- The number of keys evicted. -/
  evicted : ℕ := 0

/-- `touch`: the key moves to the front, into a new node. -/
def touch (t : SyncTable) (key : Bytes) : SyncTable :=
  match t.table.lookup key with
  | none => t
  | some entry =>
    { t with
      lru := (t.next_node, key) :: t.lru.filter fun node => node.1 ≠ entry.lru_it
      next_node := t.next_node + 1
      table := t.table.insert key { entry with lru_it := t.next_node } }

/-- One round of the loop of `evict_if_needed`: the last key of the list goes. -/
def evictLast (t : SyncTable) (last : ℕ × Bytes) (rest : List (ℕ × Bytes)) : SyncTable :=
  let t := { t with lru := rest }
  match t.table.lookup last.2 with
  | none => t
  | some entry =>
    -- The total is not let below zero.
    { t with
      destination_total :=
        if t.destination_total ≥ entry.destinations.length then
          t.destination_total - entry.destinations.length
        else 0
      table := t.table.erase last.2 }

/-- `evict_if_needed`, on a list of as many nodes as `rounds`. -/
def evictIfNeeded (t : SyncTable) : (rounds : ℕ) → SyncTable × ℕ
  | 0 => (t, 0)
  | rounds + 1 =>
    if size t.table > t.capacity then
      match t.lru.getLast? with
      | none => (t, 0)
      | some last =>
        let (t, evicted) := evictIfNeeded (t.evictLast last t.lru.dropLast) rounds
        (t, evicted + 1)
    else (t, 0)

/-- The first part of `record_destination`: the destination is entered, and the key is the most
recent one. -/
def enter (t : SyncTable) (key destination : Bytes) : SyncTable × Update :=
  match t.table.lookup key with
  | none =>
    ({ t with
        lru := (t.next_node, key) :: t.lru, next_node := t.next_node + 1
        table := t.table.insert key ⟨[destination], t.next_node⟩
        destination_total := t.destination_total + 1 },
      { key_added := true, destination_added := true, destination_count := 1 })
  | some entry =>
    if destination ∈ entry.destinations then
      (touch { t with duplicate_destinations := t.duplicate_destinations + 1 } key,
        { destination_duplicate := true, destination_count := entry.destinations.length })
    else
      (touch { t with
          table := t.table.insert key
            { entry with destinations := entry.destinations ++ [destination] }
          destination_total := t.destination_total + 1 } key,
        { destination_added := true, destination_count := entry.destinations.length + 1 })

/-- `record_destination`. -/
def recordDestination (t : SyncTable) (key destination : Bytes) : SyncTable × Update :=
  let (t, update) := enter { t with updates := t.updates + 1 } key destination
  let (t, evicted) := t.evictIfNeeded t.lru.length
  ({ t with evicted_total := t.evicted_total + UInt64.ofNat evicted },
    { update with key_count := size t.table, evicted })

/-- `destinations`. -/
def destinations (t : SyncTable) (key : Bytes) : List Bytes :=
  match t.table.lookup key with
  | none => []
  | some entry => entry.destinations

/-! ## What is recorded -/

/-- The destinations of a key after one is recorded: it is recorded once. -/
def recordedWith (destinations : List Bytes) (destination : Bytes) : List Bytes :=
  if destination ∈ destinations then destinations else destinations ++ [destination]

variable (t : SyncTable) (key k : Bytes)

variable {t} in
/-- The destinations of a key after an entry was put into the table. -/
theorem destinations_of_insert {t' : SyncTable} {entry : Entry}
    (h : t'.table = t.table.insert key entry) :
    t'.destinations k = if k = key then entry.destinations else t.destinations k := by
  unfold destinations
  rw [h]
  split_ifs with hk
  · subst hk
    rw [AList.lookup_insert]
  · rw [AList.lookup_insert_ne hk]

/-- `touch` changes no destinations. -/
theorem destinations_touch : (t.touch key).destinations k = t.destinations k := by
  unfold touch
  cases hlookup : t.table.lookup key with
  | none => rfl
  | some entry =>
    rw [destinations_of_insert key k rfl]
    split_ifs with hk
    · rw [hk, destinations, hlookup]
    · rfl

variable {t k} {d : Bytes}

/-- An eviction adds no destinations. -/
theorem mem_destinations_of_evictLast {last : ℕ × Bytes} {rest : List (ℕ × Bytes)}
    (h : d ∈ (t.evictLast last rest).destinations k) : d ∈ t.destinations k := by
  unfold evictLast at h
  cases hlookup : t.table.lookup last.2 with
  | none =>
    simp only [hlookup] at h
    exact h
  | some entry =>
    simp only [hlookup] at h
    unfold destinations at h ⊢
    by_cases hk : k = last.2
    · rw [hk, AList.lookup_erase] at h
      exact absurd h List.not_mem_nil
    · rwa [AList.lookup_erase_ne hk] at h

/-- So it is with any number of evictions. -/
theorem mem_destinations_of_evictIfNeeded (rounds : ℕ)
    (h : d ∈ (t.evictIfNeeded rounds).1.destinations k) : d ∈ t.destinations k := by
  induction rounds generalizing t with
  | zero => exact h
  | succ rounds ih =>
    unfold evictIfNeeded at h
    split_ifs at h with hsize
    · cases hlast : t.lru.getLast? with
      | none =>
        simp only [hlast] at h
        exact h
      | some last =>
        simp only [hlast] at h
        exact mem_destinations_of_evictLast (ih h)
    · exact h

/-- What is entered is the destination, for the key. -/
theorem mem_destinations_of_enter {destination : Bytes}
    (h : d ∈ (t.enter key destination).1.destinations k) :
    d ∈ t.destinations k ∨ k = key ∧ d = destination := by
  unfold enter at h
  cases hlookup : t.table.lookup key with
  | none =>
    simp only [hlookup] at h
    rw [destinations_of_insert key k rfl] at h
    split_ifs at h with hk
    · exact Or.inr ⟨hk, List.mem_singleton.mp h⟩
    · exact Or.inl h
  | some entry =>
    simp only [hlookup] at h
    split_ifs at h with hmem
    · rw [destinations_touch] at h
      exact Or.inl h
    · rw [destinations_touch, destinations_of_insert key k rfl] at h
      split_ifs at h with hk
      · rcases List.mem_append.mp h with h | h
        · rw [hk, destinations, hlookup]
          exact Or.inl h
        · exact Or.inr ⟨hk, List.mem_singleton.mp h⟩
      · exact Or.inl h

/-- `record_destination` adds the destination to the key, and nothing else. -/
theorem mem_destinations_of_recordDestination {destination : Bytes}
    (h : d ∈ (t.recordDestination key destination).1.destinations k) :
    d ∈ t.destinations k ∨ k = key ∧ d = destination := by
  -- The counts of the calls and of the evictions hold no destinations.
  let counted : SyncTable := { t with updates := t.updates + 1 }
  have hentered : d ∈ (counted.enter key destination).1.destinations k :=
    mem_destinations_of_evictIfNeeded (counted.enter key destination).1.lru.length h
  exact mem_destinations_of_enter (t := counted) key hentered

end SyncTable

end Netos
