import Mathlib.Algebra.BigOperators.Group.List.Basic
import Netos.Lib.Recency
import Netos.Tables.SyncTable

/-!
# The sync table as a bounded LRU

The runs of `record_destination` on one table. `Linked` is what the table and its list keep
together: they hold the same keys, each once, an entry knows the node of its key, and the total is
the number of destinations. An eviction takes the last key of the list, and one call evicts one key
at most. So the keys are the first ones of the list of all keys by recency, cut to the capacity.
-/

namespace Netos.SyncTable

open CString Cxx Recency

/-- The keys of the list, the most recently recorded first. -/
def lruKeys (t : SyncTable) : List Bytes := t.lru.map Prod.snd

/-- The number of destinations over all entries of a map. -/
def totalOf (m : UnorderedMap Bytes Entry) : ℕ :=
  (m.entries.map fun e => e.2.destinations.length).sum

/-- The table and the list agree. -/
structure Linked (t : SyncTable) : Prop where
  /-- Every node is another one. -/
  nodes : (t.lru.map Prod.fst).Nodup
  /-- The next node is a new one. -/
  fresh : ∀ node ∈ t.lru, node.1 < t.next_node
  /-- The keys of the list are different. -/
  keys : t.lruKeys.Nodup
  /-- A key is in the list, in some node, exactly if it has an entry that knows the node. -/
  held : ∀ n k, (n, k) ∈ t.lru ↔ ∃ entry, t.table.lookup k = some entry ∧ entry.lru_it = n
  /-- The total counts the destinations. -/
  total : t.destination_total = totalOf t.table

/-! ## The total -/

/-- Without the entry of a key, its destinations are missing. -/
theorem totalOf_erase {m : UnorderedMap Bytes Entry} {k : Bytes} {entry : Entry}
    (h : m.lookup k = some entry) :
    totalOf m = entry.destinations.length + totalOf (m.erase k) := by
  have hentry : ⟨k, entry⟩ ∈ m.entries := lookup_eq_some_iff.mp h
  obtain ⟨b, before, behind, hnotin, hentries, herased⟩ :=
    List.exists_of_kerase (List.mem_keys_of_mem hentry)
  have hb : b = entry := by
    have hmem : (⟨k, b⟩ : Σ _ : Bytes, Entry) ∈ m.entries := by
      rw [hentries]
      exact List.mem_append_right _ List.mem_cons_self
    exact Option.some.inj ((lookup_eq_some_iff.mpr hmem).symm.trans h)
  have herase : (m.erase k).entries = before ++ behind := herased
  unfold totalOf
  rw [herase, hentries, hb]
  simp only [List.map_append, List.map_cons, List.sum_append, List.sum_cons]
  omega

/-- With a new entry for a key that has none, its destinations are added. -/
theorem totalOf_insert_new {m : UnorderedMap Bytes Entry} {k : Bytes} (entry : Entry)
    (h : m.lookup k = none) :
    totalOf (m.insert k entry) = entry.destinations.length + totalOf m := by
  unfold totalOf
  rw [AList.entries_insert_of_notMem (AList.lookup_eq_none.mp h), List.map_cons, List.sum_cons]

/-- With another entry for a key, the difference counts. -/
theorem totalOf_insert {m : UnorderedMap Bytes Entry} {k : Bytes} {old : Entry} (entry : Entry)
    (h : m.lookup k = some old) :
    totalOf (m.insert k entry) + old.destinations.length =
      entry.destinations.length + totalOf m := by
  have hinsert : totalOf (m.insert k entry) =
      entry.destinations.length + totalOf (m.erase k) := by
    unfold totalOf
    rw [AList.entries_insert, List.map_cons, List.sum_cons]
    rfl
  have herase := totalOf_erase h
  omega

/-! ## The table and the list -/

variable {t : SyncTable}

/-- A key has an entry exactly if it is in the list. -/
theorem Linked.mem_lruKeys (h : Linked t) {k : Bytes} :
    k ∈ t.lruKeys ↔ ∃ entry, t.table.lookup k = some entry := by
  rw [lruKeys, List.mem_map]
  constructor
  · rintro ⟨⟨n, k⟩, hnode, rfl⟩
    obtain ⟨entry, hentry, -⟩ := (h.held n k).mp hnode
    exact ⟨entry, hentry⟩
  · rintro ⟨entry, hentry⟩
    exact ⟨(entry.lru_it, k), (h.held _ _).mpr ⟨entry, hentry, rfl⟩, rfl⟩

/-- There are as many entries as nodes. -/
theorem Linked.size_eq (h : Linked t) : size t.table = t.lru.length := by
  have hkeys : (t.table.entries.map Sigma.fst).Perm t.lruKeys := by
    refine (List.perm_ext_iff_of_nodup t.table.nodupKeys h.keys).mpr fun k => ?_
    rw [h.mem_lruKeys]
    refine List.mem_keys.trans (exists_congr fun entry => ?_)
    exact lookup_eq_some_iff.symm
  have hlength := hkeys.length_eq
  rw [List.length_map, lruKeys, List.length_map] at hlength
  exact hlength

/-- The node of an entry is that of its key. -/
theorem Linked.node_iff (h : Linked t) {k : Bytes} {entry : Entry}
    (hentry : t.table.lookup k = some entry) {node : ℕ × Bytes} (hnode : node ∈ t.lru) :
    node.1 = entry.lru_it ↔ node.2 = k := by
  have hheld : (entry.lru_it, k) ∈ t.lru := (h.held _ _).mpr ⟨entry, hentry, rfl⟩
  constructor
  · intro heq
    have hsame : node = (entry.lru_it, k) := List.inj_on_of_nodup_map h.nodes hnode hheld heq
    rw [hsame]
  · intro heq
    have hsame : node = (entry.lru_it, k) := List.inj_on_of_nodup_map h.keys hnode hheld heq
    rw [hsame]

/-- The list without the node of a key. -/
theorem Linked.filter_node (h : Linked t) {k : Bytes} {entry : Entry}
    (hentry : t.table.lookup k = some entry) :
    (t.lru.filter fun node => node.1 ≠ entry.lru_it) = t.lru.filter fun node => node.2 ≠ k :=
  List.filter_congr fun node hnode => by simp only [ne_eq, h.node_iff hentry hnode]

/-- An entry gets other destinations. -/
theorem Linked.withDestinations (h : Linked t) {k : Bytes} {entry : Entry}
    (hentry : t.table.lookup k = some entry) {destinations : List Bytes} {total : ℕ}
    (htotal : total + entry.destinations.length = destinations.length + t.destination_total) :
    Linked { t with
      table := t.table.insert k { entry with destinations }, destination_total := total } := by
  refine ⟨h.nodes, h.fresh, h.keys, fun n k' => ?_, ?_⟩
  · dsimp only
    rw [h.held]
    by_cases hk : k' = k
    · subst hk
      rw [AList.lookup_insert, hentry]
      simp only [Option.some.injEq, exists_eq_left']
    · rw [AList.lookup_insert_ne hk]
  · have hinsert := totalOf_insert { entry with destinations } hentry
    have htable := h.total
    dsimp only at hinsert ⊢
    omega

/-- A key gets an entry in a new node at the front of the list. -/
def push (t : SyncTable) (key : Bytes) (destinations : List Bytes) (total : ℕ) : SyncTable :=
  { t with
    lru := (t.next_node, key) :: t.lru.filter fun node => node.2 ≠ key
    next_node := t.next_node + 1
    table := t.table.insert key ⟨destinations, t.next_node⟩
    destination_total := total }

/-- The key is the most recent one. -/
theorem lruKeys_push (t : SyncTable) (key : Bytes) (destinations : List Bytes) (total : ℕ) :
    (t.push key destinations total).lruKeys = Recency.touch key t.lruKeys := by
  unfold push lruKeys Recency.touch
  rw [List.map_cons, List.filter_map]
  rfl

/-- The table and the list still agree. -/
theorem Linked.push (h : Linked t) (key : Bytes) {destinations : List Bytes} {total : ℕ}
    (htotal : total = totalOf (t.table.insert key ⟨destinations, t.next_node⟩)) :
    Linked (t.push key destinations total) := by
  have hbefore : ∀ node ∈ t.lru.filter fun node => node.2 ≠ key, node.1 < t.next_node :=
    fun node hnode => h.fresh node (List.mem_filter.mp hnode).1
  refine ⟨?_, fun node hnode => ?_, ?_, fun n k => ?_, htotal⟩
  · unfold SyncTable.push
    rw [List.map_cons, List.nodup_cons]
    refine ⟨fun hmem => ?_, h.nodes.sublist (List.filter_sublist.map _)⟩
    obtain ⟨node, hnode, heq⟩ := List.mem_map.mp hmem
    exact absurd (hbefore node hnode) (by rw [heq]; exact lt_irrefl _)
  · rcases List.mem_cons.mp hnode with rfl | hnode
    · exact Nat.lt_succ_self _
    · exact Nat.lt_succ_of_lt (hbefore node hnode)
  · rw [lruKeys_push]
    exact nodup_touch h.keys key
  · unfold SyncTable.push
    dsimp only
    by_cases hk : k = key
    · -- The key has the new node only.
      subst hk
      rw [AList.lookup_insert, List.mem_cons, List.mem_filter, Prod.mk.injEq]
      simp only [ne_eq, not_true_eq_false, decide_false, Bool.false_eq_true, and_false, or_false,
        and_true, Option.some.injEq, exists_eq_left']
      exact eq_comm
    · rw [AList.lookup_insert_ne hk, ← h.held, List.mem_cons, List.mem_filter]
      simp only [Prod.mk.injEq, hk, and_false, ne_eq, not_false_eq_true, decide_true, and_true,
        false_or]

/-- What `touch` does when the table and the list agree. -/
theorem Linked.touch_eq (h : Linked t) {key : Bytes} {entry : Entry}
    (hentry : t.table.lookup key = some entry) :
    t.touch key = t.push key entry.destinations t.destination_total := by
  unfold SyncTable.touch SyncTable.push
  rw [hentry]
  dsimp only
  rw [h.filter_node hentry]

/-- Entering a destination gives its key an entry in a new node at the front, whatever it had. -/
theorem Linked.enter_eq (h : Linked t) (key destination : Bytes) :
    (t.enter key destination).1 =
      { t.push key (recordedWith (t.destinations key) destination)
          (t.destination_total + if destination ∈ t.destinations key then 0 else 1) with
        duplicate_destinations := t.duplicate_destinations +
          if destination ∈ t.destinations key then 1 else 0 } := by
  unfold enter destinations recordedWith
  cases hlookup : t.table.lookup key with
  | none =>
    have hnotin : ∀ node ∈ t.lru, node.2 ≠ key := fun node hnode heq => by
      obtain ⟨entry, hentry, -⟩ := (h.held node.1 node.2).mp hnode
      rw [heq, hlookup] at hentry
      exact Option.some_ne_none entry hentry.symm
    have hfilter : (t.lru.filter fun node => node.2 ≠ key) = t.lru :=
      List.filter_eq_self.mpr fun node hnode => decide_eq_true (hnotin node hnode)
    unfold SyncTable.push
    rw [hfilter]
    simp only [List.not_mem_nil, if_false, List.nil_append, UInt64.add_zero]
  | some entry =>
    dsimp only
    split_ifs with hmem
    · -- The count of duplicates is not in the list or the table.
      have hdup : Linked { t with
          duplicate_destinations := t.duplicate_destinations + 1 } :=
        ⟨h.nodes, h.fresh, h.keys, h.held, h.total⟩
      rw [hdup.touch_eq hlookup, Nat.add_zero]
      rfl
    · have hadded : Linked { t with
          table := t.table.insert key
            { entry with destinations := entry.destinations ++ [destination] }
          destination_total := t.destination_total + 1 } := by
        refine h.withDestinations hlookup ?_
        rw [List.length_append, List.length_singleton]
        omega
      rw [hadded.touch_eq (AList.lookup_insert _), UInt64.add_zero]
      unfold SyncTable.push
      dsimp only
      rw [AList.insert_insert]

/-- The table and the list agree after a destination was entered. -/
theorem Linked.enter (h : Linked t) (key destination : Bytes) :
    Linked (t.enter key destination).1 ∧
      (t.enter key destination).1.lruKeys = Recency.touch key t.lruKeys := by
  have htotal : (t.destination_total + if destination ∈ t.destinations key then 0 else 1) =
      totalOf (t.table.insert key
        ⟨recordedWith (t.destinations key) destination, t.next_node⟩) := by
    rw [h.total]
    unfold destinations recordedWith
    cases hlookup : t.table.lookup key with
    | none =>
      rw [totalOf_insert_new _ hlookup]
      simp only [List.not_mem_nil, if_false, List.nil_append, List.length_singleton]
      exact Nat.add_comm _ _
    | some entry =>
      dsimp only
      have hinsert := totalOf_insert ⟨if destination ∈ entry.destinations then entry.destinations
        else entry.destinations ++ [destination], t.next_node⟩ hlookup
      split_ifs at hinsert ⊢ with hmem
      · dsimp only at hinsert
        omega
      · dsimp only at hinsert
        rw [List.length_append, List.length_singleton] at hinsert
        omega
  obtain ⟨hnodes, hfresh, hkeys, hheld, htable⟩ := h.push key htotal
  have hpushed := lruKeys_push t key (recordedWith (t.destinations key) destination)
    (t.destination_total + if destination ∈ t.destinations key then 0 else 1)
  rw [h.enter_eq]
  exact ⟨⟨hnodes, hfresh, hkeys, hheld, htable⟩, hpushed⟩

/-- The destinations after one was entered. -/
theorem Linked.destinations_enter (h : Linked t) (key destination k : Bytes) :
    (t.enter key destination).1.destinations k =
      if k = key then recordedWith (t.destinations key) destination else t.destinations k := by
  have htable : (t.enter key destination).1.table = t.table.insert key
      ⟨recordedWith (t.destinations key) destination, t.next_node⟩ := by
    rw [h.enter_eq]
    rfl
  exact destinations_of_insert key k htable

/-- What the call reports. -/
theorem enter_update (t : SyncTable) (key destination : Bytes) :
    let update := (t.enter key destination).2
    update.key_added = (t.table.lookup key).isNone ∧
      update.destination_added = decide (destination ∉ t.destinations key) ∧
      update.destination_duplicate = decide (destination ∈ t.destinations key) := by
  unfold enter destinations
  cases hlookup : t.table.lookup key with
  | none => exact ⟨rfl, by simp, by simp⟩
  | some entry =>
    dsimp only
    split_ifs with hmem
    · exact ⟨rfl, by simp [hmem], by simp [hmem]⟩
    · exact ⟨rfl, by simp [hmem], by simp [hmem]⟩

/-! ## Eviction -/

/-- The last key of the list goes, and its destinations are taken off the total, which is not
less. -/
theorem Linked.evictLast (h : Linked t) {last : ℕ × Bytes} (hlast : t.lru.getLast? = some last) :
    ∃ entry, t.table.lookup last.2 = some entry ∧
      entry.destinations.length ≤ t.destination_total ∧
      t.evictLast last t.lru.dropLast = { t with
        lru := t.lru.dropLast, table := t.table.erase last.2
        destination_total := t.destination_total - entry.destinations.length } ∧
      Linked (t.evictLast last t.lru.dropLast) := by
  have hlru : t.lru = t.lru.dropLast ++ [last] :=
    (List.dropLast_append_getLast? last hlast).symm
  have hmem : last ∈ t.lru := List.mem_of_getLast? hlast
  obtain ⟨entry, hentry, hnode⟩ := (h.held last.1 last.2).mp hmem
  have herase := totalOf_erase hentry
  have hle : entry.destinations.length ≤ t.destination_total := by
    rw [h.total, herase]
    exact Nat.le_add_right _ _
  have hevict : t.evictLast last t.lru.dropLast = { t with
      lru := t.lru.dropLast, table := t.table.erase last.2
      destination_total := t.destination_total - entry.destinations.length } := by
    unfold SyncTable.evictLast
    dsimp only
    rw [hentry]
    dsimp only
    rw [if_pos hle]
  have hsublist : t.lru.dropLast.Sublist t.lru := List.dropLast_sublist _
  refine ⟨entry, hentry, hle, hevict, ?_⟩
  rw [hevict]
  refine ⟨h.nodes.sublist (hsublist.map _), fun node hnode => h.fresh node (hsublist.subset hnode),
    h.keys.sublist (hsublist.map _), fun n k => ?_, ?_⟩
  · dsimp only
    have hkeys := h.keys
    rw [lruKeys, hlru, List.map_append, List.nodup_append'] at hkeys
    by_cases hk : k = last.2
    · -- The key is in no other node.
      subst hk
      rw [AList.lookup_erase]
      refine iff_of_false (fun hin => ?_) fun ⟨_, hnone, _⟩ => Option.some_ne_none _ hnone.symm
      exact hkeys.2.2 (List.mem_map_of_mem hin) (by simp)
    · rw [AList.lookup_erase_ne hk, ← h.held]
      refine ⟨fun hin => hsublist.subset hin, fun hin => ?_⟩
      rw [hlru, List.mem_append, List.mem_singleton] at hin
      refine hin.resolve_right fun heq => hk ?_
      rw [← heq]
  · dsimp only
    rw [h.total, herase, Nat.add_sub_cancel_left]

/-- In no round of `evict_if_needed` is the total less than what is taken off it. -/
def TotalSuffices (t : SyncTable) : (rounds : ℕ) → Prop
  | 0 => True
  | rounds + 1 =>
    size t.table > t.capacity → ∀ last, t.lru.getLast? = some last →
      (∀ entry, t.table.lookup last.2 = some entry →
        entry.destinations.length ≤ t.destination_total) ∧
      TotalSuffices (t.evictLast last t.lru.dropLast) rounds

/-- The guard of the total is never needed. -/
theorem Linked.totalSuffices (h : Linked t) (rounds : ℕ) : TotalSuffices t rounds := by
  induction rounds generalizing t with
  | zero => trivial
  | succ rounds ih =>
    intro _ last hlast
    obtain ⟨entry, hentry, hle, -, hlinked⟩ := h.evictLast hlast
    refine ⟨fun entry' hentry' => ?_, ih hlinked⟩
    rwa [← Option.some.inj (hentry.symm.trans hentry')]

/-- Without an excess, nothing is evicted. -/
theorem evictIfNeeded_of_le (t : SyncTable) (h : size t.table ≤ t.capacity) (rounds : ℕ) :
    t.evictIfNeeded rounds = (t, 0) := by
  cases rounds with
  | zero => rfl
  | succ rounds => rw [evictIfNeeded, if_neg (not_lt.mpr h)]

/-- With one key too many, the last one is evicted. -/
theorem Linked.evictIfNeeded_of_succ (h : Linked t) (hsize : size t.table = t.capacity + 1) :
    ∃ last, t.lru.getLast? = some last ∧
      t.evictIfNeeded t.lru.length = (t.evictLast last t.lru.dropLast, 1) := by
  have hlength : t.lru.length = t.capacity + 1 := by rw [← h.size_eq, hsize]
  obtain ⟨last, hlast⟩ : ∃ last, t.lru.getLast? = some last := by
    cases hempty : t.lru.getLast? with
    | none =>
      rw [List.getLast?_eq_none_iff.mp hempty, List.length_nil] at hlength
      omega
    | some last => exact ⟨last, rfl⟩
  obtain ⟨entry, -, -, hevict, hlinked⟩ := h.evictLast hlast
  have hcapacity : (t.evictLast last t.lru.dropLast).capacity = t.capacity := by rw [hevict]
  have hlru : (t.evictLast last t.lru.dropLast).lru = t.lru.dropLast := by rw [hevict]
  have hrest : size (t.evictLast last t.lru.dropLast).table ≤
      (t.evictLast last t.lru.dropLast).capacity := by
    rw [hlinked.size_eq, hlru, List.length_dropLast, hlength, hcapacity]
    exact le_rfl
  refine ⟨last, hlast, ?_⟩
  rw [hlength, SyncTable.evictIfNeeded, if_pos (by omega), hlast]
  dsimp only
  rw [evictIfNeeded_of_le _ hrest]

/-- What an eviction leaves of a table, and how many keys go. -/
structure Evicted (t t' : SyncTable) (evicted : ℕ) : Prop where
  /-- The table and the list agree. -/
  linked : Linked t'
  /-- The capacity stays. -/
  capacity : t'.capacity = t.capacity
  /-- The first keys are left, as many as the capacity. -/
  keys : t'.lruKeys = t.lruKeys.take t.capacity
  /-- They keep their destinations. -/
  destinations : ∀ k ∈ t'.lruKeys, t'.destinations k = t.destinations k
  /-- The others are counted. -/
  size : size t'.table + evicted = size t.table
  /-- The counters of the table stay. -/
  counters : t'.updates = t.updates ∧ t'.evicted_total = t.evicted_total

/-- `evict_if_needed` on a table with one key too many, at most. -/
theorem Linked.evictIfNeeded (h : Linked t) (hsize : size t.table ≤ t.capacity + 1) :
    Evicted t (t.evictIfNeeded t.lru.length).1 (t.evictIfNeeded t.lru.length).2 := by
  have hlength : t.lruKeys.length = Cxx.size t.table := by
    rw [lruKeys, List.length_map, h.size_eq]
  by_cases hle : Cxx.size t.table ≤ t.capacity
  · rw [evictIfNeeded_of_le t hle]
    refine ⟨h, rfl, ?_, fun k _ => rfl, rfl, rfl, rfl⟩
    rw [List.take_of_length_le (by omega)]
  · have hsucc : Cxx.size t.table = t.capacity + 1 := by omega
    obtain ⟨last, hlast, hrun⟩ := h.evictIfNeeded_of_succ hsucc
    obtain ⟨entry, -, -, hevict, hlinked⟩ := h.evictLast hlast
    have hlru : t.lru = t.lru.dropLast ++ [last] :=
      (List.dropLast_append_getLast? last hlast).symm
    have hkeys : (t.evictLast last t.lru.dropLast).lruKeys = t.lruKeys.take t.capacity := by
      have hdrop : (t.evictLast last t.lru.dropLast).lruKeys = t.lruKeys.dropLast := by
        rw [hevict, lruKeys, lruKeys, List.map_dropLast]
      rw [hdrop, List.dropLast_eq_take, hlength, hsucc, Nat.add_sub_cancel]
    rw [hrun]
    refine ⟨hlinked, by rw [hevict], hkeys, fun k hk => ?_, ?_, by rw [hevict], by rw [hevict]⟩
    · -- A key that is left is not the last one.
      have hne : k ≠ last.2 := by
        rintro rfl
        have hnodup := h.keys
        rw [hevict, lruKeys] at hk
        rw [lruKeys, hlru, List.map_append, List.nodup_append'] at hnodup
        exact hnodup.2.2 hk (by simp)
      unfold SyncTable.destinations
      rw [hevict]
      dsimp only
      rw [AList.lookup_erase_ne hne]
    · have hlinked_size := hlinked.size_eq
      rw [hevict] at hlinked_size
      rw [hevict]
      dsimp only at hlinked_size ⊢
      rw [hlinked_size, List.length_dropLast, ← h.size_eq, hsucc, Nat.add_sub_cancel]

/-- What a call leaves. It has entered the destination and evicted the keys beyond the capacity. -/
structure Left (t : SyncTable) (key destination : Bytes) (t' : SyncTable) (update : Update) : Prop
    where
  /-- The table and the list agree. -/
  linked : Linked t'
  /-- The capacity stays. -/
  capacity : t'.capacity = t.capacity
  /-- The keys are cut to the capacity. -/
  keys : t'.lruKeys = (Recency.touch key t.lruKeys).take t.capacity
  /-- The keys that are left have their destinations. -/
  destinations : ∀ k ∈ t'.lruKeys, t'.destinations k =
    if k = key then recordedWith (t.destinations key) destination else t.destinations k
  /-- The keys that were there and the one that was added are there or evicted. -/
  size : size t'.table + update.evicted = size t.table + if update.key_added then 1 else 0
  /-- The call is counted. -/
  updates : t'.updates = t.updates + 1
  /-- So are the keys evicted. -/
  evicted_total : t'.evicted_total = t.evicted_total + UInt64.ofNat update.evicted
  /-- A key is reported as added when it was not in the list. -/
  key_added : update.key_added = decide (key ∉ t.lruKeys)
  /-- The destination is reported as added, or as a duplicate. -/
  reported : update.destination_added = !update.destination_duplicate

/-- The first part of a call: it is counted, and its destination entered. -/
def entered (t : SyncTable) (key destination : Bytes) : SyncTable × Update :=
  SyncTable.enter { t with updates := t.updates + 1 } key destination

/-- The second part: what is too much is evicted and counted. -/
theorem recordDestination_eq (t : SyncTable) (key destination : Bytes) :
    let e := t.entered key destination
    let r := e.1.evictIfNeeded e.1.lru.length
    t.recordDestination key destination =
      ({ r.1 with evicted_total := r.1.evicted_total + UInt64.ofNat r.2 },
        { e.2 with key_count := size r.1.table, evicted := r.2 }) := rfl

/-- The counter of the calls is no part of the agreement. -/
theorem Linked.counted (h : Linked t) : Linked { t with updates := t.updates + 1 } :=
  ⟨h.nodes, h.fresh, h.keys, h.held, h.total⟩

/-- The first part keeps the table and the list in agreement. -/
theorem Linked.entered (h : Linked t) (key destination : Bytes) :
    Linked (t.entered key destination).1 ∧
      (t.entered key destination).1.lruKeys = Recency.touch key t.lruKeys ∧
      ∀ k, (t.entered key destination).1.destinations k =
        if k = key then recordedWith (t.destinations key) destination else t.destinations k := by
  obtain ⟨hlinked, hkeys⟩ := h.counted.enter key destination
  exact ⟨hlinked, hkeys, h.counted.destinations_enter key destination⟩

/-- The first part changes the counter of the calls, and not the capacity. -/
theorem Linked.entered_counters (h : Linked t) (key destination : Bytes) :
    (t.entered key destination).1.capacity = t.capacity ∧
      (t.entered key destination).1.updates = t.updates + 1 ∧
      (t.entered key destination).1.evicted_total = t.evicted_total := by
  have heq := h.counted.enter_eq key destination
  unfold SyncTable.entered
  rw [heq]
  exact ⟨rfl, rfl, rfl⟩

/-- What the first part reports. -/
theorem Linked.entered_update (h : Linked t) (key destination : Bytes) :
    (t.entered key destination).2.key_added = decide (key ∉ t.lruKeys) ∧
      (t.entered key destination).2.destination_added =
        !(t.entered key destination).2.destination_duplicate := by
  obtain ⟨hadded, hnew, hdup⟩ := enter_update { t with updates := t.updates + 1 } key destination
  unfold SyncTable.entered
  rw [hadded, hnew, hdup]
  refine ⟨?_, by simp⟩
  rw [Bool.eq_iff_iff, decide_eq_true_eq, h.mem_lruKeys, Option.isNone_iff_eq_none,
    Option.eq_none_iff_forall_ne_some, not_exists]

/-- The first part adds an entry if it adds a key. -/
theorem Linked.size_entered (h : Linked t) (key destination : Bytes) :
    size (t.entered key destination).1.table =
      size t.table + if (t.entered key destination).2.key_added then 1 else 0 := by
  obtain ⟨hlinked, hkeys, -⟩ := h.entered key destination
  have hlength : (t.entered key destination).1.lru.length =
      (Recency.touch key t.lruKeys).length := by
    rw [← hkeys, lruKeys, List.length_map]
  have hbefore : t.lru.length = t.lruKeys.length := (List.length_map _).symm
  rw [(h.entered_update key destination).1, hlinked.size_eq, h.size_eq, hlength, hbefore]
  by_cases hmem : key ∈ t.lruKeys
  · rw [length_touch_of_mem h.keys hmem, if_neg (by simpa using hmem), Nat.add_zero]
  · rw [touch_of_notMem hmem, if_pos (by simpa using hmem), List.length_cons]

/-- A call, when the keys are within the capacity. -/
theorem Linked.recordDestination (h : Linked t) (hsize : size t.table ≤ t.capacity)
    (key destination : Bytes) :
    Left t key destination (t.recordDestination key destination).1
      (t.recordDestination key destination).2 := by
  obtain ⟨hlinked, hkeys, hdestinations⟩ := h.entered key destination
  obtain ⟨hcapacity, hupdates, hevicted⟩ := h.entered_counters key destination
  obtain ⟨hadded, hreported⟩ := h.entered_update key destination
  have hgrows := h.size_entered key destination
  have hexcess : Cxx.size (t.entered key destination).1.table ≤
      (t.entered key destination).1.capacity + 1 := by
    rw [hgrows, hcapacity]
    split_ifs <;> omega
  have hleft := hlinked.evictIfNeeded hexcess
  rw [recordDestination_eq]
  refine ⟨⟨hleft.linked.nodes, hleft.linked.fresh, hleft.linked.keys, hleft.linked.held,
    hleft.linked.total⟩, hleft.capacity.trans hcapacity, ?_, fun k hk => ?_, ?_, ?_, ?_, hadded,
    hreported⟩
  · have hcut := hleft.keys
    rw [hkeys, hcapacity] at hcut
    exact hcut
  · have hkept := hleft.destinations k hk
    rw [hdestinations] at hkept
    exact hkept
  · exact hleft.size.trans hgrows
  · exact hleft.counters.1.trans hupdates
  · dsimp only
    rw [hleft.counters.2, hevicted]

/-! ## The run -/

/-- A call with its report. -/
structure Recorded where
  /-- The key. -/
  key : Bytes
  /-- The destination. -/
  destination : Bytes
  /-- What the call returned. -/
  update : Update

/-- One call more. -/
def record (s : SyncTable × List Recorded) (call : Bytes × Bytes) : SyncTable × List Recorded :=
  let (t, update) := s.1.recordDestination call.1 call.2
  (t, s.2 ++ [⟨call.1, call.2, update⟩])

/-- A table after calls with these keys and destinations, and the calls with their reports. -/
def recorded (capacity : ℕ) (calls : List (Bytes × Bytes)) : SyncTable × List Recorded :=
  calls.foldl record (construct capacity, [])

/-- The destinations of the calls for a key, from the last one on that reported the key as added. -/
def sinceAdded (log : List Recorded) (key : Bytes) : List Bytes :=
  log.foldl (fun destinations r =>
    if r.key = key then
      if r.update.key_added then [r.destination] else destinations ++ [r.destination]
    else destinations) []

/-- The table after a run of calls is what the reports say. -/
structure Exact (capacity : ℕ) (s : SyncTable × List Recorded) : Prop where
  /-- The table and the list agree. -/
  linked : Linked s.1
  /-- The capacity stays. -/
  capacity_eq : s.1.capacity = capacity
  /-- The keys are the most recent ones. -/
  keys : s.1.lruKeys = (recent (s.2.map Recorded.key)).take capacity
  /-- They have the destinations recorded since they were added. -/
  destinations : ∀ k ∈ s.1.lruKeys, s.1.destinations k = (sinceAdded s.2 k).eraseDups
  /-- The keys that were added are in the table or evicted. -/
  evicted : ∃ n, s.1.evicted_total = UInt64.ofNat n ∧
    n + size s.1.table = s.2.countP fun r => r.update.key_added
  /-- The calls are counted. -/
  updates : s.1.updates = UInt64.ofNat s.2.length
  /-- Every call reported the destination as added or as a duplicate. -/
  reported : ∀ r ∈ s.2, r.update.destination_added = !r.update.destination_duplicate

/-- The destinations since a key was added, one call later. -/
theorem sinceAdded_concat (log : List Recorded) (r : Recorded) (k : Bytes) :
    sinceAdded (log ++ [r]) k =
      if r.key = k then
        if r.update.key_added then [r.destination] else sinceAdded log k ++ [r.destination]
      else sinceAdded log k := by
  rw [sinceAdded, List.foldl_append, List.foldl_cons, List.foldl_nil, sinceAdded]

/-- The distinct destinations in the order of their first calls, one call later. -/
theorem eraseDups_concat (destinations : List Bytes) (destination : Bytes) :
    (destinations ++ [destination]).eraseDups =
      recordedWith destinations.eraseDups destination := by
  rw [List.eraseDups_append, recordedWith]
  by_cases hmem : destination ∈ destinations
  · rw [if_pos (List.mem_eraseDups.mpr hmem)]
    simp [List.removeAll, hmem]
  · rw [if_neg fun hdup => hmem (List.mem_eraseDups.mp hdup)]
    simp [List.removeAll, hmem, List.eraseDups_cons]

/-- A key that is not in the list has no destinations. -/
theorem Linked.destinations_eq_nil (h : Linked t) {k : Bytes} (hk : k ∉ t.lruKeys) :
    t.destinations k = [] := by
  have hnone : t.table.lookup k = none := by
    rw [Option.eq_none_iff_forall_ne_some]
    exact fun entry hentry => hk (h.mem_lruKeys.mpr ⟨entry, hentry⟩)
  rw [SyncTable.destinations, hnone]

/-- Every call keeps the table exact. -/
theorem Exact.record {capacity : ℕ} {s : SyncTable × List Recorded} (h : Exact capacity s)
    (call : Bytes × Bytes) : Exact capacity (record s call) := by
  obtain ⟨t, log⟩ := s
  obtain ⟨key, destination⟩ := call
  obtain ⟨hlinked, rfl, hkeys, hdestinations, ⟨n, hevicted, hcount⟩, hupdates, hreported⟩ := h
  dsimp only at hlinked hkeys hdestinations hevicted hcount hupdates hreported
  have hsize : size t.table ≤ t.capacity := by
    have hlength := congrArg List.length hkeys
    rw [lruKeys, List.length_map, List.length_take] at hlength
    rw [hlinked.size_eq, hlength]
    exact Nat.min_le_left _ _
  have hleft := hlinked.recordDestination hsize key destination
  rcases hrecord : t.recordDestination key destination with ⟨t', update⟩
  rw [hrecord] at hleft
  have hnext : SyncTable.record (t, log) (key, destination) =
      (t', log ++ [⟨key, destination, update⟩]) := by
    unfold SyncTable.record
    rw [hrecord]
  rw [hnext]
  refine ⟨hleft.linked, hleft.capacity, ?_, fun k hk => ?_, ⟨n + update.evicted, ?_, ?_⟩, ?_, ?_⟩
  · dsimp only
    rw [List.map_append, List.map_singleton, recent_concat, take_touch (nodup_recent _), ← hkeys]
    exact hleft.keys
  · have hkept := hleft.destinations k hk
    dsimp only at hkept ⊢
    rw [hkept, sinceAdded_concat]
    dsimp only
    by_cases hkey : k = key
    · subst hkey
      rw [if_pos rfl, if_pos rfl]
      by_cases hmem : k ∈ t.lruKeys
      · have hold : update.key_added = false := by simpa [hmem] using hleft.key_added
        rw [hold, if_neg Bool.false_ne_true, eraseDups_concat, hdestinations k hmem]
      · -- The key was added by this call.
        have hnew : update.key_added = true := by simpa [hmem] using hleft.key_added
        rw [hnew, if_pos rfl, hlinked.destinations_eq_nil hmem]
        rfl
    · rw [if_neg hkey, if_neg (Ne.symm hkey)]
      refine hdestinations k ?_
      have htouched : k ∈ Recency.touch key t.lruKeys :=
        List.mem_of_mem_take (hleft.keys ▸ hk)
      rcases List.mem_cons.mp htouched with heq | hfiltered
      · exact absurd heq hkey
      · exact (List.mem_filter.mp hfiltered).1
  · dsimp only
    rw [hleft.evicted_total, hevicted, UInt64.ofNat_add]
  · have hgrown := hleft.size
    have hone : ([⟨key, destination, update⟩] : List Recorded).countP (fun r =>
        r.update.key_added) = if update.key_added then 1 else 0 := List.countP_singleton
    dsimp only at hgrown ⊢
    rw [List.countP_append, hone, ← hcount]
    omega
  · dsimp only
    rw [hleft.updates, hupdates, List.length_append, List.length_singleton, UInt64.ofNat_add]
    rfl
  · intro r hr
    rcases List.mem_append.mp hr with hr | hr
    · exact hreported r hr
    · rw [List.mem_singleton.mp hr]
      exact hleft.reported

/-- A fresh table is exact. -/
theorem exact_construct (capacity : ℕ) : Exact capacity (construct capacity, []) := by
  refine ⟨⟨List.nodup_nil, fun node h => absurd h List.not_mem_nil, List.nodup_nil,
    fun n k => ?_, rfl⟩, rfl, ?_, fun k h => absurd h List.not_mem_nil, ⟨0, rfl, rfl⟩, rfl,
    fun r h => absurd h List.not_mem_nil⟩
  · refine iff_of_false List.not_mem_nil ?_
    rintro ⟨entry, hentry, -⟩
    exact Option.some_ne_none entry hentry.symm
  · exact List.take_nil.symm

/-- One call more. -/
theorem recorded_concat (capacity : ℕ) (calls : List (Bytes × Bytes)) (call : Bytes × Bytes) :
    recorded capacity (calls ++ [call]) = record (recorded capacity calls) call := by
  rw [recorded, List.foldl_append, List.foldl_cons, List.foldl_nil, recorded]

/-- The reports are of the calls. -/
theorem log_recorded (capacity : ℕ) (calls : List (Bytes × Bytes)) :
    (recorded capacity calls).2.map (fun r => (r.key, r.destination)) = calls := by
  induction calls using List.reverseRecOn with
  | nil => rfl
  | append_singleton calls call ih =>
    rw [recorded_concat]
    unfold record
    dsimp only
    rw [List.map_append, ih]
    rfl

/-- Any table made by calls is exact. -/
theorem exact_recorded (capacity : ℕ) (calls : List (Bytes × Bytes)) :
    Exact capacity (recorded capacity calls) := by
  induction calls using List.reverseRecOn with
  | nil => exact exact_construct capacity
  | append_singleton calls call ih =>
    rw [recorded_concat]
    exact ih.record call

/-- The sync table is an exact bounded LRU. For every capacity and every sequence of calls: the list
holds the most recently recorded distinct keys, each once, the most recent first and as many as the
capacity at most; the keys of the table are these; the destinations of such a key are those recorded
since the key was last added, each once in the order of their first calls, and other keys have none;
the total is the number of destinations in the table, and in no round of a further call's eviction
is it less than what is taken off it; the keys evicted and those in the table are together those
that calls reported as added, and the updates are the calls that reported a destination as added or
as a duplicate, as numbers of 64 bits, and so exactly below `2 ^ 64` calls. -/
theorem sync_table_exact (capacity : ℕ) (calls : List (Bytes × Bytes)) :
    let t := (recorded capacity calls).1
    let log := (recorded capacity calls).2
    log.map (fun r => (r.key, r.destination)) = calls ∧
      t.lruKeys = (recent (calls.map Prod.fst)).take capacity ∧ t.lruKeys.Nodup ∧
      (∀ k, (t.table.lookup k).isSome = true ↔ k ∈ t.lruKeys) ∧
      (∀ k, t.destinations k = if k ∈ t.lruKeys then (sinceAdded log k).eraseDups else []) ∧
      (t.destination_total = totalOf t.table ∧ ∀ key destination,
        TotalSuffices (t.entered key destination).1 (t.entered key destination).1.lru.length) ∧
      (t.evicted_total + UInt64.ofNat (size t.table) =
          UInt64.ofNat (log.countP fun r => r.update.key_added) ∧
        (calls.length < 2 ^ 64 → t.evicted_total.toNat + size t.table =
          log.countP fun r => r.update.key_added)) ∧
      t.updates = UInt64.ofNat ((log.countP fun r => r.update.destination_added) +
          log.countP fun r => r.update.destination_duplicate) ∧
        (calls.length < 2 ^ 64 → t.updates.toNat =
          (log.countP fun r => r.update.destination_added) +
            log.countP fun r => r.update.destination_duplicate) := by
  intro t log
  obtain ⟨hlinked, -, hkeys, hdestinations, ⟨n, hevicted, hcount⟩, hupdates, hreported⟩ :=
    exact_recorded capacity calls
  have hlog : log.map (fun r => (r.key, r.destination)) = calls := log_recorded capacity calls
  have hlength : log.length = calls.length := by rw [← hlog, List.length_map]
  have hlogkeys : log.map Recorded.key = calls.map Prod.fst := by
    rw [← hlog, List.map_map]
    rfl
  -- Every call reported one of the two.
  have hreports : (log.countP fun r => r.update.destination_added) +
      (log.countP fun r => r.update.destination_duplicate) = log.length := by
    rw [List.length_eq_countP_add_countP fun r : Recorded => r.update.destination_added]
    congr 1
    refine List.countP_congr fun r hr => ?_
    rw [hreported r hr]
    simp
  refine ⟨hlog, ?_, hlinked.keys, fun k => ?_, fun k => ?_, ⟨hlinked.total, fun key destination =>
    (hlinked.entered key destination).1.totalSuffices _⟩, ⟨?_, fun hfew => ?_⟩, ?_, fun hfew => ?_⟩
  · rw [← hlogkeys]
    exact hkeys
  · rw [hlinked.mem_lruKeys, Option.isSome_iff_exists]
  · split_ifs with hk
    · exact hdestinations k hk
    · exact hlinked.destinations_eq_nil hk
  · rw [← hcount, UInt64.ofNat_add, ← hevicted]
  · have hle : n ≤ log.length := by
      have hadded : n + size t.table ≤ log.length := hcount ▸ List.countP_le_length
      exact le_trans (Nat.le_add_right _ _) hadded
    have hn : n < 2 ^ 64 := lt_of_le_of_lt hle (hlength ▸ hfew)
    rw [← hcount, hevicted, UInt64.toNat_ofNat', Nat.mod_eq_of_lt hn]
  · rw [hreports]
    exact hupdates
  · rw [hreports, hupdates, UInt64.toNat_ofNat', Nat.mod_eq_of_lt (by rw [hlength]; exact hfew)]

end Netos.SyncTable
