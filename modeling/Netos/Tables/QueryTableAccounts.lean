import Mathlib.Data.List.Dedup
import Mathlib.Data.List.Perm.Subperm
import Netos.Tables.QueryTable

/-!
# The accounts of the query table

What the counters of a query table count, over the calls of `record_if_new` on one table. Beside the
table, `Account` keeps the entries that were accepted and those that prunings erased. `Balanced`
says that the accepted entries are those in the table and those erased, each as often as it was
accepted, and that the counters agree with the two lists.
-/

namespace Netos.QueryTable

open CString Cxx

/-- An id and the clock stored with it. -/
abbrev Entry := Σ _ : Bytes, ℤ

/-- A call of `record_if_new`, with its readings of the clock. -/
structure Call where
  /-- The id. -/
  request_id : Bytes
  /-- The clock when the call prunes. -/
  prune_now : ℤ
  /-- The clock that the call stores, read only if the id is new. -/
  record_now : ℤ

/-- The readings of a call, in order. -/
def Call.readings (c : Call) : List ℤ := [c.prune_now, c.record_now]

/-- The entries that a pruning erases. -/
def expiredEntries (t : QueryTable) (now : ℤ) : List Entry :=
  t.table.entries.filter fun e => t.expired now e.2

/-- A table and what happened to its entries. -/
structure Account where
  /-- The table of the code. -/
  table : QueryTable
  /-- The entries accepted so far. -/
  accepted : List Entry
  /-- The entries erased so far. -/
  erased : List Entry

/-- One call more. -/
def Account.call (s : Account) (c : Call) : Account where
  table := (s.table.recordIfNew c.request_id c.prune_now c.record_now).1
  accepted :=
    if (s.table.recordIfNew c.request_id c.prune_now c.record_now).2 then
      ⟨c.request_id, c.record_now⟩ :: s.accepted
    else s.accepted
  erased := s.table.expiredEntries c.prune_now ++ s.erased

/-- A new table after calls. -/
def account (ttl : ℤ) (calls : List Call) : Account :=
  calls.foldl Account.call ⟨construct ttl, [], []⟩

/-- The ids accepted at most `ttl` before a time, each once. -/
def acceptedWithin (ttl : ℤ) (accepted : List Entry) (now : ℤ) : List Bytes :=
  ((accepted.filter fun e => now - e.2 ≤ milliseconds ttl).map Sigma.fst).dedup

/-- The counters agree with what happened, in 64 bits. -/
structure Balanced (calls : ℕ) (s : Account) : Prop where
  /-- Every call is an attempt. -/
  attempts : s.table.attempts = UInt64.ofNat calls
  /-- A call is a duplicate or accepts an entry. -/
  duplicates : ∃ repeated, s.table.duplicates = UInt64.ofNat repeated ∧
    calls = repeated + s.accepted.length
  /-- The accepted entries are in the table or erased. -/
  entries : s.accepted.Perm (s.table.table.entries ++ s.erased)
  /-- The erased entries are counted. -/
  pruned : s.table.pruned = UInt64.ofNat s.erased.length

/-- One call more. -/
theorem account_concat (ttl : ℤ) (calls : List Call) (c : Call) :
    account ttl (calls ++ [c]) = (account ttl calls).call c := by
  rw [account, List.foldl_append, List.foldl_cons, List.foldl_nil, account]

/-- A pruning keeps the entries or erases them. -/
theorem entries_prune_perm (t : QueryTable) (now : ℤ) :
    t.table.entries.Perm ((t.prune now).1.entries ++ t.expiredEntries now) := by
  have hsplit := List.filter_append_perm (fun e : Entry => t.expired now e.2) t.table.entries
  exact hsplit.symm.trans List.perm_append_comm

/-- The counters after a call, and what the call stores. -/
theorem recordIfNew_counters (t : QueryTable) (id : Bytes) (p r : ℤ) :
    (t.recordIfNew id p r).1.attempts = t.attempts + 1 ∧
      (t.recordIfNew id p r).1.pruned = t.pruned + UInt64.ofNat (t.expiredEntries p).length ∧
      (t.recordIfNew id p r).1.duplicates =
        t.duplicates + if (t.recordIfNew id p r).2 then 0 else 1 := by
  cases h : (t.prune p).1.lookup id with
  | some recorded => simp [recordIfNew, h]; rfl
  | none => simp [recordIfNew, h]; rfl

/-- The entries after a call: those that the pruning kept, and the new one. -/
theorem entries_recordIfNew (t : QueryTable) (id : Bytes) (p r : ℤ) :
    (t.recordIfNew id p r).1.table.entries =
      if (t.recordIfNew id p r).2 then ⟨id, r⟩ :: (t.prune p).1.entries
      else (t.prune p).1.entries := by
  cases h : (t.prune p).1.lookup id with
  | some recorded =>
    obtain ⟨hres, htable⟩ := recordIfNew_of_some (r := r) h
    rw [hres, htable, if_neg Bool.false_ne_true]
  | none =>
    obtain ⟨hres, htable⟩ := recordIfNew_of_none (r := r) h
    rw [hres, htable, if_pos rfl, AList.entries_insert_of_notMem (AList.lookup_eq_none.mp h)]

/-- Every call keeps the accounts balanced. -/
theorem Balanced.call {calls : ℕ} {s : Account} (h : Balanced calls s) (c : Call) :
    Balanced (calls + 1) (s.call c) := by
  obtain ⟨hattempts, hpruned, hduplicates⟩ :=
    s.table.recordIfNew_counters c.request_id c.prune_now c.record_now
  have hentries := s.table.entries_recordIfNew c.request_id c.prune_now c.record_now
  -- The entries in the table are kept or erased now, the others were erased before.
  have hkept : s.accepted.Perm ((s.table.prune c.prune_now).1.entries ++
      (s.table.expiredEntries c.prune_now ++ s.erased)) := by
    rw [← List.append_assoc]
    exact h.entries.trans ((s.table.entries_prune_perm c.prune_now).append_right s.erased)
  obtain ⟨repeated, hrepeated, hcalls⟩ := h.duplicates
  refine ⟨hattempts.trans (by rw [h.attempts, UInt64.ofNat_add]; rfl), ?_, ?_, ?_⟩
  · dsimp only [Account.call]
    rw [hduplicates, hrepeated]
    split_ifs
    · exact ⟨repeated, UInt64.add_zero _, by rw [List.length_cons]; omega⟩
    · exact ⟨repeated + 1, (UInt64.ofNat_add _ _).symm, by omega⟩
  · dsimp only [Account.call]
    rw [hentries]
    split_ifs
    · exact hkept.cons _
    · exact hkept
  · dsimp only [Account.call]
    rw [hpruned, h.pruned, List.length_append, UInt64.ofNat_add, UInt64.add_comm]

/-- The accounts of a new table are balanced after any calls. -/
theorem balanced_account (ttl : ℤ) (calls : List Call) :
    Balanced calls.length (account ttl calls) := by
  induction calls using List.reverseRecOn with
  | nil => exact ⟨rfl, ⟨0, rfl, rfl⟩, List.Perm.nil, rfl⟩
  | append_singleton calls c ih =>
    rw [account_concat, List.length_append, List.length_singleton]
    exact ih.call c

/-- The time to live stays. -/
theorem ttl_account (ttl : ℤ) (calls : List Call) : (account ttl calls).table.ttl = ttl := by
  induction calls using List.reverseRecOn with
  | nil => rfl
  | append_singleton calls c ih =>
    rw [account_concat]
    exact (recordIfNew_ttl _ _ _ _).trans ih

/-- What a call leaves was recorded at most `ttl` before it pruned. -/
theorem age_of_entry {t : QueryTable} (httl : 0 ≤ t.ttl) {id : Bytes} {p r : ℤ} (hpr : p ≤ r)
    {e : Entry} (he : e ∈ (t.recordIfNew id p r).1.table.entries) :
    p - e.2 ≤ milliseconds t.ttl := by
  have hkept : e ∈ (t.prune p).1.entries → p - e.2 ≤ milliseconds t.ttl := fun hmem => by
    have hyoung := (List.mem_filter.mp hmem).2
    rw [Bool.not_eq_true', expired, decide_eq_false_iff_not, not_lt] at hyoung
    exact hyoung
  have hnew : p - r ≤ milliseconds t.ttl := by
    unfold milliseconds
    omega
  rw [entries_recordIfNew] at he
  split_ifs at he
  · rcases List.mem_cons.mp he with rfl | he
    · exact hnew
    · exact hkept he
  · exact hkept he

/-- A table whose entries were all accepted at most `ttl` before has no more entries than ids that
were. -/
theorem size_le_acceptedWithin {s : Account} {calls : ℕ} (h : Balanced calls s) {ttl now : ℤ}
    (hage : ∀ e ∈ s.table.table.entries, now - e.2 ≤ milliseconds ttl) :
    Cxx.size s.table.table ≤ (acceptedWithin ttl s.accepted now).length := by
  have hdistinct : (s.table.table.entries.map Sigma.fst).Nodup := s.table.table.nodupKeys
  have hsub : s.table.table.entries.map Sigma.fst ⊆ acceptedWithin ttl s.accepted now := by
    intro id hid
    obtain ⟨e, he, rfl⟩ := List.mem_map.mp hid
    have haccepted : e ∈ s.accepted := h.entries.mem_iff.mpr (List.mem_append_left _ he)
    refine List.mem_dedup.mpr (List.mem_map_of_mem (List.mem_filter.mpr ⟨haccepted, ?_⟩))
    exact decide_eq_true (hage e he)
  calc Cxx.size s.table.table = (s.table.table.entries.map Sigma.fst).length :=
        (List.length_map _).symm
    _ ≤ (acceptedWithin ttl s.accepted now).length := (hdistinct.subperm hsub).length_le

/-- The accounts of a query table, after any calls of `record_if_new` at nondecreasing clock
readings. Every call is an attempt; the attempts that were no duplicates are as many as the entries
in the table and those pruned, for an accepted entry is in the table or was erased once; and with a
ttl that is not negative, as `validate_config` wants it, what the last call left was recorded at
most `ttl` before it pruned, so that there are no more entries than ids accepted since then. The
counters have 64 bits; after fewer than `2 ^ 64` calls they are the numbers themselves. -/
theorem query_table_accounts (ttl : ℤ) (calls : List Call)
    (hclock : (calls.flatMap Call.readings).Pairwise (· ≤ ·)) :
    ((account ttl calls).table.stats.attempts = UInt64.ofNat calls.length ∧
      (account ttl calls).table.stats.attempts - (account ttl calls).table.stats.duplicates =
        UInt64.ofNat (account ttl calls).table.stats.size +
          (account ttl calls).table.stats.pruned ∧
      (calls.length < 2 ^ 64 →
        (account ttl calls).table.stats.attempts.toNat = calls.length ∧
        (account ttl calls).table.stats.duplicates ≤ (account ttl calls).table.stats.attempts ∧
        (account ttl calls).table.stats.attempts.toNat -
            (account ttl calls).table.stats.duplicates.toNat =
          (account ttl calls).table.stats.size +
            (account ttl calls).table.stats.pruned.toNat)) ∧
    ((account ttl calls).accepted.Perm
        ((account ttl calls).table.table.entries ++ (account ttl calls).erased) ∧
      (account ttl calls).table.stats.pruned = UInt64.ofNat (account ttl calls).erased.length ∧
      (calls.length < 2 ^ 64 →
        (account ttl calls).erased.length = (account ttl calls).table.stats.pruned.toNat)) ∧
    (0 ≤ ttl → ∀ before last, calls = before ++ [last] →
      (∀ e ∈ (account ttl calls).table.table.entries,
        last.prune_now - e.2 ≤ milliseconds ttl) ∧
      (account ttl calls).table.stats.size ≤
        (acceptedWithin ttl (account ttl calls).accepted last.prune_now).length) := by
  have hbalanced := balanced_account ttl calls
  obtain ⟨repeated, hduplicates, hcalls⟩ := hbalanced.duplicates
  have hlength := hbalanced.entries.length_eq
  rw [List.length_append] at hlength
  -- A number of at most as many things as there were calls is what its counter says.
  have hexact : ∀ {counter : UInt64} {n : ℕ}, counter = UInt64.ofNat n → n ≤ calls.length →
      calls.length < 2 ^ 64 → counter.toNat = n := fun hcounter hle hfew => by
    rw [hcounter, UInt64.toNat_ofNat', Nat.mod_eq_of_lt (by omega)]
  refine ⟨⟨hbalanced.attempts, ?_, fun hfew => ?_⟩, ⟨hbalanced.entries, hbalanced.pruned,
    fun hfew => (hexact hbalanced.pruned (by omega) hfew).symm⟩, ?_⟩
  · show (account ttl calls).table.attempts - (account ttl calls).table.duplicates =
      UInt64.ofNat (account ttl calls).table.table.entries.length +
        (account ttl calls).table.pruned
    rw [hbalanced.attempts, hduplicates, hbalanced.pruned, ← UInt64.ofNat_add, ← hlength, hcalls,
      UInt64.ofNat_add, UInt64.add_comm, UInt64.add_sub_cancel]
  · have hattempts := hexact hbalanced.attempts (Nat.le_refl _) hfew
    have hrepeated := hexact hduplicates (by omega) hfew
    have hpruned := hexact hbalanced.pruned (by omega) hfew
    refine ⟨hattempts, ?_, ?_⟩
    · show (account ttl calls).table.duplicates ≤ (account ttl calls).table.attempts
      rw [UInt64.le_iff_toNat_le]
      omega
    · show (account ttl calls).table.attempts.toNat - (account ttl calls).table.duplicates.toNat =
        (account ttl calls).table.table.entries.length + (account ttl calls).table.pruned.toNat
      omega
  · intro httl before last hlast
    have hage : ∀ e ∈ (account ttl calls).table.table.entries,
        last.prune_now - e.2 ≤ milliseconds ttl := by
      subst hlast
      -- The last call prunes before it reads the clock that it stores.
      have hreadings := (List.pairwise_append.mp (List.flatMap_append ▸ hclock)).2.1
      have hle : last.prune_now ≤ last.record_now := by simpa [Call.readings] using hreadings
      have hold := ttl_account ttl before
      intro e he
      rw [account_concat] at he
      exact hold ▸ age_of_entry (hold.symm ▸ httl) hle he
    exact ⟨hage, size_le_acceptedWithin hbalanced hage⟩

/-- A request id that is repeated while it is remembered, and accepted again after it was pruned. -/
def repeatedCalls : List Call :=
  [⟨ascii "A-1", 5, 6⟩, ⟨ascii "A-1", 7, 8⟩, ⟨ascii "A-1", 2000008, 2000009⟩]

/-- Three calls for one id: one is a duplicate, and one of the two accepted entries was pruned. -/
theorem query_table_accounts_repeated :
    (account 1 repeatedCalls).table.stats.attempts = 3 ∧
      (account 1 repeatedCalls).table.stats.attempts.toNat -
          (account 1 repeatedCalls).table.stats.duplicates.toNat =
        (account 1 repeatedCalls).table.stats.size +
          (account 1 repeatedCalls).table.stats.pruned.toNat ∧
      (account 1 repeatedCalls).table.stats.size ≤
        (acceptedWithin 1 (account 1 repeatedCalls).accepted 2000008).length := by
  have h := query_table_accounts 1 repeatedCalls (by decide)
  exact ⟨h.1.1, (h.1.2.2 (by decide)).2.2, (h.2.2 (by decide)
    [⟨ascii "A-1", 5, 6⟩, ⟨ascii "A-1", 7, 8⟩] ⟨ascii "A-1", 2000008, 2000009⟩ rfl).2⟩

end Netos.QueryTable
