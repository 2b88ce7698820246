import Mathlib.Data.List.Nodup
import Netos.Lib.Machine
import Netos.Tables.ContentBfFallback

/-!
# The fallback table as a map of deadlines

The runs of a `ContentBfFallbackTable` whose calls all bear one origin, as those of a node bear its
own id. Every call of `schedule` is numbered, and beside the table stands what became of it by the
results of the later calls: the last schedule of every key that was not cancelled or taken since
(`latest`), the numbers of the schedules that a later one of their key replaced, and those that a
`cancel` or a `take_due` consumed. `Holds` says that the table is the map `latest`, and `Numbered`
that every schedule is open, replaced or consumed, and only one of these, and once.
-/

namespace Netos.FallbackDeadlines

open CString Cxx ContentBfFallbackTable

/-- A call, with the reading of the clock. -/
inductive Call where
  /-- `schedule`. -/
  | schedule (now : ℤ) (key : Bytes)
  /-- `cancel`. -/
  | cancel (key : Bytes)
  /-- `take_due`, with the order in which it visits the entries. -/
  | takeDue (it : Iteration) (now : ℤ)

/-- A schedule: its number and its time. -/
structure Schedule where
  /-- How many schedules there were before. -/
  number : ℕ
  /-- The clock. -/
  time : ℤ
deriving DecidableEq

/-- The table, and what became of the schedules. -/
structure State where
  /-- The table of the code. -/
  table : ContentBfFallbackTable
  /-- The number of schedules. -/
  count : ℕ
  /-- The last schedule of a key, unless the key was cancelled or taken since. -/
  latest : Bytes → Option Schedule
  /-- The schedules that were replaced before they were cancelled or taken. -/
  replaced : List ℕ
  /-- The schedules that were cancelled or taken. -/
  consumed : List ℕ

/-- A fresh table. -/
def State.init (window : ℤ) : State := ⟨construct window, 0, fun _ => none, [], []⟩

/-- The number of the open schedule of a key. -/
def State.numberOf (s : State) (key : Bytes) : Option ℕ := (s.latest key).map Schedule.number

/-- A schedule of a key. -/
def State.record (s : State) (now : ℤ) (key : Bytes) : State :=
  { s with
    count := s.count + 1
    latest := Function.update s.latest key (some ⟨s.count, now⟩)
    replaced := s.replaced ++ (s.numberOf key).toList }

/-- Keys are cancelled or taken. -/
def State.consume (s : State) (keys : List Bytes) : State :=
  { s with
    latest := fun key => if keys.contains key then none else s.latest key
    consumed := s.consumed ++ keys.filterMap s.numberOf }

/-- One call: what it does to the table, and what becomes of the schedules. A call of `schedule` is
a schedule whatever it returns; a key is cancelled or taken if the result says so. -/
def step (origin : Bytes) (s : State) : Call → Option State
  | .schedule now key =>
    some { s.record now key with table := (s.table.schedule now key origin).1 }
  | .cancel key =>
    let (table, cancelled) := s.table.cancel key origin
    some { s.consume (if cancelled then [key] else []) with table }
  | .takeDue it now =>
    let (table, due) := s.table.takeDue it now
    some { s.consume (due.map Pending.key) with table }

/-! ## Every schedule is accounted for once -/

/-- Every schedule is open, replaced or consumed. -/
structure Numbered (s : State) : Prop where
  /-- The numbers are those of the schedules made. -/
  accounted : ∀ n, n < s.count ↔
    n ∈ s.consumed ∨ n ∈ s.replaced ∨ ∃ key, s.numberOf key = some n
  /-- No schedule was consumed or replaced twice, or both. -/
  once : (s.consumed ++ s.replaced).Nodup
  /-- An open schedule was not. -/
  fresh : ∀ key n, s.numberOf key = some n → n ∉ s.consumed ++ s.replaced
  /-- It is open for one key. -/
  key_unique : ∀ key key' n, s.numberOf key = some n → s.numberOf key' = some n → key = key'

/-- A table that agrees does not matter. -/
theorem Numbered.withTable {s : State} (h : Numbered s) (table : ContentBfFallbackTable) :
    Numbered { s with table } :=
  ⟨h.accounted, h.once, h.fresh, h.key_unique⟩

/-- The number of the key that was scheduled. -/
theorem numberOf_record (s : State) (now : ℤ) (key key' : Bytes) :
    (s.record now key).numberOf key' = if key' = key then some s.count else s.numberOf key' := by
  unfold State.numberOf State.record
  dsimp only
  rw [Function.update_apply]
  split_ifs
  · rfl
  · rfl

/-- A key is open after others were consumed if it was open and is not among them. -/
theorem latest_consume (s : State) (keys : List Bytes) (key : Bytes) :
    (s.consume keys).latest key = if key ∈ keys then none else s.latest key := by
  unfold State.consume
  simp only [List.contains_iff_mem]

/-- The number of a key after others were consumed. -/
theorem numberOf_consume (s : State) (keys : List Bytes) (key : Bytes) :
    (s.consume keys).numberOf key = if key ∈ keys then none else s.numberOf key := by
  unfold State.numberOf
  rw [latest_consume]
  split_ifs
  · rfl
  · rfl

/-- The open schedules were made. -/
theorem Numbered.lt_count {s : State} (h : Numbered s) {key : Bytes} {n : ℕ}
    (hn : s.numberOf key = some n) : n < s.count :=
  (h.accounted n).mpr (Or.inr (Or.inr ⟨key, hn⟩))

/-- The closed schedules were made. -/
theorem Numbered.lt_count_of_closed {s : State} (h : Numbered s) {n : ℕ}
    (hn : n ∈ s.consumed ++ s.replaced) : n < s.count :=
  (h.accounted n).mpr ((List.mem_append.mp hn).imp_right Or.inl)

/-- The next number is not open. -/
theorem Numbered.not_open_count {s : State} (h : Numbered s) {key : Bytes} {n : ℕ}
    (hn : s.numberOf key = some n) : some s.count ≠ some n := fun heq =>
  (h.lt_count hn).ne (Option.some.inj heq).symm

/-- A schedule gets a new number, and replaces the open one of its key. -/
theorem Numbered.record {s : State} (h : Numbered s) (now : ℤ) (key : Bytes) :
    Numbered (s.record now key) := by
  have hcount : (s.record now key).count = s.count + 1 := rfl
  have hconsumed : (s.record now key).consumed = s.consumed := rfl
  have hreplaced : (s.record now key).replaced = s.replaced ++ (s.numberOf key).toList := rfl
  refine ⟨fun n => ?_, ?_, fun k n hk hmem => ?_, fun k k' n hk hk' => ?_⟩
  · rw [hcount, hconsumed, hreplaced, List.mem_append, Option.mem_toList]
    simp only [numberOf_record]
    constructor
    · intro hn
      rcases (Nat.lt_succ_iff_lt_or_eq).mp hn with hn | rfl
      · rcases (h.accounted n).mp hn with hn | hn | ⟨k, hk⟩
        · exact Or.inl hn
        · exact Or.inr (Or.inl (Or.inl hn))
        · by_cases hkey : k = key
          · subst hkey
            exact Or.inr (Or.inl (Or.inr hk))
          · exact Or.inr (Or.inr ⟨k, by rwa [if_neg hkey]⟩)
      · exact Or.inr (Or.inr ⟨key, if_pos rfl⟩)
    · rintro (hn | (hn | hn) | ⟨k, hk⟩)
      · exact Nat.lt_succ_of_lt ((h.accounted n).mpr (Or.inl hn))
      · exact Nat.lt_succ_of_lt ((h.accounted n).mpr (Or.inr (Or.inl hn)))
      · exact Nat.lt_succ_of_lt (h.lt_count hn)
      · split_ifs at hk
        · rw [← Option.some.inj hk]
          exact Nat.lt_succ_self _
        · exact Nat.lt_succ_of_lt (h.lt_count hk)
  · rw [hconsumed, hreplaced, ← List.append_assoc, List.nodup_append']
    have hnodup : (s.numberOf key).toList.Nodup := by
      cases s.numberOf key with
      | none => exact List.nodup_nil
      | some n => exact List.nodup_singleton n
    refine ⟨h.once, hnodup, fun n hclosed hopen => ?_⟩
    exact h.fresh key n (Option.mem_toList.mp hopen) hclosed
  · rw [hconsumed, hreplaced, ← List.append_assoc] at hmem
    rw [numberOf_record] at hk
    rcases List.mem_append.mp hmem with hclosed | hopen
    · -- A closed schedule is neither the new one nor an open one.
      split_ifs at hk
      · exact (h.lt_count_of_closed hclosed).ne (Option.some.inj hk).symm
      · exact h.fresh k n hk hclosed
    · have hn : s.numberOf key = some n := Option.mem_toList.mp hopen
      split_ifs at hk with hkey
      · exact h.not_open_count hn hk
      · exact hkey (h.key_unique k key n hk hn)
  · rw [numberOf_record] at hk hk'
    split_ifs at hk hk' with hkey hkey' hkey'
    · rw [hkey, hkey']
    · exact absurd hk (h.not_open_count hk')
    · exact absurd hk' (h.not_open_count hk)
    · exact h.key_unique k k' n hk hk'

/-- The open schedules of different keys are consumed. -/
theorem Numbered.consume {s : State} (h : Numbered s) {keys : List Bytes} (hkeys : keys.Nodup) :
    Numbered (s.consume keys) := by
  have hconsumed : (s.consume keys).consumed = s.consumed ++ keys.filterMap s.numberOf := rfl
  have hreplaced : (s.consume keys).replaced = s.replaced := rfl
  have hcount : (s.consume keys).count = s.count := rfl
  have hperm : ((s.consume keys).consumed ++ (s.consume keys).replaced).Perm
      ((s.consumed ++ s.replaced) ++ keys.filterMap s.numberOf) := by
    rw [hconsumed, hreplaced, List.append_assoc, List.append_assoc]
    exact List.perm_append_comm.append_left _
  refine ⟨fun n => ?_, ?_, fun k n hk hmem => ?_, fun k k' n hk hk' => ?_⟩
  · rw [hcount, hconsumed, hreplaced, List.mem_append, List.mem_filterMap, h.accounted n]
    simp only [numberOf_consume]
    constructor
    · rintro (hn | hn | ⟨k, hk⟩)
      · exact Or.inl (Or.inl hn)
      · exact Or.inr (Or.inl hn)
      · by_cases hkey : k ∈ keys
        · exact Or.inl (Or.inr ⟨k, hkey, hk⟩)
        · exact Or.inr (Or.inr ⟨k, by rwa [if_neg hkey]⟩)
    · rintro ((hn | ⟨k, -, hk⟩) | hn | ⟨k, hk⟩)
      · exact Or.inl hn
      · exact Or.inr (Or.inr ⟨k, hk⟩)
      · exact Or.inr (Or.inl hn)
      · split_ifs at hk
        exact Or.inr (Or.inr ⟨k, hk⟩)
  · rw [hperm.nodup_iff, List.nodup_append']
    refine ⟨h.once, hkeys.filterMap fun k k' n hk hk' => h.key_unique k k' n hk hk', ?_⟩
    intro n hclosed hopen
    obtain ⟨k, -, hk⟩ := List.mem_filterMap.mp hopen
    exact h.fresh k n hk hclosed
  · rw [numberOf_consume] at hk
    split_ifs at hk with hkey
    rcases List.mem_append.mp (hperm.mem_iff.mp hmem) with hclosed | hopen
    · exact h.fresh k n hk hclosed
    · -- An open schedule belongs to one key, and that was not consumed.
      obtain ⟨k', hkey', hk'⟩ := List.mem_filterMap.mp hopen
      exact hkey (h.key_unique k k' n hk hk' ▸ hkey')
  · rw [numberOf_consume] at hk hk'
    split_ifs at hk hk'
    exact h.key_unique k k' n hk hk'

/-! ## The table is the map of the open schedules -/

/-- The table holds the open schedules of an origin's keys, with their deadlines. -/
def Holds (origin : Bytes) (window : ℤ) (s : State) : Prop :=
  s.table.window = window ∧ ∀ k e, s.table.entries.lookup k = some e ↔
    ∃ key schedule, k = makeKey origin key ∧ s.latest key = some schedule ∧
      e = ⟨key, origin, schedule.time + milliseconds window⟩

/-- The key of an entry tells it from those of the same origin. -/
theorem makeKey_inj (origin : Bytes) {key key' : Bytes} :
    makeKey origin key = makeKey origin key' ↔ key = key' := by
  unfold makeKey
  rw [List.append_cancel_left_eq]

variable {origin : Bytes} {window : ℤ}

/-- A table with a positive window is in use. -/
theorem Holds.window_used {s : State} (h : Holds origin window s) (hwindow : 0 < window) :
    ¬ s.table.window ≤ 0 := by
  rw [h.1]
  exact not_le.mpr hwindow

/-- A key is found exactly if it is open. -/
theorem Holds.lookup_eq {s : State} (h : Holds origin window s) (key : Bytes) :
    s.table.entries.lookup (makeKey origin key) = (s.latest key).map fun schedule =>
      ⟨key, origin, schedule.time + milliseconds window⟩ := by
  ext e
  rw [h.2, Option.map_eq_some_iff]
  constructor
  · rintro ⟨key', schedule, hkey, hlatest, rfl⟩
    obtain rfl := (makeKey_inj origin).mp hkey
    exact ⟨schedule, hlatest, rfl⟩
  · rintro ⟨schedule, hlatest, rfl⟩
    exact ⟨key, schedule, rfl, hlatest, rfl⟩

/-- `cancel` returns whether the key is open. -/
theorem Holds.cancel_eq {s : State} (h : Holds origin window s) (key : Bytes) :
    (s.table.cancel key origin).2 = (s.latest key).isSome := by
  unfold ContentBfFallbackTable.cancel
  dsimp only
  rw [h.lookup_eq, Option.isSome_map]

/-- `take_due` returns the open keys whose time is over, with the origin. -/
theorem Holds.mem_takeDue {s : State} (h : Holds origin window s) (hwindow : 0 < window)
    (it : Iteration) (now : ℤ) (p : Pending) :
    p ∈ (s.table.takeDue it now).2 ↔ p.origin = origin ∧
      ∃ schedule, s.latest p.key = some schedule ∧
        schedule.time + milliseconds window ≤ now := by
  have hused : ¬ s.table.window ≤ 0 := h.window_used hwindow
  unfold ContentBfFallbackTable.takeDue dueEntries
  rw [if_neg hused, if_neg hused, List.map_map, List.mem_map]
  constructor
  · rintro ⟨⟨k, e⟩, he, rfl⟩
    obtain ⟨hentry, hdue⟩ := List.mem_filter.mp he
    obtain ⟨key, schedule, -, hlatest, rfl⟩ :=
      (h.2 k e).mp (lookup_eq_some_iff.mpr (it.mem_order.mp hentry))
    exact ⟨rfl, schedule, hlatest, of_decide_eq_true hdue⟩
  · rintro ⟨rfl, schedule, hlatest, hdue⟩
    refine ⟨⟨makeKey p.origin p.key, ⟨p.key, p.origin, schedule.time + milliseconds window⟩⟩,
      List.mem_filter.mpr ⟨it.mem_order.mpr (lookup_eq_some_iff.mp ?_), decide_eq_true hdue⟩, rfl⟩
    exact (h.2 _ _).mpr ⟨p.key, schedule, rfl, hlatest, rfl⟩

/-- The keys of the entries are different. -/
theorem Holds.nodup_keys {s : State} (h : Holds origin window s) :
    (s.table.entries.entries.map fun e => e.2.key).Nodup := by
  have hnames : (s.table.entries.entries.map Sigma.fst).Nodup := s.table.entries.nodupKeys
  -- The name of an entry is made of its key.
  have hname : s.table.entries.entries.map Sigma.fst =
      (s.table.entries.entries.map fun e => e.2.key).map (makeKey origin) := by
    rw [List.map_map]
    refine List.map_congr_left fun e he => ?_
    obtain ⟨key, schedule, hkey, -, hentry⟩ := (h.2 e.1 e.2).mp (lookup_eq_some_iff.mpr he)
    rw [hkey, Function.comp_apply, hentry]
  rw [hname] at hnames
  exact hnames.of_map _

/-- `take_due` returns every key once. -/
theorem Holds.nodup_takeDue {s : State} (h : Holds origin window s) (it : Iteration) (now : ℤ) :
    ((s.table.takeDue it now).2.map Pending.key).Nodup := by
  unfold ContentBfFallbackTable.takeDue dueEntries
  split_ifs with hwindow
  · exact List.nodup_nil
  · have horder : ((it.order s.table.entries.entries).map fun e => e.2.key).Nodup :=
      ((it.perm _).map _).nodup_iff.mpr h.nodup_keys
    rw [List.map_map, List.map_map]
    exact horder.sublist (List.filter_sublist.map _)

/-- `pending_count` is the number of the open keys. -/
theorem Holds.pendingCount {s : State} (h : Holds origin window s) :
    ∃ keys : List Bytes, keys.Nodup ∧ (∀ key, key ∈ keys ↔ (s.latest key).isSome = true) ∧
      s.table.pendingCount = keys.length := by
  refine ⟨s.table.entries.entries.map fun e => e.2.key, h.nodup_keys, fun key => ?_, ?_⟩
  · rw [List.mem_map, Option.isSome_iff_exists]
    constructor
    · rintro ⟨e, he, rfl⟩
      obtain ⟨key, schedule, -, hlatest, hentry⟩ := (h.2 e.1 e.2).mp (lookup_eq_some_iff.mpr he)
      rw [hentry]
      exact ⟨schedule, hlatest⟩
    · rintro ⟨schedule, hlatest⟩
      have hentry := (h.2 _ _).mpr ⟨key, schedule, rfl, hlatest, rfl⟩
      exact ⟨_, lookup_eq_some_iff.mp hentry, rfl⟩
  · rw [List.length_map]
    rfl

/-- If one key is pending, it is the only open one. -/
theorem Holds.eq_of_pendingCount_eq_one {s : State} (h : Holds origin window s)
    (hone : s.table.pendingCount = 1) {key key' : Bytes} (hkey : (s.latest key).isSome = true)
    (hkey' : (s.latest key').isSome = true) : key = key' := by
  obtain ⟨keys, -, hkeys, hcount⟩ := h.pendingCount
  obtain ⟨only, rfl⟩ := List.length_eq_one_iff.mp (hcount.symm.trans hone)
  have honly : ∀ key, (s.latest key).isSome = true → key = only := fun key hopen =>
    List.mem_singleton.mp ((hkeys key).mpr hopen)
  rw [honly key hkey, honly key' hkey']

/-- `schedule` opens its key. -/
theorem Holds.schedule {s : State} (h : Holds origin window s) (hwindow : 0 < window) (now : ℤ)
    (key : Bytes) :
    (s.table.schedule now key origin).2 = true ∧
      Holds origin window
        { s.record now key with table := (s.table.schedule now key origin).1 } := by
  have hused : ¬ s.table.window ≤ 0 := h.window_used hwindow
  unfold ContentBfFallbackTable.schedule
  rw [if_neg hused]
  refine ⟨rfl, h.1, fun k e => ?_⟩
  unfold State.record
  dsimp only
  by_cases hk : k = makeKey origin key
  · subst hk
    rw [AList.lookup_insert, Option.some.injEq, h.1]
    constructor
    · rintro rfl
      exact ⟨key, ⟨s.count, now⟩, rfl, Function.update_self _ _ _, rfl⟩
    · rintro ⟨key', schedule, hkey, hlatest, rfl⟩
      obtain rfl := (makeKey_inj origin).mp hkey
      rw [Function.update_self] at hlatest
      rw [← Option.some.inj hlatest]
  · rw [AList.lookup_insert_ne hk, h.2]
    have hother : ∀ key', k = makeKey origin key' → key' ≠ key := fun key' hkey heq =>
      hk (heq ▸ hkey)
    constructor
    · rintro ⟨key', schedule, hkey, hlatest, rfl⟩
      exact ⟨key', schedule, hkey, by rwa [Function.update_of_ne (hother key' hkey)], rfl⟩
    · rintro ⟨key', schedule, hkey, hlatest, rfl⟩
      rw [Function.update_of_ne (hother key' hkey)] at hlatest
      exact ⟨key', schedule, hkey, hlatest, rfl⟩

/-- A table that has lost the entries of some keys is the map of the other ones. -/
theorem Holds.consume {s : State} (h : Holds origin window s) {table : ContentBfFallbackTable}
    {keys : List Bytes} (hwindow : table.window = s.table.window)
    (hlost : ∀ k e, table.entries.lookup k = some e ↔
      s.table.entries.lookup k = some e ∧ e.key ∉ keys) :
    Holds origin window { s.consume keys with table } := by
  refine ⟨hwindow.trans h.1, fun k e => ?_⟩
  rw [hlost, h.2]
  dsimp only
  simp only [latest_consume]
  constructor
  · rintro ⟨⟨key, schedule, hkey, hlatest, rfl⟩, hnotin⟩
    exact ⟨key, schedule, hkey, by rwa [if_neg hnotin], rfl⟩
  · rintro ⟨key, schedule, hkey, hlatest, rfl⟩
    split_ifs at hlatest with hin
    exact ⟨⟨key, schedule, hkey, hlatest, rfl⟩, hin⟩

/-- `cancel` removes its key alone. -/
theorem Holds.cancel {s : State} (h : Holds origin window s) (key : Bytes) :
    Holds origin window
      { s.consume (if (s.table.cancel key origin).2 then [key] else []) with
        table := (s.table.cancel key origin).1 } := by
  refine h.consume rfl fun k e => ?_
  have herase : (s.table.cancel key origin).1.entries =
      s.table.entries.erase (makeKey origin key) := rfl
  rw [herase]
  by_cases hk : k = makeKey origin key
  · subst hk
    rw [AList.lookup_erase, h.lookup_eq]
    refine iff_of_false (fun hnone => Option.some_ne_none e hnone.symm) fun ⟨hfound, hnotin⟩ => ?_
    obtain ⟨schedule, hlatest, rfl⟩ := Option.map_eq_some_iff.mp hfound
    -- The key is found, so it is cancelled.
    have hcancelled : (s.table.cancel key origin).2 = true := by
      rw [h.cancel_eq, hlatest, Option.isSome_some]
    rw [if_pos hcancelled] at hnotin
    exact hnotin List.mem_cons_self
  · rw [AList.lookup_erase_ne hk]
    refine ⟨fun hfound => ⟨hfound, fun hin => hk ?_⟩, And.left⟩
    obtain ⟨key', schedule, hkey, -, rfl⟩ := (h.2 k e).mp hfound
    split_ifs at hin
    · have hsame : key' = key := List.mem_singleton.mp hin
      rw [hkey, hsame]
    · exact absurd hin List.not_mem_nil

/-- `take_due` removes the keys that it returns. -/
theorem Holds.takeDue {s : State} (h : Holds origin window s) (hwindow : 0 < window)
    (it : Iteration) (now : ℤ) :
    Holds origin window
      { s.consume ((s.table.takeDue it now).2.map Pending.key) with
        table := (s.table.takeDue it now).1 } := by
  have hused : ¬ s.table.window ≤ 0 := h.window_used hwindow
  have htable : (s.table.takeDue it now).1 = { s.table with
      entries := Cxx.filter (fun _ e => !decide (now ≥ e.deadline)) s.table.entries } := by
    rw [ContentBfFallbackTable.takeDue, if_neg hused]
  refine h.consume (by rw [htable]) fun k e => ?_
  rw [htable]
  dsimp only
  rw [Cxx.lookup_filter, Option.filter_eq_some_iff]
  refine and_congr_right fun hfound => ?_
  obtain ⟨key, schedule, -, hlatest, rfl⟩ := (h.2 k e).mp hfound
  -- Its entry is due exactly if the key is returned.
  have hreturned : key ∈ (s.table.takeDue it now).2.map Pending.key ↔
      schedule.time + milliseconds window ≤ now := by
    rw [List.mem_map]
    constructor
    · rintro ⟨p, hp, rfl⟩
      obtain ⟨-, schedule', hlatest', hdue⟩ := (h.mem_takeDue hwindow it now p).mp hp
      rwa [Option.some.inj (hlatest.symm.trans hlatest')]
    · intro hdue
      exact ⟨⟨key, origin⟩, (h.mem_takeDue hwindow it now _).mpr ⟨rfl, schedule, hlatest, hdue⟩,
        rfl⟩
  rw [hreturned, Bool.not_eq_true', decide_eq_false_iff_not]

/-! ## The run -/

/-- The table is the map of the open schedules, and every schedule is accounted for. -/
def Exact (origin : Bytes) (window : ℤ) (s : State) : Prop := Holds origin window s ∧ Numbered s

/-- Every call keeps the table exact. -/
theorem Exact.step {s s' : State} {call : Call} (h : Exact origin window s) (hwindow : 0 < window)
    (hstep : step origin s call = some s') : Exact origin window s' := by
  obtain ⟨hholds, hnumbered⟩ := h
  cases call with
  | schedule now key =>
    obtain rfl := Option.some.inj hstep
    exact ⟨(hholds.schedule hwindow now key).2, (hnumbered.record now key).withTable _⟩
  | cancel key =>
    obtain rfl := Option.some.inj hstep
    refine ⟨hholds.cancel key, (hnumbered.consume ?_).withTable _⟩
    split_ifs
    · exact List.nodup_singleton key
    · exact List.nodup_nil
  | takeDue it now =>
    obtain rfl := Option.some.inj hstep
    exact ⟨hholds.takeDue hwindow it now,
      (hnumbered.consume (hholds.nodup_takeDue it now)).withTable _⟩

/-- A fresh table is exact. -/
theorem exact_init (origin : Bytes) (window : ℤ) : Exact origin window (State.init window) := by
  refine ⟨⟨rfl, fun k e => ?_⟩, ⟨fun n => ?_, List.nodup_nil, fun key n hn => ?_,
    fun key key' n hn => ?_⟩⟩
  · refine iff_of_false (fun hnone => Option.some_ne_none e hnone.symm) ?_
    rintro ⟨key, schedule, -, hlatest, -⟩
    exact Option.some_ne_none schedule hlatest.symm
  · refine iff_of_false (Nat.not_lt_zero n) ?_
    rintro (hn | hn | ⟨key, hn⟩)
    · exact List.not_mem_nil hn
    · exact List.not_mem_nil hn
    · exact Option.some_ne_none n hn.symm
  · exact absurd hn.symm (Option.some_ne_none n)
  · exact absurd hn.symm (Option.some_ne_none n)

/-- Every call is possible. -/
theorem step_total (origin : Bytes) (s : State) (call : Call) :
    ∃ s', step origin s call = some s' := by
  cases call with
  | schedule now key => exact ⟨_, rfl⟩
  | cancel key => exact ⟨_, rfl⟩
  | takeDue it now => exact ⟨_, rfl⟩

/-- The table is an exact map of deadlines. For every positive window and every sequence of calls
with one origin: the table holds the keys that were scheduled since they were last cancelled or
taken, with their deadlines, and no others; the next `schedule` returns true; the next `cancel`
returns true exactly for such a key; the next `take_due` returns exactly those whose last schedule
lies the window or more before, each once and with the origin; `pending_count` is their number; and
every schedule is open, replaced by a later one of its key, or consumed by a `cancel` or a
`take_due`, only one of these, and once. -/
theorem deadlines_exact (origin : Bytes) (window : ℤ) (hwindow : 0 < window) (calls : List Call) :
    ∃ s, Machine.run (step origin) (State.init window) calls = some s ∧
      Holds origin window s ∧
      (∀ now key, (s.table.schedule now key origin).2 = true) ∧
      (∀ key, (s.table.cancel key origin).2 = true ↔ (s.latest key).isSome = true) ∧
      (∀ it now, ((s.table.takeDue it now).2.map Pending.key).Nodup ∧
        ∀ p, p ∈ (s.table.takeDue it now).2 ↔ p.origin = origin ∧
          ∃ schedule, s.latest p.key = some schedule ∧
            schedule.time + milliseconds window ≤ now) ∧
      (∃ keys : List Bytes, keys.Nodup ∧ (∀ key, key ∈ keys ↔ (s.latest key).isSome = true) ∧
        s.table.pendingCount = keys.length) ∧
      Numbered s := by
  obtain ⟨s, hrun⟩ := Machine.exists_run (step_total origin) (State.init window) calls
  obtain ⟨hholds, hnumbered⟩ : Exact origin window s :=
    Machine.run_invariant (fun _ _ _ h hstep => h.step hwindow hstep) (exact_init origin window)
      hrun
  refine ⟨s, hrun, hholds, fun now key => (hholds.schedule hwindow now key).1,
    fun key => by rw [hholds.cancel_eq],
    fun it now => ⟨hholds.nodup_takeDue it now, hholds.mem_takeDue hwindow it now⟩,
    hholds.pendingCount, hnumbered⟩

/-- A key that is scheduled twice, and another that is cancelled. -/
def scheduledTwice : List Call :=
  [.schedule 0 (ascii "k"), .schedule 5 (ascii "k"), .schedule 7 (ascii "l"), .cancel (ascii "l")]

/-- The first schedule of `k` is replaced by the second one, which is open; that of `l` was consumed
by the cancel. The next `cancel` returns true for `k` and false for `l`. The next `take_due` returns
`k` once its second schedule lies the window before, and nothing at 300 ms, and it is the schedule
of `k` that it consumes. -/
theorem deadlines_exact_twice :
    ∃ s, Machine.run (step (ascii "node1")) (State.init 300) scheduledTwice = some s ∧
      s.replaced = [0] ∧ s.consumed = [2] ∧ s.table.pendingCount = 1 ∧
      (s.table.cancel (ascii "k") (ascii "node1")).2 = true ∧
      (s.table.cancel (ascii "l") (ascii "node1")).2 = false ∧
      (s.table.takeDue default (milliseconds 300)).2 = [] ∧
      (∀ p, p ∈ (s.table.takeDue default (milliseconds 301)).2 ↔
        p = ⟨ascii "k", ascii "node1"⟩) ∧
      (step (ascii "node1") s (.takeDue default (milliseconds 301))).map State.consumed =
        some [2, 1] ∧
      Numbered s := by
  have hopen : ∀ s, Machine.run (step (ascii "node1")) (State.init 300) scheduledTwice = some s →
      s.replaced = [0] ∧ s.consumed = [2] ∧ s.table.pendingCount = 1 ∧
      s.latest (ascii "k") = some ⟨1, 5⟩ ∧ s.latest (ascii "l") = none ∧
      (step (ascii "node1") s (.takeDue default (milliseconds 301))).map State.consumed =
        some [2, 1] := by
    rintro s ⟨⟩
    decide +kernel
  obtain ⟨s, hrun, hholds, -, hcancel, htake, -, hnumbered⟩ :=
    deadlines_exact (ascii "node1") 300 (by decide) scheduledTwice
  obtain ⟨hreplaced, hconsumed, hpending, hk, hl, hnext⟩ := hopen s hrun
  -- `k` is the only open key.
  have honly : ∀ key schedule, s.latest key = some schedule → key = ascii "k" :=
    fun key schedule hkey =>
      hholds.eq_of_pendingCount_eq_one hpending (Option.isSome_of_eq_some hkey)
        (Option.isSome_of_eq_some hk)
  refine ⟨s, hrun, hreplaced, hconsumed, hpending, ?_, ?_, ?_, fun p => ?_, hnext, hnumbered⟩
  · rw [hcancel, hk]
    rfl
  · rw [Bool.eq_false_iff, ne_eq, hcancel, hl]
    decide
  · rw [List.eq_nil_iff_forall_not_mem]
    intro p hp
    obtain ⟨-, schedule, hlatest, hdue⟩ := ((htake _ _).2 p).mp hp
    obtain rfl : schedule = ⟨1, 5⟩ := by
      rw [honly _ _ hlatest, hk] at hlatest
      exact (Option.some.inj hlatest).symm
    exact absurd hdue (by decide)
  · rw [(htake _ _).2]
    constructor
    · rintro ⟨horigin, schedule, hlatest, -⟩
      calc p = ⟨p.key, p.origin⟩ := rfl
        _ = ⟨ascii "k", ascii "node1"⟩ := by rw [horigin, honly _ _ hlatest]
    · rintro rfl
      exact ⟨rfl, ⟨1, 5⟩, hk, by decide⟩

end Netos.FallbackDeadlines
