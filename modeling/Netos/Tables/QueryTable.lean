import Netos.Lib.CString
import Netos.Lib.Cxx

/-!
# The query table

`tables/query_table.h` and `tables/query_table.cpp`: the request ids seen within the last `ttl`. A
call of `record_if_new` reads the clock twice, once to prune and, when the id is new, once more for
the entry that it stores; both readings are arguments here. `recordIfNew_of_some` and
`recordIfNew_of_none` say what a call leaves in the table.
-/

namespace Netos

open CString Cxx

/-- `QueryTable`. -/
structure QueryTable where
  /-- How long an id is remembered, in milliseconds. -/
  ttl : ℤ
  /-- When each id was recorded. -/
  table : UnorderedMap Bytes ℤ
  /-- The calls of `record_if_new`. -/
  attempts : UInt64
  /-- The calls that found the id in the table. -/
  duplicates : UInt64
  /-- The entries pruned. -/
  pruned : UInt64

namespace QueryTable

/-- The constructor. -/
def construct (ttl : ℤ) : QueryTable := ⟨ttl, ∅, 0, 0, 0⟩

/-- An entry is erased when it is older than `ttl`. -/
def expired (t : QueryTable) (now recorded : ℤ) : Bool :=
  decide (now - recorded > milliseconds t.ttl)

/-- `prune`: the table without the expired entries, and how many those were. -/
def prune (t : QueryTable) (now : ℤ) : UnorderedMap Bytes ℤ × ℕ :=
  (Cxx.filter (fun _ recorded => !t.expired now recorded) t.table,
    Cxx.size (Cxx.filter (fun _ recorded => t.expired now recorded) t.table))

/-- `record_if_new`: `prune_now` is the clock read by `prune`, `record_now` the one stored. -/
def recordIfNew (t : QueryTable) (request_id : Bytes) (prune_now record_now : ℤ) :
    QueryTable × Bool :=
  let (table, removed) := t.prune prune_now
  let t := { t with
    attempts := t.attempts + 1, table, pruned := t.pruned + UInt64.ofNat removed }
  match table.lookup request_id with
  | some _ => ({ t with duplicates := t.duplicates + 1 }, false)
  | none => ({ t with table := table.insert request_id record_now }, true)

/-- `QueryTable::Stats`. -/
structure Stats where
  /-- The number of entries. -/
  size : ℕ
  /-- The calls of `record_if_new`. -/
  attempts : UInt64
  /-- The calls that found the id in the table. -/
  duplicates : UInt64
  /-- The entries pruned. -/
  pruned : UInt64

/-- `stats`. -/
def stats (t : QueryTable) : Stats := ⟨Cxx.size t.table, t.attempts, t.duplicates, t.pruned⟩

/-- What pruning leaves: the entries that are not older than `ttl`. -/
theorem lookup_prune (t : QueryTable) (now : ℤ) (id : Bytes) :
    (t.prune now).1.lookup id =
      (t.table.lookup id).filter fun recorded => !t.expired now recorded :=
  Cxx.lookup_filter _ _ _

/-- `record_if_new` keeps the time to live. -/
@[simp] theorem recordIfNew_ttl (t : QueryTable) (id : Bytes) (p r : ℤ) :
    (t.recordIfNew id p r).1.ttl = t.ttl := by
  unfold recordIfNew
  dsimp only
  split <;> rfl

/-- An id is new when pruning leaves no entry for it. -/
theorem recordIfNew_eq_true_iff (t : QueryTable) (id : Bytes) (p r : ℤ) :
    (t.recordIfNew id p r).2 = true ↔ (t.prune p).1.lookup id = none := by
  cases h : (t.prune p).1.lookup id <;> simp [recordIfNew, h]

/-- A call that finds the id after pruning: the pruned table, and the id is a duplicate. -/
theorem recordIfNew_of_some {t : QueryTable} {id : Bytes} {p r recorded : ℤ}
    (h : (t.prune p).1.lookup id = some recorded) :
    (t.recordIfNew id p r).2 = false ∧ (t.recordIfNew id p r).1.table = (t.prune p).1 := by
  simp [recordIfNew, h]

/-- A call that does not find the id after pruning: the id is new and recorded. -/
theorem recordIfNew_of_none {t : QueryTable} {id : Bytes} {p r : ℤ}
    (h : (t.prune p).1.lookup id = none) :
    (t.recordIfNew id p r).2 = true ∧
      (t.recordIfNew id p r).1.table = (t.prune p).1.insert id r := by
  simp [recordIfNew, h]

/-- The entries were recorded at a time or later. -/
def Since (t : QueryTable) (lo : ℤ) : Prop := ∀ id recorded, t.table.lookup id = some recorded →
  lo ≤ recorded

/-- As long as no more than `ttl` has passed since the first entry, `record_if_new` forgets nothing:
an id is new when it was never recorded. -/
theorem Since.recordIfNew {t : QueryTable} {lo : ℤ} (h : t.Since lo) (id : Bytes) {p r : ℤ}
    (hp : p ≤ lo + milliseconds t.ttl) (hr : lo ≤ r) :
    ((t.recordIfNew id p r).2 = true ↔ id ∉ t.table) ∧
      (∀ k, k ∈ (t.recordIfNew id p r).1.table ↔ k = id ∨ k ∈ t.table) ∧
      (t.recordIfNew id p r).1.Since lo := by
  have hprune : ∀ k, (t.prune p).1.lookup k = t.table.lookup k := fun k => by
    rw [lookup_prune]
    cases hk : t.table.lookup k with
    | none => rfl
    | some recorded =>
      have hlo := h k recorded hk
      have hyoung : ¬ p - recorded > milliseconds t.ttl := by omega
      rw [Option.filter_some, expired, decide_eq_false hyoung]
      rfl
  have hmem : ∀ k, k ∈ (t.prune p).1 ↔ k ∈ t.table := fun k => by
    rw [← AList.lookup_isSome, ← AList.lookup_isSome, hprune]
  cases hid : (t.prune p).1.lookup id with
  | some recorded =>
    obtain ⟨hnew, htable⟩ := recordIfNew_of_some (r := r) hid
    have hin : id ∈ t.table := (hmem id).mp (AList.lookup_isSome.mp (by rw [hid]; rfl))
    refine ⟨by simp [hnew, hin], fun k => ?_, fun k τ hk => h k τ ?_⟩
    · rw [htable, hmem]
      exact ⟨Or.inr, fun hk => hk.elim (fun hk => hk ▸ hin) fun hk => hk⟩
    · rwa [htable, hprune] at hk
  | none =>
    obtain ⟨hnew, htable⟩ := recordIfNew_of_none (r := r) hid
    have hout : id ∉ t.table := fun hin => by
      rw [← hmem, ← AList.lookup_isSome, hid] at hin
      exact Bool.noConfusion hin
    refine ⟨by simp [hnew, hout], fun k => ?_, fun k τ hk => ?_⟩
    · rw [htable, AList.mem_insert, hmem]
    · rw [htable] at hk
      by_cases hk' : k = id
      · rw [hk', AList.lookup_insert] at hk
        rwa [← Option.some.inj hk]
      · rw [AList.lookup_insert_ne hk', hprune] at hk
        exact h k τ hk

end QueryTable

end Netos
