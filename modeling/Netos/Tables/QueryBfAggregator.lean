import Netos.Core.Config
import Netos.Lib.Cxx
import Netos.Tables.BloomFilter

/-!
# The Query-BF aggregator

`tables/query_bf_aggregator.h` and `tables/query_bf_aggregator.cpp`: keys that no neighbor summary
matched are collected in one filter per origin, and a filter leaves as a batch when it is full or
when its window is over. A call reads the steady clock once, before anything else; its reading `now`
is an argument. `reset_buffer` reads the system clock afresh at every reset, in milliseconds: an
`add_key` has three resets (`ResetReadings`), and a `flush_due` one for every buffer that leaves, so
its readings are a function of the origin.
-/

namespace Netos

open CString Cxx

/-- `QueryBloomBatch`. -/
structure QueryBloomBatch where
  /-- The origin whose keys these are. -/
  origin : Bytes
  /-- The filter of the keys. -/
  filter : BloomFilter
  /-- When the filter's buffer was reset last. -/
  created_ms : UInt64
  /-- The id under which the batch is flooded. -/
  batch_id : Bytes
  /-- The number of keys, repetitions counted. -/
  key_count : UInt64
deriving DecidableEq

/-- `QueryBloomAddResult`. -/
structure QueryBloomAddResult where
  /-- The key was taken. -/
  accepted : Bool := false
  /-- A threshold was reached. -/
  split : Bool := false
  /-- Which threshold. -/
  split_reason : Bytes := []
  /-- The origin of the call. -/
  origin : Bytes := []
  /-- The id of the batch that the key is in. -/
  batch_id : Bytes := []
  /-- The time of creation of that batch. -/
  created_ms : UInt64 := 0
  /-- Its number of keys. -/
  key_count : UInt64 := 0
  /-- Its fill ratio. -/
  fill_ratio : ℚ := 0

/-- `Buffer`, with the source's defaults. -/
structure QueryBloomAggregator.Buffer where
  /-- The filter of the keys collected. -/
  filter : BloomFilter := .construct 0 0
  /-- The steady clock at the last reset. -/
  created_at : ℤ := 0
  /-- The system clock at the last reset; zero before the first one. -/
  created_ms : UInt64 := 0
  /-- A key was added since the last reset. -/
  has_data : Bool := false
  /-- The number of keys added since the last reset. -/
  key_count : UInt64 := 0

/-- `QueryBloomAggregator`. Durations are in milliseconds. -/
structure QueryBloomAggregator where
  /-- The number of bits of the filters. -/
  bit_count : ℕ
  /-- The number of hashes of the filters. -/
  hash_count : ℕ
  /-- How old a buffer must be to leave. -/
  aggregation_window : ℤ
  /-- How old a buffer may get before its keys are dropped. -/
  ttl : ℤ
  /-- The fill ratio that splits, if positive. -/
  max_fill_ratio : ℚ
  /-- The number of keys that splits, if positive. -/
  max_keys : UInt64
  /-- The buffer of every origin. -/
  buffers : UnorderedMap Bytes QueryBloomAggregator.Buffer
  /-- The batches that a threshold split off. -/
  pending_batches : List QueryBloomBatch

/-- `make_batch_id`. -/
def makeBatchId (origin : Bytes) (created_ms : UInt64) : Bytes :=
  ascii "qbf-" ++ origin ++ ascii "-" ++ natToString created_ms.toNat

/-- The system clock, in milliseconds, at the three resets of an `add_key`. -/
structure ResetReadings where
  /-- At the reset of a buffer that was never used. -/
  unused : UInt64
  /-- At the reset of a buffer that outlived `ttl`. -/
  outlived : UInt64
  /-- At the reset after a split. -/
  split : UInt64
deriving DecidableEq

/-- All three resets are in one millisecond. -/
def ResetReadings.same (wall : UInt64) : ResetReadings := ⟨wall, wall, wall⟩

/-- The reading at the reset that a buffer gets from `add_key` before its key joins it. -/
def ResetReadings.restart (wall : ResetReadings) (buffer : QueryBloomAggregator.Buffer) :
    UInt64 :=
  if buffer.created_ms = 0 then wall.unused else wall.outlived

/-- No reset of a buffer before its key joins it reads zero. -/
def ResetReadings.Positive (wall : ResetReadings) : Prop := wall.unused ≠ 0 ∧ wall.outlived ≠ 0

/-- Decidable, as the comparisons are. -/
instance (wall : ResetReadings) : Decidable wall.Positive := inferInstanceAs (Decidable (_ ∧ _))

/-- Then the clock of a buffer that was reset is set. -/
theorem ResetReadings.Positive.restart_ne_zero {wall : ResetReadings} (h : wall.Positive)
    (buffer : QueryBloomAggregator.Buffer) : wall.restart buffer ≠ 0 := by
  unfold ResetReadings.restart
  split_ifs
  · exact h.1
  · exact h.2

namespace QueryBloomAggregator

/-- The constructor. -/
def construct (bit_count hash_count : ℕ) (aggregation_window ttl : ℤ) (max_fill_ratio : ℚ)
    (max_keys : UInt64) : QueryBloomAggregator :=
  { bit_count, hash_count, aggregation_window, ttl, max_fill_ratio, max_keys
    buffers := ∅, pending_batches := [] }

/-- `buffers_[origin]`: a new origin gets a default buffer. -/
def buffer (a : QueryBloomAggregator) (origin : Bytes) : Buffer :=
  (a.buffers.lookup origin).getD {}

/-- `reset_buffer`. -/
def resetBuffer (a : QueryBloomAggregator) (now : ℤ) (wall : UInt64) : Buffer :=
  { filter := .construct a.bit_count a.hash_count, created_at := now, created_ms := wall }

/-- The age test of `add_key`. -/
def outlived (a : QueryBloomAggregator) (now : ℤ) (buffer : Buffer) : Prop :=
  a.ttl > 0 ∧ now - buffer.created_at > milliseconds a.ttl

/-- Decidable, as the comparisons are. -/
instance (a : QueryBloomAggregator) (now : ℤ) (buffer : Buffer) :
    Decidable (a.outlived now buffer) := inferInstanceAs (Decidable (_ ∧ _))

/-- The first two resets of `add_key`: a buffer never used, and one that outlived `ttl`. -/
def readyBuffer (a : QueryBloomAggregator) (now : ℤ) (wall : ResetReadings) (buffer : Buffer) :
    Buffer :=
  let buffer := if buffer.created_ms = 0 then a.resetBuffer now wall.unused else buffer
  if a.outlived now buffer then a.resetBuffer now wall.outlived else buffer

/-- A key goes into a buffer. -/
def Buffer.addKey (buffer : Buffer) (key : Bytes) : Buffer :=
  { buffer with
    filter := buffer.filter.add key
    has_data := true
    key_count := buffer.key_count + 1 }

/-- The split tests of `add_key`; the second overwrites the reason of the first. -/
def splitReason (a : QueryBloomAggregator) (buffer : Buffer) : Option Bytes :=
  if a.max_fill_ratio > 0 ∧ buffer.filter.fillRatio ≥ a.max_fill_ratio then
    some (ascii "fill_ratio")
  else if a.max_keys > 0 ∧ buffer.key_count ≥ a.max_keys then some (ascii "max_keys")
  else none

/-- The batch that a buffer leaves as. -/
def makeBatch (origin : Bytes) (buffer : Buffer) : QueryBloomBatch :=
  { origin, filter := buffer.filter, created_ms := buffer.created_ms
    batch_id := makeBatchId origin buffer.created_ms, key_count := buffer.key_count }

/-- `add_key`. -/
def addKey (a : QueryBloomAggregator) (origin key : Bytes) (now : ℤ) (wall : ResetReadings) :
    QueryBloomAggregator × QueryBloomAddResult :=
  let buffer := (a.readyBuffer now wall (a.buffer origin)).addKey key
  let result : QueryBloomAddResult :=
    { accepted := true, origin, created_ms := buffer.created_ms
      batch_id := makeBatchId origin buffer.created_ms
      key_count := buffer.key_count, fill_ratio := buffer.filter.fillRatio }
  match a.splitReason buffer with
  | some split_reason =>
    ({ a with
        pending_batches := a.pending_batches ++ [makeBatch origin buffer]
        buffers := a.buffers.insert origin (a.resetBuffer now wall.split) },
      { result with split := true, split_reason })
  | none => ({ a with buffers := a.buffers.insert origin buffer }, result)

/-- The tests of the loop of `flush_due`: the buffer leaves. -/
def due (a : QueryBloomAggregator) (now : ℤ) (buffer : Buffer) : Bool :=
  buffer.has_data &&
    !(a.aggregation_window > 0 && now - buffer.created_at < milliseconds a.aggregation_window)

/-- `flush_due`: the pending batches and one for every buffer that is due, which starts afresh. -/
def flushDue (a : QueryBloomAggregator) (it : Iteration) (now : ℤ) (wall : Bytes → UInt64) :
    QueryBloomAggregator × List QueryBloomBatch :=
  let leaving := (it.order a.buffers.entries).filter fun e => a.due now e.2
  ({ a with
      pending_batches := []
      -- A buffer that leaves is reset here, so its clock starts before its next key.
      buffers :=
        mapValues (fun origin buffer =>
          if a.due now buffer then a.resetBuffer now (wall origin) else buffer) a.buffers },
    a.pending_batches ++ leaving.map fun e => makeBatch e.1 e.2)

/-- `pending_origins`. -/
def pendingOrigins (a : QueryBloomAggregator) : ℕ := size a.buffers

/-! ## What the calls do to the buffers -/

/-- A key of `add_key` goes into a fresh buffer. -/
def Restarts (a : QueryBloomAggregator) (now : ℤ) (buffer : Buffer) : Prop :=
  buffer.created_ms = 0 ∨ a.outlived now buffer

/-- Decidable, as the tests of the code are. -/
instance (a : QueryBloomAggregator) (now : ℤ) (buffer : Buffer) :
    Decidable (a.Restarts now buffer) := inferInstanceAs (Decidable (_ ∨ _))

/-- One reset at most: a buffer that was just reset has not outlived `ttl`. -/
theorem readyBuffer_eq (a : QueryBloomAggregator) (now : ℤ) (wall : ResetReadings)
    (buffer : Buffer) :
    a.readyBuffer now wall buffer =
      if a.Restarts now buffer then a.resetBuffer now (wall.restart buffer) else buffer := by
  have hfresh : ¬ a.outlived now (a.resetBuffer now wall.unused) := by
    rintro ⟨httl, hage⟩
    simp only [resetBuffer, milliseconds] at hage
    omega
  unfold readyBuffer Restarts ResetReadings.restart
  by_cases hunused : buffer.created_ms = 0
  · simp only [hunused, true_or, if_true, hfresh, if_false]
  · simp only [hunused, false_or, if_false]

/-- What an `add_key` leaves in the buffer of its origin. -/
theorem buffer_addKey_self (a : QueryBloomAggregator) (origin key : Bytes) (now : ℤ)
    (wall : ResetReadings) :
    (a.addKey origin key now wall).1.buffer origin =
      if (a.addKey origin key now wall).2.split then a.resetBuffer now wall.split
      else (a.readyBuffer now wall (a.buffer origin)).addKey key := by
  cases h : a.splitReason ((a.readyBuffer now wall (a.buffer origin)).addKey key) with
  | some reason =>
    have hbuffers : (a.addKey origin key now wall).1.buffers =
        a.buffers.insert origin (a.resetBuffer now wall.split) := by simp [addKey, h]
    rw [buffer, hbuffers]
    simp [addKey, h]
  | none =>
    have hbuffers : (a.addKey origin key now wall).1.buffers =
        a.buffers.insert origin ((a.readyBuffer now wall (a.buffer origin)).addKey key) := by
      simp [addKey, h]
    rw [buffer, hbuffers]
    simp [addKey, h]

/-- `add_key` leaves the buffers of other origins alone. -/
theorem buffer_addKey_of_ne (a : QueryBloomAggregator) {origin other : Bytes} (h : other ≠ origin)
    (key : Bytes) (now : ℤ) (wall : ResetReadings) :
    (a.addKey origin key now wall).1.buffer other = a.buffer other := by
  have hlookup :
      (a.addKey origin key now wall).1.buffers.lookup other = a.buffers.lookup other := by
    cases hsplit : a.splitReason ((a.readyBuffer now wall (a.buffer origin)).addKey key) <;>
      simp [addKey, hsplit, AList.lookup_insert_ne h]
  rw [buffer, hlookup, buffer]

/-- What an `add_key` does to the pending batches. -/
theorem pending_addKey (a : QueryBloomAggregator) (origin key : Bytes) (now : ℤ)
    (wall : ResetReadings) :
    (a.addKey origin key now wall).1.pending_batches = a.pending_batches ++
      if (a.addKey origin key now wall).2.split then
        [makeBatch origin ((a.readyBuffer now wall (a.buffer origin)).addKey key)]
      else [] := by
  cases h : a.splitReason ((a.readyBuffer now wall (a.buffer origin)).addKey key) <;>
    simp [addKey, h]

/-- Every call of `add_key` is accepted. -/
theorem accepted_addKey (a : QueryBloomAggregator) (origin key : Bytes) (now : ℤ)
    (wall : ResetReadings) :
    (a.addKey origin key now wall).2.accepted = true := by
  cases h : a.splitReason ((a.readyBuffer now wall (a.buffer origin)).addKey key) <;>
    simp [addKey, h]

/-- An `add_key` changes the buffers and the pending batches only. -/
theorem addKey_settings (a : QueryBloomAggregator) (origin key : Bytes) (now : ℤ)
    (wall : ResetReadings) :
    ∃ buffers pending_batches,
      (a.addKey origin key now wall).1 = { a with buffers, pending_batches } := by
  unfold addKey
  dsimp only
  cases a.splitReason ((a.readyBuffer now wall (a.buffer origin)).addKey key) with
  | some reason => exact ⟨_, _, rfl⟩
  | none => exact ⟨_, a.pending_batches, rfl⟩

/-- The shape of the filters never changes. -/
theorem addKey_shape (a : QueryBloomAggregator) (origin key : Bytes) (now : ℤ)
    (wall : ResetReadings) :
    (a.addKey origin key now wall).1.bit_count = a.bit_count ∧
      (a.addKey origin key now wall).1.hash_count = a.hash_count := by
  obtain ⟨buffers, pending_batches, h⟩ := a.addKey_settings origin key now wall
  rw [h]
  exact ⟨rfl, rfl⟩

/-- The time to live never changes. -/
theorem addKey_ttl (a : QueryBloomAggregator) (origin key : Bytes) (now : ℤ)
    (wall : ResetReadings) : (a.addKey origin key now wall).1.ttl = a.ttl := by
  obtain ⟨buffers, pending_batches, h⟩ := a.addKey_settings origin key now wall
  rw [h]

/-- A default buffer never leaves. -/
theorem due_default (a : QueryBloomAggregator) (now : ℤ) : a.due now {} = false := rfl

/-- What a `flush_due` leaves in a buffer. -/
theorem buffer_flushDue (a : QueryBloomAggregator) (it : Iteration) (now : ℤ)
    (wall : Bytes → UInt64) (origin : Bytes) :
    (a.flushDue it now wall).1.buffer origin =
      if a.due now (a.buffer origin) then a.resetBuffer now (wall origin) else a.buffer origin := by
  have hlookup : (a.flushDue it now wall).1.buffers.lookup origin =
      (a.buffers.lookup origin).map fun b =>
        if a.due now b then a.resetBuffer now (wall origin) else b := lookup_mapValues _ _ _
  unfold buffer
  rw [hlookup]
  cases a.buffers.lookup origin with
  | some b => rfl
  | none => simp [due_default]

/-- A buffer that is due leaves as a batch. -/
theorem makeBatch_mem_flushDue {a : QueryBloomAggregator} {origin : Bytes} {now : ℤ}
    (h : a.due now (a.buffer origin) = true) (it : Iteration) (wall : Bytes → UInt64) :
    makeBatch origin (a.buffer origin) ∈ (a.flushDue it now wall).2 := by
  -- The buffer is one of the map, as the default one is never due.
  cases hlookup : a.buffers.lookup origin with
  | none =>
    have hdefault : a.buffer origin = {} := by rw [buffer, hlookup, Option.getD_none]
    rw [hdefault, due_default] at h
    exact absurd h Bool.false_ne_true
  | some b =>
    have hb : a.buffer origin = b := by rw [buffer, hlookup, Option.getD_some]
    rw [hb] at h ⊢
    have hleaves : ⟨origin, b⟩ ∈ (it.order a.buffers.entries).filter fun e => a.due now e.2 :=
      List.mem_filter.mpr ⟨it.mem_order.mpr (lookup_eq_some_iff.mp hlookup), h⟩
    exact List.mem_append_right _ (List.mem_map.mpr ⟨_, hleaves, rfl⟩)

/-- A buffer with keys is due once it is as old as the window. -/
theorem due_of_le {a : QueryBloomAggregator} {now : ℤ} {buffer : Buffer}
    (hdata : buffer.has_data = true)
    (hage : buffer.created_at + milliseconds a.aggregation_window ≤ now) :
    a.due now buffer = true := by
  simp only [due, hdata, Bool.true_and, Bool.not_eq_true', Bool.and_eq_false_iff,
    decide_eq_false_iff_not]
  right
  omega

/-- The first key of an origin is returned in a batch stamped with the reading of its reset. -/
theorem exists_flushed_of_addKey {a : QueryBloomAggregator} {origin : Bytes}
    (h : (a.buffer origin).created_ms = 0) (key : Bytes) (now : ℤ) (wall : ResetReadings) :
    ∃ late, ∀ it flush_wall, ∃ batch ∈ ((a.addKey origin key now wall).1.flushDue it late
      flush_wall).2, batch.created_ms = wall.unused := by
  have hready : a.readyBuffer now wall (a.buffer origin) = a.resetBuffer now wall.unused := by
    have hrestarts : a.Restarts now (a.buffer origin) := Or.inl h
    rw [readyBuffer_eq, if_pos hrestarts, ResetReadings.restart, if_pos h]
  have hbuffer := a.buffer_addKey_self origin key now wall
  have hpending := a.pending_addKey origin key now wall
  rw [hready] at hbuffer hpending
  refine ⟨now + milliseconds (a.addKey origin key now wall).1.aggregation_window,
    fun it flush_wall => ?_⟩
  cases hsplit : (a.addKey origin key now wall).2.split with
  | true =>
    rw [hsplit, if_pos rfl] at hpending
    refine ⟨makeBatch origin ((a.resetBuffer now wall.unused).addKey key),
      List.mem_append_left _ ?_, rfl⟩
    rw [hpending]
    exact List.mem_append_right _ (List.mem_singleton_self _)
  | false =>
    rw [hsplit, if_neg Bool.false_ne_true] at hbuffer
    have hdue : (a.addKey origin key now wall).1.due
        (now + milliseconds (a.addKey origin key now wall).1.aggregation_window)
        ((a.addKey origin key now wall).1.buffer origin) = true :=
      due_of_le (by rw [hbuffer]; rfl) (by rw [hbuffer]; exact Int.le_refl _)
    exact ⟨_, makeBatch_mem_flushDue hdue it flush_wall, by rw [hbuffer]; rfl⟩

/-! ## The batches of one origin -/

/-- A batch of an origin as the code makes it, with a filter of the aggregator's shape. -/
structure BatchOf (a : QueryBloomAggregator) (origin : Bytes) (batch : QueryBloomBatch) : Prop where
  /-- The origin. -/
  origin : batch.origin = origin
  /-- The id is made of the origin and the time of creation. -/
  batch_id : batch.batch_id = makeBatchId batch.origin batch.created_ms
  /-- The number of bits. -/
  bit_count : batch.filter.bit_count = a.bit_count
  /-- The number of hashes. -/
  hash_count : batch.filter.hash_count = a.hash_count

/-- All keys were collected for one origin. -/
structure Collects (a : QueryBloomAggregator) (origin : Bytes) : Prop where
  /-- The buffers in the map are the origin's, and in use. -/
  buffers : ∀ e ∈ a.buffers.entries, e.1 = origin ∧
    e.2.filter.bit_count = a.bit_count ∧ e.2.filter.hash_count = a.hash_count
  /-- The pending batches are the origin's. -/
  pending : ∀ batch ∈ a.pending_batches, a.BatchOf origin batch

/-- A fresh aggregator has collected nothing. -/
theorem collects_construct (bit_count hash_count : ℕ) (aggregation_window ttl : ℤ)
    (max_fill_ratio : ℚ) (max_keys : UInt64) (origin : Bytes) :
    (construct bit_count hash_count aggregation_window ttl max_fill_ratio max_keys).Collects
      origin where
  buffers _ h := absurd h List.not_mem_nil
  pending _ h := absurd h List.not_mem_nil

/-- The batch of a buffer in use. -/
theorem batchOf_makeBatch {a : QueryBloomAggregator} (origin : Bytes) {buffer : Buffer}
    (hbits : buffer.filter.bit_count = a.bit_count)
    (hhashes : buffer.filter.hash_count = a.hash_count) :
    a.BatchOf origin (makeBatch origin buffer) :=
  ⟨rfl, rfl, hbits, hhashes⟩

/-- The buffer that a key joins is in use. -/
theorem Collects.readyBuffer_shape {a : QueryBloomAggregator} {origin : Bytes}
    (h : a.Collects origin) (now : ℤ) (wall : ResetReadings) :
    (a.readyBuffer now wall (a.buffer origin)).filter.bit_count = a.bit_count ∧
      (a.readyBuffer now wall (a.buffer origin)).filter.hash_count = a.hash_count := by
  rw [readyBuffer_eq]
  split_ifs with hrestarts
  · exact ⟨rfl, rfl⟩
  · -- A buffer that is not reset was in the map before.
    cases hlookup : a.buffers.lookup origin with
    | none => exact absurd (Or.inl (by simp [buffer, hlookup])) hrestarts
    | some b =>
      rw [buffer, hlookup]
      exact (h.buffers ⟨origin, b⟩ (lookup_eq_some_iff.mp hlookup)).2

/-- An entry of a map after an insertion: the new one, or an old one. -/
theorem mem_entries_insert {m : UnorderedMap Bytes Buffer} {k : Bytes} {b : Buffer}
    {e : Σ _ : Bytes, Buffer} (h : e ∈ (m.insert k b).entries) :
    e = ⟨k, b⟩ ∨ e ∈ m.entries := by
  rw [AList.entries_insert] at h
  rcases List.mem_cons.mp h with rfl | h
  · exact Or.inl rfl
  · exact Or.inr ((List.kerase_sublist _ _).subset h)

/-- A key of the origin is collected. -/
theorem Collects.addKey {a : QueryBloomAggregator} {origin : Bytes} (h : a.Collects origin)
    (key : Bytes) (now : ℤ) (wall : ResetReadings) :
    (a.addKey origin key now wall).1.Collects origin := by
  obtain ⟨hbits, hhashes⟩ := h.readyBuffer_shape now wall
  have hjoined : ((a.readyBuffer now wall (a.buffer origin)).addKey key).filter.bit_count =
      a.bit_count ∧ ((a.readyBuffer now wall (a.buffer origin)).addKey key).filter.hash_count =
        a.hash_count := by
    simp [Buffer.addKey, hbits, hhashes]
  cases hsplit : a.splitReason ((a.readyBuffer now wall (a.buffer origin)).addKey key) with
  | some reason =>
    simp only [QueryBloomAggregator.addKey, hsplit]
    refine ⟨fun e he => ?_, fun batch hbatch => ?_⟩
    · rcases mem_entries_insert he with rfl | he
      · exact ⟨rfl, rfl, rfl⟩
      · exact h.buffers e he
    · rcases List.mem_append.mp hbatch with hbatch | hbatch
      · obtain ⟨ho, hid, hb, hh⟩ := h.pending batch hbatch
        exact ⟨ho, hid, hb, hh⟩
      · obtain rfl := List.mem_singleton.mp hbatch
        exact ⟨rfl, rfl, hjoined.1, hjoined.2⟩
  | none =>
    simp only [QueryBloomAggregator.addKey, hsplit]
    refine ⟨fun e he => ?_, fun batch hbatch => ?_⟩
    · rcases mem_entries_insert he with rfl | he
      · exact ⟨rfl, hjoined⟩
      · exact h.buffers e he
    · obtain ⟨ho, hid, hb, hh⟩ := h.pending batch hbatch
      exact ⟨ho, hid, hb, hh⟩

/-- A flush leaves the buffers of the origin. -/
theorem Collects.flushDue {a : QueryBloomAggregator} {origin : Bytes} (h : a.Collects origin)
    (it : Iteration) (now : ℤ) (wall : Bytes → UInt64) :
    (a.flushDue it now wall).1.Collects origin := by
  refine ⟨fun e he => ?_, fun batch hbatch => absurd hbatch List.not_mem_nil⟩
  obtain ⟨e', he', rfl⟩ := List.mem_map.mp he
  refine ⟨(h.buffers e' he').1, ?_⟩
  dsimp only
  split_ifs
  · exact ⟨rfl, rfl⟩
  · exact (h.buffers e' he').2

/-- The batches that a flush returns are the origin's. -/
theorem Collects.batchOf_of_flushDue {a : QueryBloomAggregator} {origin : Bytes}
    (h : a.Collects origin) (it : Iteration) (now : ℤ) (wall : Bytes → UInt64)
    {batch : QueryBloomBatch} (hbatch : batch ∈ (a.flushDue it now wall).2) :
    a.BatchOf origin batch := by
  rcases List.mem_append.mp hbatch with hbatch | hbatch
  · exact h.pending batch hbatch
  · obtain ⟨e, he, rfl⟩ := List.mem_map.mp hbatch
    obtain ⟨horigin, hbits, hhashes⟩ := h.buffers e (it.mem_order.mp (List.mem_filter.mp he).1)
    rw [horigin]
    exact batchOf_makeBatch origin hbits hhashes

end QueryBloomAggregator

end Netos
