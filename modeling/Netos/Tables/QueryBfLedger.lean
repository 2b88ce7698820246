import Netos.Lib.Machine
import Netos.Tables.QueryBfAggregator

/-!
# Where the keys of the aggregator are

The runs of a `QueryBloomAggregator` with a ledger beside it, which says which calls of `add_key` a
live buffer, a pending batch or a returned batch is made of: a call joins the buffer of its origin,
a split or a flush turns the buffer into a batch, and a reset of `add_key` empties the buffer.
`Matches` says that the ledger is right: every filter is the empty filter with the keys of its calls
added, and every key count is their number.

`keys_accounted_iff` says when no accepted key is lost: when no `add_key` finds keys in a buffer
that it resets. `batch_clock_of_guarded` says when a batch's clock starts with its first key: when a
first key never joins a buffer whose clock is running since an earlier reset.
-/

namespace Netos.QueryBfLedger

open CString Cxx QueryBloomAggregator

/-- A call of `add_key`. -/
structure AddCall where
  /-- The origin of the key. -/
  origin : Bytes
  /-- The key. -/
  key : Bytes
  /-- The steady clock. -/
  now : ℤ
  /-- The system clock at the resets. -/
  wall : ResetReadings
deriving DecidableEq

/-- The call reads the system clock so when it resets a buffer before its key joins it. -/
def AddCall.Reads (call : AddCall) (ms : UInt64) : Prop :=
  ms = call.wall.unused ∨ ms = call.wall.outlived

/-- What the call reads at a reset before its key joins the buffer. -/
theorem AddCall.reads_restart (call : AddCall) (buffer : Buffer) :
    call.Reads (call.wall.restart buffer) := by
  unfold AddCall.Reads ResetReadings.restart
  split_ifs
  · exact Or.inl rfl
  · exact Or.inr rfl

/-- A batch with the calls it is made of. -/
structure Shipment where
  /-- The batch. -/
  batch : QueryBloomBatch
  /-- The calls whose keys are in it, in their order. -/
  calls : List AddCall

/-- A batch that `flush_due` returned. -/
structure Returned extends Shipment where
  /-- A threshold split it off. -/
  split : Bool
  /-- The steady clock of the call that returned it. -/
  returned_at : ℤ

/-- What is done to an aggregator, with the clock readings. -/
inductive Call where
  /-- `add_key`. -/
  | addKey (call : AddCall)
  /-- `flush_due`, with the order in which it visits the buffers and the system clock at the reset
  of the buffer of an origin. -/
  | flushDue (it : Iteration) (now : ℤ) (wall : Bytes → UInt64)

/-- The steady clock of a call. -/
def Call.now : Call → ℤ
  | .addKey call => call.now
  | .flushDue _ now _ => now

/-- The aggregator and the ledger. -/
structure State where
  /-- The aggregator of the code. -/
  aggregator : QueryBloomAggregator
  /-- The calls whose keys are in the live buffer of an origin. -/
  live : Bytes → List AddCall
  /-- The calls of the pending batches. -/
  pending : List Shipment
  /-- The batches returned so far. -/
  returned : List Returned
  /-- The batches that the calls of `flush_due` returned, one call after the other. -/
  output : List QueryBloomBatch
  /-- The calls of `add_key` that returned `accepted`, in their order. -/
  accepted : List AddCall
  /-- The last reading of the steady clock. -/
  clock : ℤ

/-- A fresh aggregator. -/
def State.init (aggregator : QueryBloomAggregator) (clock : ℤ) : State :=
  ⟨aggregator, fun _ => [], [], [], [], [], clock⟩

/-- The calls in the buffer that a call's key has joined, before a split. -/
def joined (s : State) (call : AddCall) : List AddCall :=
  if s.aggregator.Restarts call.now (s.aggregator.buffer call.origin) then [call]
  else s.live call.origin ++ [call]

/-- `add_key` with its entry in the ledger. -/
def addKey (s : State) (call : AddCall) : State :=
  let buffer := (s.aggregator.readyBuffer call.now call.wall
    (s.aggregator.buffer call.origin)).addKey call.key
  let (aggregator, result) := s.aggregator.addKey call.origin call.key call.now call.wall
  { s with
    aggregator
    live := Function.update s.live call.origin (if result.split then [] else joined s call)
    pending := if result.split then s.pending ++ [⟨makeBatch call.origin buffer, joined s call⟩]
      else s.pending
    accepted := if result.accepted then s.accepted ++ [call] else s.accepted
    clock := call.now }

/-- `flush_due` with its entries in the ledger. -/
def flushDue (s : State) (it : Iteration) (now : ℤ) (wall : Bytes → UInt64) : State :=
  let leaving := (it.order s.aggregator.buffers.entries).filter fun e => s.aggregator.due now e.2
  let (aggregator, batches) := s.aggregator.flushDue it now wall
  { s with
    aggregator
    output := s.output ++ batches
    live := fun origin => if s.aggregator.due now (s.aggregator.buffer origin) then []
      else s.live origin
    pending := []
    returned := s.returned ++ s.pending.map (fun p => ⟨p, true, now⟩) ++
      leaving.map fun e => ⟨⟨makeBatch e.1 e.2, s.live e.1⟩, false, now⟩
    clock := now }

/-- One call. -/
def step (s : State) : Call → Option State
  | .addKey call => some (addKey s call)
  | .flushDue it now wall => some (flushDue s it now wall)

/-! ## The ledger is right -/

/-- The empty filter with the keys of the calls added. -/
def filterOf (bit_count hash_count : ℕ) (calls : List AddCall) : BloomFilter :=
  calls.foldl (fun f call => f.add call.key) (.construct bit_count hash_count)

/-- It is the filter of their keys. -/
theorem filterOf_eq_ofValues (bit_count hash_count : ℕ) (calls : List AddCall) :
    filterOf bit_count hash_count calls =
      BloomFilter.ofValues bit_count hash_count (calls.map AddCall.key) := by
  rw [filterOf, BloomFilter.ofValues, List.foldl_map]

/-- A batch is made of the calls. -/
structure MadeOf (bit_count hash_count : ℕ) (batch : QueryBloomBatch) (calls : List AddCall) :
    Prop where
  /-- There is a call. -/
  ne_nil : calls ≠ []
  /-- The calls are of the batch's origin. -/
  origin : ∀ call ∈ calls, call.origin = batch.origin
  /-- The filter holds their keys. -/
  filter : batch.filter = filterOf bit_count hash_count calls
  /-- The count is their number, in 64 bits. -/
  key_count : batch.key_count = UInt64.ofNat calls.length

/-- A live buffer holds the keys of the calls. -/
structure BufferOf (bit_count hash_count : ℕ) (origin : Bytes) (buffer : Buffer)
    (calls : List AddCall) : Prop where
  /-- The flag says whether there is a call. -/
  has_data : buffer.has_data = true ↔ calls ≠ []
  /-- The calls are of the buffer's origin. -/
  origin : ∀ call ∈ calls, call.origin = origin
  /-- The filter of a buffer in use holds their keys. -/
  filter : calls ≠ [] ∨ buffer.created_ms ≠ 0 → buffer.filter = filterOf bit_count hash_count calls
  /-- The count is their number, in 64 bits. -/
  key_count : buffer.key_count = UInt64.ofNat calls.length

/-- The ledger agrees with the aggregator. -/
structure Matches (bit_count hash_count : ℕ) (s : State) : Prop where
  /-- The shape of the filters stays. -/
  shape : s.aggregator.bit_count = bit_count ∧ s.aggregator.hash_count = hash_count
  /-- The live buffers. -/
  live : ∀ origin, BufferOf bit_count hash_count origin (s.aggregator.buffer origin) (s.live origin)
  /-- The pending batches are those of the aggregator. -/
  pending_eq : s.aggregator.pending_batches = s.pending.map Shipment.batch
  /-- The pending batches. -/
  pending : ∀ p ∈ s.pending, MadeOf bit_count hash_count p.batch p.calls
  /-- The returned batches are those of the calls of `flush_due`. -/
  output_eq : s.output = s.returned.map fun r => r.batch
  /-- The returned batches. -/
  returned : ∀ r ∈ s.returned, MadeOf bit_count hash_count r.batch r.calls

variable {bit_count hash_count : ℕ}

/-- A buffer just reset holds nothing. -/
theorem bufferOf_resetBuffer (a : QueryBloomAggregator) (origin : Bytes) (now : ℤ) (wall : UInt64) :
    BufferOf a.bit_count a.hash_count origin (a.resetBuffer now wall) [] where
  has_data := by simp [resetBuffer]
  origin call h := absurd h List.not_mem_nil
  filter _ := rfl
  key_count := rfl

/-- A default buffer holds nothing. -/
theorem bufferOf_default (origin : Bytes) : BufferOf bit_count hash_count origin {} [] where
  has_data := by simp
  origin call h := absurd h List.not_mem_nil
  filter h := by simp at h
  key_count := rfl

/-- A key goes into a buffer in use. -/
theorem BufferOf.addKey {buffer : Buffer} {calls : List AddCall} {call : AddCall}
    (h : BufferOf bit_count hash_count call.origin buffer calls)
    (hfilter : buffer.filter = filterOf bit_count hash_count calls) :
    BufferOf bit_count hash_count call.origin (buffer.addKey call.key) (calls ++ [call]) where
  has_data := by simp [Buffer.addKey]
  origin c hc := by
    rcases List.mem_append.mp hc with hc | hc
    · exact h.origin c hc
    · rw [List.mem_singleton.mp hc]
  filter _ := by simp [Buffer.addKey, hfilter, filterOf]
  key_count := by
    rw [Buffer.addKey, h.key_count, List.length_append, List.length_singleton, UInt64.ofNat_add]
    rfl

/-- A buffer of the aggregator that was just reset holds nothing. -/
theorem Matches.bufferOf_reset {s : State} (h : Matches bit_count hash_count s) (origin : Bytes)
    (now : ℤ) (wall : UInt64) :
    BufferOf bit_count hash_count origin (s.aggregator.resetBuffer now wall) [] := by
  have hreset := bufferOf_resetBuffer s.aggregator origin now wall
  rwa [h.shape.1, h.shape.2] at hreset

/-- What a buffer holds after a call's key joined it. -/
theorem Matches.joined {s : State} (h : Matches bit_count hash_count s) (call : AddCall) :
    BufferOf bit_count hash_count call.origin
      ((s.aggregator.readyBuffer call.now call.wall (s.aggregator.buffer call.origin)).addKey
        call.key) (joined s call) := by
  rw [readyBuffer_eq, QueryBfLedger.joined]
  split_ifs with hrestarts
  · -- The key is the first of a fresh buffer.
    have hreset := h.bufferOf_reset call.origin call.now
      (call.wall.restart (s.aggregator.buffer call.origin))
    have hempty : (s.aggregator.resetBuffer call.now
        (call.wall.restart (s.aggregator.buffer call.origin))).filter =
          filterOf bit_count hash_count [] := by simp [resetBuffer, filterOf, h.shape]
    exact hreset.addKey hempty
  · -- The buffer is in use, so its filter is that of its calls.
    have hused : (s.aggregator.buffer call.origin).created_ms ≠ 0 := by simp_all [Restarts]
    exact (h.live call.origin).addKey ((h.live call.origin).filter (Or.inr hused))

/-- The joined buffer has a call. -/
theorem joined_ne_nil (s : State) (call : AddCall) : joined s call ≠ [] := by
  unfold joined
  split_ifs <;> simp

/-- A pending batch after an `add_key` was pending before, or is made from the joined buffer. -/
theorem mem_pending_addKey {s : State} {call : AddCall} {p : Shipment}
    (hp : p ∈ (addKey s call).pending) :
    p ∈ s.pending ∨ p = ⟨makeBatch call.origin ((s.aggregator.readyBuffer call.now call.wall
      (s.aggregator.buffer call.origin)).addKey call.key), joined s call⟩ := by
  unfold addKey at hp
  dsimp only at hp
  split_ifs at hp with hsplit
  · exact (List.mem_append.mp hp).imp_right List.mem_singleton.mp
  · exact Or.inl hp

/-- A batch made from a buffer is made of its calls. -/
theorem BufferOf.makeBatch {origin : Bytes} {buffer : Buffer} {calls : List AddCall}
    (h : BufferOf bit_count hash_count origin buffer calls) (hne : calls ≠ []) :
    MadeOf bit_count hash_count (makeBatch origin buffer) calls :=
  ⟨hne, h.origin, h.filter (Or.inl hne), h.key_count⟩

/-- `add_key` keeps the ledger right. -/
theorem Matches.addKey {s : State} (h : Matches bit_count hash_count s) (call : AddCall) :
    Matches bit_count hash_count (addKey s call) := by
  have hjoined := h.joined call
  have hshape := addKey_shape s.aggregator call.origin call.key call.now call.wall
  refine ⟨⟨hshape.1.trans h.shape.1, hshape.2.trans h.shape.2⟩, fun origin => ?_, ?_, ?_,
    h.output_eq, h.returned⟩
  · -- Only the buffer of the call's origin changes.
    by_cases horigin : origin = call.origin
    · subst horigin
      simp only [QueryBfLedger.addKey, buffer_addKey_self, Function.update_self]
      split_ifs with hsplit
      · -- A split leaves an empty buffer.
        exact h.bufferOf_reset call.origin call.now call.wall.split
      · exact hjoined
    · simp only [QueryBfLedger.addKey, buffer_addKey_of_ne _ horigin,
        Function.update_of_ne horigin]
      exact h.live origin
  · simp only [QueryBfLedger.addKey, pending_addKey, h.pending_eq]
    split_ifs <;> simp
  · intro p hp
    rcases mem_pending_addKey hp with hp | rfl
    · exact h.pending p hp
    · exact hjoined.makeBatch (joined_ne_nil s call)

/-- A buffer that leaves has a call. -/
theorem Matches.live_ne_nil_of_due {s : State} (h : Matches bit_count hash_count s) {now : ℤ}
    {origin : Bytes} (hdue : s.aggregator.due now (s.aggregator.buffer origin) = true) :
    s.live origin ≠ [] := by
  simp only [due, Bool.and_eq_true] at hdue
  exact (h.live origin).has_data.mp hdue.1

/-- The buffer under an entry of the map. -/
theorem buffer_of_mem (a : QueryBloomAggregator) {e : Σ _ : Bytes, Buffer}
    (h : e ∈ a.buffers.entries) : a.buffer e.1 = e.2 := by
  rw [buffer, lookup_eq_some_iff.mpr h]
  rfl

/-- What a flush returns is a pending batch, or a buffer that leaves. -/
theorem mem_returned_flushDue {s : State} {it : Iteration} {now : ℤ} {wall : Bytes → UInt64}
    {r : Returned} (hr : r ∈ (flushDue s it now wall).returned) :
    r ∈ s.returned ∨ (∃ p ∈ s.pending, r = ⟨p, true, now⟩) ∨
      ∃ origin, s.aggregator.due now (s.aggregator.buffer origin) = true ∧
        r = ⟨⟨makeBatch origin (s.aggregator.buffer origin), s.live origin⟩, false, now⟩ := by
  simp only [flushDue, List.mem_append, List.mem_map, List.mem_filter] at hr
  rcases hr with (hr | ⟨p, hp, rfl⟩) | ⟨e, ⟨he, hdue⟩, rfl⟩
  · exact Or.inl hr
  · exact Or.inr (Or.inl ⟨p, hp, rfl⟩)
  · have hbuffer := buffer_of_mem s.aggregator (it.mem_order.mp he)
    rw [← hbuffer] at hdue ⊢
    exact Or.inr (Or.inr ⟨e.1, hdue, rfl⟩)

/-- `flush_due` keeps the ledger right. -/
theorem Matches.flushDue {s : State} (h : Matches bit_count hash_count s) (it : Iteration)
    (now : ℤ) (wall : Bytes → UInt64) : Matches bit_count hash_count (flushDue s it now wall) := by
  refine ⟨h.shape, fun origin => ?_, rfl, fun p hp => absurd hp List.not_mem_nil, ?_,
    fun r hr => ?_⟩
  · simp only [QueryBfLedger.flushDue, buffer_flushDue]
    split_ifs with hdue
    · -- So does a flush of a buffer that leaves.
      exact h.bufferOf_reset origin now (wall origin)
    · exact h.live origin
  · simp [QueryBfLedger.flushDue, QueryBloomAggregator.flushDue, h.output_eq, h.pending_eq,
      Function.comp_def]
  · rcases mem_returned_flushDue hr with hr | ⟨p, hp, rfl⟩ | ⟨origin, hdue, rfl⟩
    · exact h.returned r hr
    · exact h.pending p hp
    · exact (h.live origin).makeBatch (h.live_ne_nil_of_due hdue)

/-- Every call keeps the ledger right. -/
theorem Matches.step {s s' : State} {call : Call} (h : Matches bit_count hash_count s)
    (hstep : step s call = some s') : Matches bit_count hash_count s' := by
  cases call with
  | addKey call =>
    obtain rfl := Option.some.inj hstep
    exact h.addKey call
  | flushDue it now wall =>
    obtain rfl := Option.some.inj hstep
    exact h.flushDue it now wall

/-- Every call is possible. -/
theorem step_total (s : State) (call : Call) : ∃ s', step s call = some s' := by
  cases call with
  | addKey call => exact ⟨addKey s call, rfl⟩
  | flushDue it now wall => exact ⟨flushDue s it now wall, rfl⟩

/-- The ledger of a fresh aggregator is right. -/
theorem matches_init (window ttl : ℤ) (max_fill_ratio : ℚ) (max_keys : UInt64) (clock : ℤ) :
    Matches bit_count hash_count
      (State.init (construct bit_count hash_count window ttl max_fill_ratio max_keys) clock) where
  shape := ⟨rfl, rfl⟩
  live origin := bufferOf_default origin
  pending_eq := rfl
  pending _ hp := absurd hp List.not_mem_nil
  output_eq := rfl
  returned _ hr := absurd hr List.not_mem_nil

/-! ## No accepted key is lost -/

/-- The calls for an origin that batches, returned or pending, are made of. -/
def batched (s : State) (origin : Bytes) : List AddCall :=
  (s.returned.filter fun r => r.batch.origin = origin).flatMap (fun r => r.calls) ++
    (s.pending.filter fun p => p.batch.origin = origin).flatMap fun p => p.calls

/-- The calls for an origin that the returned batches, the pending batches and the live buffer are
made of. -/
def contents (s : State) (origin : Bytes) : List AddCall := batched s origin ++ s.live origin

/-- The accepted calls for an origin. -/
def acceptedFor (s : State) (origin : Bytes) : List AddCall :=
  s.accepted.filter fun call => call.origin = origin

/-- Every accepted call is accounted for exactly once, and what accounts for it holds its key. -/
structure Accounted (bit_count hash_count : ℕ) (s : State) : Prop where
  /-- The containers are made of the calls that the ledger names. -/
  right : Matches bit_count hash_count s
  /-- The ledger names every accepted call once. -/
  once : ∀ origin, (contents s origin).Perm (acceptedFor s origin)

/-- The condition of a call: it does not reset a buffer that holds keys. -/
def KeepsKeys (s : State) : Call → Prop
  | .addKey call =>
    (s.aggregator.buffer call.origin).has_data = true →
      ¬ s.aggregator.Restarts call.now (s.aggregator.buffer call.origin)
  | .flushDue _ _ _ => True

/-- The calls for an origin that each batch is made of: the returned batches, then the pending
ones. -/
def batchRuns (s : State) (origin : Bytes) : List (List AddCall) :=
  (s.returned.filter fun r => r.batch.origin = origin).map (fun r => r.calls) ++
    (s.pending.filter fun p => p.batch.origin = origin).map fun p => p.calls

/-- The calls that batches are made of, run by run. -/
theorem batched_eq (s : State) (origin : Bytes) :
    batched s origin = (batchRuns s origin).flatten := by
  unfold batched batchRuns
  rw [List.flatten_append, ← List.flatMap_def, ← List.flatMap_def]

/-- The runs of the batches, and the live one. -/
theorem contents_eq (s : State) (origin : Bytes) :
    contents s origin = (batchRuns s origin).flatten ++ s.live origin := by
  rw [contents, batched_eq]

/-- After an `add_key`, its origin has the batches it had, and the joined buffer if that was
split off. -/
theorem batchRuns_addKey_self (s : State) (call : AddCall) :
    batchRuns (addKey s call) call.origin = batchRuns s call.origin ++
      if (s.aggregator.addKey call.origin call.key call.now call.wall).2.split then
        [joined s call]
      else [] := by
  unfold batchRuns addKey
  dsimp only
  split_ifs with hsplit
  · simp [makeBatch]
  · rw [List.append_nil]

/-- An `add_key` leaves the batches of other origins. -/
theorem batchRuns_addKey_of_ne (s : State) (call : AddCall) {origin : Bytes}
    (h : origin ≠ call.origin) : batchRuns (addKey s call) origin = batchRuns s origin := by
  unfold batchRuns addKey
  dsimp only
  split_ifs with hsplit
  · simp [makeBatch, Ne.symm h]
  · rfl

/-- The buffers of one origin that leave: its buffer if that is due. -/
theorem leaving_filter (a : QueryBloomAggregator) (it : Iteration) (now : ℤ) (origin : Bytes) :
    ((it.order a.buffers.entries).filter fun e => a.due now e.2).filter (fun e => e.1 = origin) =
      if a.due now (a.buffer origin) then [⟨origin, a.buffer origin⟩] else [] := by
  rw [List.filter_comm, filter_order_entries, buffer]
  cases a.buffers.lookup origin with
  | none => rfl
  | some b => simp [List.filter_cons]

/-- After a flush, every origin has the batches it had, and its buffer if that was due. -/
theorem batchRuns_flushDue (s : State) (it : Iteration) (now : ℤ) (wall : Bytes → UInt64)
    (origin : Bytes) :
    batchRuns (flushDue s it now wall) origin = batchRuns s origin ++
      if s.aggregator.due now (s.aggregator.buffer origin) then [s.live origin] else [] := by
  have hpending : ((s.pending.map fun p => (⟨p, true, now⟩ : Returned)).filter
      fun r => r.batch.origin = origin).map (fun r => r.calls) =
        (s.pending.filter fun p => p.batch.origin = origin).map fun p => p.calls := by
    rw [List.filter_map, List.map_map]
    rfl
  have hleaving : ((((it.order s.aggregator.buffers.entries).filter fun e =>
      s.aggregator.due now e.2).map fun e =>
        (⟨⟨makeBatch e.1 e.2, s.live e.1⟩, false, now⟩ : Returned)).filter
          fun r => r.batch.origin = origin).map (fun r => r.calls) =
            if s.aggregator.due now (s.aggregator.buffer origin) then [s.live origin] else [] := by
    rw [List.filter_map, List.map_map]
    have hfilter := leaving_filter s.aggregator it now origin
    simp only [Function.comp_def, makeBatch]
    rw [hfilter]
    split_ifs <;> simp
  simp only [batchRuns, flushDue, List.filter_append, List.map_append, hpending, hleaving,
    List.filter_nil, List.map_nil, List.append_nil]

/-- After an `add_key`, its origin has what was in batches and the joined buffer. -/
theorem contents_addKey_self (s : State) (call : AddCall) :
    contents (addKey s call) call.origin = batched s call.origin ++ joined s call := by
  rw [contents_eq, batchRuns_addKey_self, batched_eq, List.flatten_append, List.append_assoc]
  unfold addKey
  dsimp only
  rw [Function.update_self]
  split_ifs with hsplit
  · simp
  · simp

/-- An `add_key` leaves the contents of other origins. -/
theorem contents_addKey_of_ne (s : State) (call : AddCall) {origin : Bytes}
    (h : origin ≠ call.origin) : contents (addKey s call) origin = contents s origin := by
  rw [contents_eq, contents_eq, batchRuns_addKey_of_ne s call h]
  congr 1
  exact Function.update_of_ne h _ _

/-- A flush leaves the contents of every origin: what leaves the live buffer is in a batch. -/
theorem contents_flushDue (s : State) (it : Iteration) (now : ℤ) (wall : Bytes → UInt64)
    (origin : Bytes) : contents (flushDue s it now wall) origin = contents s origin := by
  rw [contents_eq, contents_eq, batchRuns_flushDue, List.flatten_append, List.append_assoc]
  unfold flushDue
  dsimp only
  split_ifs with hdue
  · simp
  · simp

/-- The accepted calls for the origin of an `add_key`. -/
theorem acceptedFor_addKey_self (s : State) (call : AddCall) :
    acceptedFor (addKey s call) call.origin = acceptedFor s call.origin ++ [call] := by
  simp [acceptedFor, addKey, accepted_addKey]

/-- The accepted calls for another origin. -/
theorem acceptedFor_addKey_of_ne (s : State) (call : AddCall) {origin : Bytes}
    (h : origin ≠ call.origin) : acceptedFor (addKey s call) origin = acceptedFor s origin := by
  simp [acceptedFor, addKey, accepted_addKey, Ne.symm h]

/-- Every accepted call is accounted for after a call exactly when the call keeps the keys. -/
theorem accounted_step_iff {s s' : State} {call : Call}
    (h : Accounted bit_count hash_count s) (hstep : step s call = some s') :
    Accounted bit_count hash_count s' ↔ KeepsKeys s call := by
  have hright : Matches bit_count hash_count s' := h.right.step hstep
  cases call with
  | flushDue it now wall =>
    obtain rfl := Option.some.inj hstep
    refine iff_of_true ⟨hright, fun origin => ?_⟩ trivial
    rw [contents_flushDue]
    exact h.once origin
  | addKey call =>
    obtain rfl := Option.some.inj hstep
    have hself := acceptedFor_addKey_self s call
    have hlive := (h.right.live call.origin).has_data
    constructor
    · -- A reset of keys leaves fewer calls than were accepted.
      intro h' hdata hrestarts
      have hlength := (h'.once call.origin).length_eq
      have hbefore := (h.once call.origin).length_eq
      have hpos : 0 < (s.live call.origin).length := List.length_pos_of_ne_nil (hlive.mp hdata)
      rw [contents_addKey_self, hself, joined, if_pos hrestarts] at hlength
      simp only [contents, List.length_append, List.length_singleton] at hlength hbefore
      omega
    · intro hkeeps
      refine ⟨hright, fun origin => ?_⟩
      by_cases horigin : origin = call.origin
      · subst horigin
        have hjoined : joined s call = s.live call.origin ++ [call] := by
          unfold joined
          split_ifs with hrestarts
          · -- A buffer that restarts is empty.
            have hempty : s.live call.origin = [] := by
              by_contra hne
              exact hkeeps (hlive.mpr hne) hrestarts
            rw [hempty]
            rfl
          · rfl
        rw [contents_addKey_self, hself, hjoined, ← List.append_assoc]
        exact (h.once call.origin).append_right [call]
      · rw [contents_addKey_of_ne s call horigin, acceptedFor_addKey_of_ne s call horigin]
        exact h.once origin

/-- When no accepted key is lost. For every parameter setting and every sequence of calls, every
accepted call is accounted for exactly once in every state of the run, by the live buffer, by a
pending batch or by a returned one whose filter holds its key, if and only if no `add_key` resets a
buffer that holds keys. -/
theorem keys_accounted_iff (bit_count hash_count : ℕ) (window ttl : ℤ) (max_fill_ratio : ℚ)
    (max_keys : UInt64) (clock : ℤ) (calls : List Call) :
    Machine.Always step (Accounted bit_count hash_count)
        (State.init (construct bit_count hash_count window ttl max_fill_ratio max_keys) clock)
        calls ↔
      Machine.Guarded step KeepsKeys
        (State.init (construct bit_count hash_count window ttl max_fill_ratio max_keys) clock)
        calls := by
  have hinit : Accounted bit_count hash_count
      (State.init (construct bit_count hash_count window ttl max_fill_ratio max_keys) clock) :=
    ⟨matches_init window ttl max_fill_ratio max_keys clock, fun _ => List.Perm.refl []⟩
  refine Machine.always_iff_guarded (fun _ _ _ (_ : True) _ => trivial)
    (fun s call s' _ h hstep => accounted_step_iff h hstep) (fun s call hnone => ?_) trivial hinit
    calls
  obtain ⟨s', hstep⟩ := step_total s call
  exact absurd (hstep.symm.trans hnone) (Option.some_ne_none s')

/-- A call of `add_key` for the origin `A`, at the same time on both clocks, in milliseconds; its
resets are in one millisecond. -/
def addAt (key : String) (ms : ℕ) : Call :=
  .addKey ⟨ascii "A", ascii key, milliseconds ms, .same (UInt64.ofNat ms)⟩

/-- A flush, in the order of the container, at the same time on both clocks, in milliseconds; its
resets are in one millisecond. -/
def flushAt (ms : ℕ) : Call := .flushDue default (milliseconds ms) fun _ => UInt64.ofNat ms

/-- An aggregator with the default settings. -/
def defaultAggregator : QueryBloomAggregator := construct 1024 4 200 2000 (9 / 10) 0

/-- A key that joins a buffer shortly before it outlives `ttl` is lost with the next key. The buffer
was reset by the flush at 201 ms; the key of 2200 ms is in no filter after 2202 ms. -/
theorem key_before_ttl_is_lost :
    ∃ s, Machine.run step (State.init defaultAggregator 0)
        [addAt "k1" 1, flushAt 201, addAt "k2" 2200, addAt "k3" 2202] = some s ∧
      (acceptedFor s (ascii "A")).map AddCall.key = [ascii "k1", ascii "k2", ascii "k3"] ∧
      s.output.map QueryBloomBatch.key_count = [1] ∧ s.aggregator.pending_batches = [] ∧
      (s.aggregator.buffer (ascii "A")).key_count = 1 ∧ ¬ Accounted 1024 4 s := by
  refine ⟨_, rfl, by decide +kernel, by decide +kernel, by decide +kernel, by decide +kernel,
    fun h => ?_⟩
  have hlength := (h.once (ascii "A")).length_eq
  revert hlength
  decide +kernel

/-! ## The clock of a batch -/

/-- The condition of a call: when its key is the first of a buffer, the buffer's clock starts with
this call, because the call resets it or because it was reset at the same time. -/
def StartsClock (s : State) : Call → Prop
  | .addKey call =>
    (s.aggregator.buffer call.origin).has_data = false →
      s.aggregator.Restarts call.now (s.aggregator.buffer call.origin) ∨
        (s.aggregator.buffer call.origin).created_at = call.now ∧
          call.Reads (s.aggregator.buffer call.origin).created_ms
  | .flushDue _ _ _ => True

/-- Decidable, as the tests of the code and the comparisons are. -/
instance (s : State) : (call : Call) → Decidable (StartsClock s call)
  | .addKey _ => inferInstanceAs (Decidable (_ → _ ∨ _ ∧ (_ ∨ _)))
  | .flushDue _ _ _ => isTrue trivial

/-- The clock does not go back, and clocks start with first keys. -/
def Timely (s : State) (call : Call) : Prop := s.clock ≤ call.now ∧ StartsClock s call

/-- Decidable, as both parts are. -/
instance (s : State) (call : Call) : Decidable (Timely s call) :=
  inferInstanceAs (Decidable (_ ∧ _))

/-- A returned batch carries a reading of the system clock by its first call, and unless it was
split off it was not returned before the window since that call was over. -/
def ClockOfFirst (window : ℤ) (r : Returned) : Prop :=
  ∃ first rest, r.calls = first :: rest ∧ first.Reads r.batch.created_ms ∧
    (r.split = false → first.now + milliseconds window ≤ r.returned_at)

/-- The clocks of the buffers and batches are those of their first calls. -/
structure Clocked (bit_count hash_count : ℕ) (window : ℤ) (s : State) : Prop where
  /-- The ledger is right. -/
  right : Matches bit_count hash_count s
  /-- The window stays. -/
  window_eq : s.aggregator.aggregation_window = window
  /-- A live buffer was reset when its first call was made, and that is past. -/
  live : ∀ origin first, (s.live origin).head? = some first →
    (s.aggregator.buffer origin).created_at = first.now ∧
      first.Reads (s.aggregator.buffer origin).created_ms ∧ first.now ≤ s.clock
  /-- A pending batch carries the system clock of its first call. -/
  pending : ∀ p ∈ s.pending, ∀ first, p.calls.head? = some first → first.Reads p.batch.created_ms
  /-- The returned batches. -/
  returned : ∀ r ∈ s.returned, ClockOfFirst window r

variable {window : ℤ}

/-- The joined buffer was reset when its first call was made. -/
theorem joined_clock {s : State} (h : Clocked bit_count hash_count window s)
    {call : AddCall} (htimely : Timely s (.addKey call)) {first : AddCall}
    (hfirst : (joined s call).head? = some first) :
    let buffer := s.aggregator.readyBuffer call.now call.wall (s.aggregator.buffer call.origin)
    buffer.created_at = first.now ∧ first.Reads buffer.created_ms ∧ first.now ≤ call.now := by
  simp only [readyBuffer_eq]
  unfold joined at hfirst
  split_ifs at hfirst ⊢ with hrestarts
  · -- The call resets the buffer, and its key is the first.
    obtain rfl : call = first := by simpa using hfirst
    exact ⟨rfl, call.reads_restart _, le_refl _⟩
  · cases hlive : s.live call.origin with
    | nil =>
      -- The key is the first of a buffer that was reset before: at the same time.
      obtain rfl : call = first := by simpa [hlive] using hfirst
      have hdata : (s.aggregator.buffer call.origin).has_data = false := by
        have := (h.right.live call.origin).has_data
        simpa [hlive] using this
      obtain ⟨hnow, hwall⟩ := (htimely.2 hdata).resolve_left hrestarts
      exact ⟨hnow, hwall, le_refl _⟩
    | cons c rest =>
      obtain rfl : c = first := by simpa [hlive] using hfirst
      obtain ⟨hnow, hwall, hpast⟩ := h.live call.origin c (by simp [hlive])
      exact ⟨hnow, hwall, le_trans hpast htimely.1⟩

/-- The window of the aggregator never changes. -/
theorem addKey_window (a : QueryBloomAggregator) (origin key : Bytes) (now : ℤ)
    (wall : ResetReadings) :
    (a.addKey origin key now wall).1.aggregation_window = a.aggregation_window := by
  obtain ⟨buffers, pending_batches, h⟩ := a.addKey_settings origin key now wall
  rw [h]

/-- No call changes the window. -/
theorem step_window {s s' : State} {call : Call} (hstep : step s call = some s') :
    s'.aggregator.aggregation_window = s.aggregator.aggregation_window := by
  cases call with
  | addKey call =>
    obtain rfl := Option.some.inj hstep
    exact addKey_window _ _ _ _ _
  | flushDue it now wall =>
    obtain rfl := Option.some.inj hstep
    rfl

/-- A timely `add_key` keeps the clocks right. -/
theorem Clocked.addKey {s : State} (h : Clocked bit_count hash_count window s)
    {call : AddCall} (htimely : Timely s (.addKey call)) :
    Clocked bit_count hash_count window (addKey s call) := by
  refine ⟨h.right.addKey call, (addKey_window _ _ _ _ _).trans h.window_eq,
    fun origin first hfirst => ?_, fun p hp first hfirst => ?_, h.returned⟩
  · by_cases horigin : origin = call.origin
    · subst horigin
      simp only [QueryBfLedger.addKey, Function.update_self, buffer_addKey_self] at hfirst ⊢
      split_ifs at hfirst ⊢ with hsplit
      · exact absurd hfirst (by simp)
      · exact joined_clock h htimely hfirst
    · simp only [QueryBfLedger.addKey, Function.update_of_ne horigin,
        buffer_addKey_of_ne _ horigin] at hfirst ⊢
      obtain ⟨hnow, hwall, hpast⟩ := h.live origin first hfirst
      exact ⟨hnow, hwall, le_trans hpast htimely.1⟩
  · rcases mem_pending_addKey hp with hp | rfl
    · exact h.pending p hp first hfirst
    · exact (joined_clock h htimely hfirst).2.1

/-- A buffer that leaves is as old as the window, counted from its first call. -/
theorem Clocked.window_over {s : State} (h : Clocked bit_count hash_count window s) {now : ℤ}
    (hnow : s.clock ≤ now) {origin : Bytes} {first : AddCall}
    (hfirst : (s.live origin).head? = some first)
    (hdue : s.aggregator.due now (s.aggregator.buffer origin) = true) :
    first.now + milliseconds window ≤ now := by
  obtain ⟨hcreated, -, hpast⟩ := h.live origin first hfirst
  simp only [due, h.window_eq, hcreated, Bool.and_eq_true, Bool.not_eq_true', Bool.and_eq_false_iff,
    decide_eq_false_iff_not] at hdue
  simp only [milliseconds] at hdue ⊢
  omega

/-- A timely `flush_due` keeps the clocks right. -/
theorem Clocked.flushDue {s : State} (h : Clocked bit_count hash_count window s)
    {it : Iteration} {now : ℤ} {wall : Bytes → UInt64} (hnow : s.clock ≤ now) :
    Clocked bit_count hash_count window (flushDue s it now wall) := by
  refine ⟨h.right.flushDue it now wall, h.window_eq, fun origin first hfirst => ?_,
    fun p hp => absurd hp List.not_mem_nil, fun r hr => ?_⟩
  · simp only [QueryBfLedger.flushDue, buffer_flushDue] at hfirst ⊢
    split_ifs at hfirst ⊢ with hdue
    · exact absurd hfirst (by simp)
    · obtain ⟨hcreated, hwall, hpast⟩ := h.live origin first hfirst
      exact ⟨hcreated, hwall, le_trans hpast hnow⟩
  · rcases mem_returned_flushDue hr with hr | ⟨p, hp, rfl⟩ | ⟨origin, hdue, rfl⟩
    · exact h.returned r hr
    · -- A pending batch: it was split off, so only its stamp matters.
      obtain ⟨first, rest, hcalls⟩ := List.exists_cons_of_ne_nil (h.right.pending p hp).ne_nil
      exact ⟨first, rest, hcalls, h.pending p hp first (by simp [hcalls]), by simp⟩
    · -- A buffer that leaves.
      obtain ⟨first, rest, hcalls⟩ := List.exists_cons_of_ne_nil (h.right.live_ne_nil_of_due hdue)
      have hfirst : (s.live origin).head? = some first := by simp [hcalls]
      exact ⟨first, rest, hcalls, (h.live origin first hfirst).2.1,
        fun _ => h.window_over hnow hfirst hdue⟩

/-- Every timely call keeps the clocks right. -/
theorem Clocked.step {s s' : State} {call : Call} (h : Clocked bit_count hash_count window s)
    (htimely : Timely s call) (hstep : step s call = some s') :
    Clocked bit_count hash_count window s' := by
  cases call with
  | addKey call =>
    obtain rfl := Option.some.inj hstep
    exact h.addKey htimely
  | flushDue it now wall =>
    obtain rfl := Option.some.inj hstep
    exact h.flushDue htimely.1

/-- When a batch's clock starts with its first key. In every run at nondecreasing steady clock
readings in which no first key joins a buffer whose clock was started before, the ledger is right,
and every returned batch carries the system clock of its first call and, unless a threshold split it
off, was not returned before the window since that call was over. -/
theorem batch_clock_of_guarded (bit_count hash_count : ℕ) (window ttl : ℤ) (max_fill_ratio : ℚ)
    (max_keys : UInt64) (clock : ℤ) (calls : List Call) (s : State)
    (hrun : Machine.run step
      (State.init (construct bit_count hash_count window ttl max_fill_ratio max_keys) clock)
        calls = some s)
    (hguard : Machine.Guarded step Timely
      (State.init (construct bit_count hash_count window ttl max_fill_ratio max_keys) clock)
        calls) :
    Matches bit_count hash_count s ∧ ∀ r ∈ s.returned, ClockOfFirst window r := by
  have hinit : Clocked bit_count hash_count window
      (State.init (construct bit_count hash_count window ttl max_fill_ratio max_keys) clock) :=
    ⟨matches_init window ttl max_fill_ratio max_keys clock, rfl,
      fun _ _ h => absurd h (by simp [State.init]), fun _ h => absurd h List.not_mem_nil,
      fun _ h => absurd h List.not_mem_nil⟩
  have hinv : Clocked bit_count hash_count window s :=
    Machine.Guarded.invariant (fun _ _ _ h htimely hstep => h.step htimely hstep) hinit hguard hrun
  exact ⟨hinv.right, hinv.returned⟩

/-- The buffer that the flush at 201 ms left has outlived `ttl` when the key of 2300 ms comes, so
that key starts the clock of the second batch. -/
theorem batch_clock_of_guarded_two_batches :
    ∃ s, Machine.run step (State.init defaultAggregator 0)
        [addAt "k1" 1, flushAt 201, addAt "k2" 2300, addAt "k3" 2310, flushAt 2500] = some s ∧
      s.returned.map (fun r => (r.batch.created_ms, r.calls.map AddCall.key, r.split)) =
        [(1, [ascii "k1"], false), (2300, [ascii "k2", ascii "k3"], false)] ∧
      ∀ r ∈ s.returned, ClockOfFirst 200 r := by
  refine ⟨_, rfl, by decide +kernel,
    (batch_clock_of_guarded 1024 4 200 2000 (9 / 10) 0 0
      [addAt "k1" 1, flushAt 201, addAt "k2" 2300, addAt "k3" 2310, flushAt 2500] _ rfl
      (by decide +kernel)).2⟩

/-- The clock of a later batch starts with the flush before it. The key of 1200 ms is returned 50 ms
later, although the window is 200 ms, in a batch stamped 201. -/
theorem batch_clock_starts_at_flush :
    ∃ s, Machine.run step (State.init defaultAggregator 0)
        [addAt "k1" 1, flushAt 201, addAt "k2" 1200, flushAt 1250] = some s ∧
      s.returned.map (fun r => (r.batch.created_ms, r.calls.map AddCall.wall, r.split)) =
        [(1, [.same 1], false), (201, [.same 1200], false)] ∧
      s.returned.map Returned.returned_at = [milliseconds 201, milliseconds 1250] ∧
      ¬ ∀ r ∈ s.returned, ClockOfFirst 200 r := by
  refine ⟨_, rfl, by decide +kernel, by decide +kernel, fun h => ?_⟩
  obtain ⟨first, rest, hcalls, hstamp, -⟩ := h _ (List.getElem_mem (n := 1) (by decide +kernel))
  -- The first call of the second batch reads 1200 only, and the batch is stamped 201.
  have hunused := congrArg (fun calls => calls.head?.map fun c => c.wall.unused) hcalls
  have houtlived := congrArg (fun calls => calls.head?.map fun c => c.wall.outlived) hcalls
  rcases hstamp with hstamp | hstamp
  · rw [List.head?_cons, Option.map_some, ← hstamp] at hunused
    revert hunused
    decide +kernel
  · rw [List.head?_cons, Option.map_some, ← hstamp] at houtlived
    revert houtlived
    decide +kernel

end Netos.QueryBfLedger
