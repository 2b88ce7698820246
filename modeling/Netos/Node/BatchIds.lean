import Netos.Node.Node
import Netos.Tables.QueryBfLedger

/-!
# The ids of the batches

`make_batch_id` names a batch by its origin and by the millisecond in which its buffer was reset
last. Both can be read off the id (`makeBatchId_inj`), so two batches have one id exactly if they
are of one origin and their buffers were reset last in one millisecond. A split or a flush resets
the buffer when it closes it, and the next key joins the buffer as it is; so the next batch bears
the id of the batch before it when all resets since the one before that batch read one millisecond.
`Timed.still` follows the readings of the resets: it says for which origins that is so.

`batch_ids_distinct_iff` says when the returned batches have distinct ids, for resets whose readings
do not go back: when up to the last `flush_due` no call closes a buffer of such an origin.
-/

namespace Netos.QueryBfLedger

open CString Cxx QueryBloomAggregator

/-- The id of a batch determines its origin and its time of creation. -/
theorem makeBatchId_inj {origin origin' : Bytes} {created_ms created_ms' : UInt64} :
    makeBatchId origin created_ms = makeBatchId origin' created_ms' ↔
      origin = origin' ∧ created_ms = created_ms' := by
  have hshape : ∀ (o : Bytes) (ms : UInt64),
      makeBatchId o ms = (ascii "qbf-" ++ o) ++ 45 :: natToString ms.toNat := fun o ms => by
    rw [makeBatchId, List.append_assoc _ (ascii "-")]
    rfl
  rw [hshape, hshape, append_natToString_inj (by decide), List.append_cancel_left_eq,
    UInt64.toNat_inj]

/-- The aggregator with its ledger, and what the resets read. -/
structure Timed where
  /-- The aggregator and the ledger. -/
  ledger : State
  /-- A batch of the origin was closed, and every reset of its buffer from then on, the closing one
  included, read the millisecond of the reset before. -/
  still : Bytes → Bool

/-- The buffer that a key joins, before the key. -/
def ready (s : Timed) (call : AddCall) : Buffer :=
  s.ledger.aggregator.readyBuffer call.now call.wall (s.ledger.aggregator.buffer call.origin)

/-- The key fills the buffer that it joins. -/
def Fills (s : Timed) (call : AddCall) : Prop :=
  s.ledger.aggregator.splitReason ((ready s call).addKey call.key) ≠ none

/-- Decidable, as the result of the tests of the code. -/
instance (s : Timed) (call : AddCall) : Decidable (Fills s call) :=
  inferInstanceAs (Decidable (_ ≠ _))

/-- The call resets the buffer before its key joins it. -/
def RestartsBuffer (s : Timed) (call : AddCall) : Prop :=
  s.ledger.aggregator.Restarts call.now (s.ledger.aggregator.buffer call.origin)

/-- Decidable, as the tests of the code are. -/
instance (s : Timed) (call : AddCall) : Decidable (RestartsBuffer s call) :=
  inferInstanceAs (Decidable (_ ∨ _))

/-- What the reset before the key makes of `still`. -/
def stillReady (s : Timed) (call : AddCall) : Bool :=
  let buffer := s.ledger.aggregator.buffer call.origin
  s.still call.origin &&
    (!decide (RestartsBuffer s call) || call.wall.restart buffer == buffer.created_ms)

/-- What a call makes of `still`: a reset that closes a buffer compares its reading with that of the
reset before, and any other reset can only end what was so. -/
def stillAfter (s : Timed) : Call → Bytes → Bool
  | .addKey call =>
    Function.update s.still call.origin
      (if Fills s call then call.wall.split == (ready s call).created_ms else stillReady s call)
  | .flushDue _ now wall => fun origin =>
    let buffer := s.ledger.aggregator.buffer origin
    if s.ledger.aggregator.due now buffer then wall origin == buffer.created_ms
    else s.still origin

/-- One call. -/
def timedStep (s : Timed) (call : Call) : Option Timed :=
  (step s.ledger call).map fun ledger => ⟨ledger, stillAfter s call⟩

/-- A fresh aggregator, before any batch. -/
def Timed.init (aggregator : QueryBloomAggregator) (clock : ℤ) : Timed :=
  ⟨State.init aggregator clock, fun _ => false⟩

/-- The resets of the call do not read an earlier time than the reset before of the buffer. -/
def Forward (s : Timed) : Call → Prop
  | .addKey call =>
    let buffer := s.ledger.aggregator.buffer call.origin
    (RestartsBuffer s call → buffer.created_ms ≤ call.wall.restart buffer) ∧
      (Fills s call → (ready s call).created_ms ≤ call.wall.split)
  | .flushDue _ now wall => ∀ origin,
    s.ledger.aggregator.due now (s.ledger.aggregator.buffer origin) = true →
      (s.ledger.aggregator.buffer origin).created_ms ≤ wall origin

/-- The condition of a call: it does not close a buffer whose resets, from the one before the last
batch of its origin on, all read one millisecond. An `add_key` closes the buffer that its key fills,
a `flush_due` those that are due. -/
def ClosesMoved (s : Timed) : Call → Prop
  | .addKey call => Fills s call → stillReady s call = false
  | .flushDue _ now _ => ∀ origin,
    s.ledger.aggregator.due now (s.ledger.aggregator.buffer origin) = true →
      s.still origin = false

/-- The call is an `add_key`. -/
def Call.isAddKey : Call → Bool
  | .addKey _ => true
  | .flushDue _ _ _ => false

/-- The calls up to the last `flush_due`. -/
def flushed (calls : List Call) : List Call := calls.rdropWhile Call.isAddKey

/-- The batches that were made, returned or pending. -/
def made (s : State) : List QueryBloomBatch :=
  s.returned.map (fun r => r.batch) ++ s.pending.map fun p => p.batch

/-- No two batches that were made have the same id. -/
def Identified (s : Timed) : Prop := ((made s.ledger).map QueryBloomBatch.batch_id).Nodup

/-! ## What a call adds to the batches -/

/-- An `add_key` that reaches a threshold makes a batch. -/
theorem made_addKey (s : State) (call : AddCall) :
    made (addKey s call) = made s ++
      if (s.aggregator.addKey call.origin call.key call.now call.wall).2.split then
        [makeBatch call.origin ((s.aggregator.readyBuffer call.now call.wall
          (s.aggregator.buffer call.origin)).addKey call.key)]
      else [] := by
  unfold made addKey
  dsimp only
  split_ifs with hsplit
  · rw [List.map_append, List.append_assoc]
    rfl
  · rw [List.append_nil]

/-- An `add_key` splits when a test gives a reason. -/
theorem split_addKey_iff (a : QueryBloomAggregator) (origin key : Bytes) (now : ℤ)
    (wall : ResetReadings) :
    (a.addKey origin key now wall).2.split = true ↔
      a.splitReason ((a.readyBuffer now wall (a.buffer origin)).addKey key) ≠ none := by
  cases h : a.splitReason ((a.readyBuffer now wall (a.buffer origin)).addKey key) <;>
    simp [QueryBloomAggregator.addKey, h]

/-- The entries of the buffers that leave, in the order of a loop. -/
def leaving (a : QueryBloomAggregator) (it : Iteration) (now : ℤ) : List (Σ _ : Bytes, Buffer) :=
  (it.order a.buffers.entries).filter fun e => a.due now e.2

/-- A `flush_due` makes a batch of every buffer that leaves. -/
theorem made_flushDue (s : State) (it : Iteration) (now : ℤ) (wall : Bytes → UInt64) :
    made (flushDue s it now wall) =
      made s ++ (leaving s.aggregator it now).map fun e => makeBatch e.1 e.2 := by
  unfold made flushDue leaving
  simp only [List.map_append, List.map_map, List.map_nil, List.append_nil, Function.comp_def]

/-- The buffers that leave are those of the origins whose buffer is due. -/
theorem forall_leaving (a : QueryBloomAggregator) (it : Iteration) (now : ℤ)
    {p : Bytes → Buffer → Prop} :
    (∀ e ∈ leaving a it now, p e.1 e.2) ↔
      ∀ origin, a.due now (a.buffer origin) = true → p origin (a.buffer origin) := by
  constructor
  · intro h origin hdue
    -- A default buffer is not due, so the origin has an entry.
    cases hlookup : a.buffers.lookup origin with
    | none =>
      have hdefault : a.buffer origin = {} := by rw [buffer, hlookup, Option.getD_none]
      rw [hdefault, due_default] at hdue
      exact absurd hdue Bool.false_ne_true
    | some b =>
      have hb : a.buffer origin = b := by rw [buffer, hlookup, Option.getD_some]
      rw [hb] at hdue ⊢
      have hentry : (⟨origin, b⟩ : Σ _ : Bytes, Buffer) ∈ a.buffers.entries :=
        lookup_eq_some_iff.mp hlookup
      exact h ⟨origin, b⟩ (List.mem_filter.mpr ⟨it.mem_order.mpr hentry, hdue⟩)
  · intro h e he
    obtain ⟨hentry, hdue⟩ := List.mem_filter.mp he
    have hb := buffer_of_mem a (it.mem_order.mp hentry)
    rw [← hb] at hdue ⊢
    exact h e.1 hdue

/-- The buffers that leave are of different origins. -/
theorem nodup_leaving (a : QueryBloomAggregator) (it : Iteration) (now : ℤ) :
    ((leaving a it now).map fun e => (makeBatch e.1 e.2).batch_id).Nodup := by
  have horigins : ((leaving a it now).map fun e => e.1).Nodup := by
    have hkeys : (a.buffers.entries.map fun e => e.1).Nodup := a.buffers.nodupKeys
    have horder := ((it.perm a.buffers.entries).map fun e => e.1).nodup_iff.mpr hkeys
    exact horder.sublist (List.filter_sublist.map _)
  rw [List.nodup_map_iff_inj_on (List.Nodup.of_map _ horigins)]
  intro e he e' he' hid
  have horigin : e.1 = e'.1 := (makeBatchId_inj.mp hid).1
  exact List.inj_on_of_nodup_map horigins he he' horigin

/-! ## The last reset and the batches of an origin -/

/-- What the reading at the last reset of an origin's buffer says about the batches of the origin:
they are not stamped later, and `still` says whether one of them is stamped so. -/
structure LastReset (batches : List QueryBloomBatch) (origin : Bytes) (created_ms : UInt64)
    (still : Bool) : Prop where
  /-- No batch of the origin is stamped later. -/
  le : ∀ batch ∈ batches, batch.origin = origin → batch.created_ms ≤ created_ms
  /-- The flag. -/
  still_iff : still = true ↔
    ∃ batch ∈ batches, batch.origin = origin ∧ batch.created_ms = created_ms

variable {batches new : List QueryBloomBatch} {origin : Bytes} {created_ms wall : UInt64}
  {still : Bool}

/-- A reset that closes nothing. -/
theorem LastReset.reset (h : LastReset batches origin created_ms still)
    (hforward : created_ms ≤ wall) :
    LastReset batches origin wall (still && wall == created_ms) where
  le batch hbatch horigin := UInt64.le_trans (h.le batch hbatch horigin) hforward
  still_iff := by
    rw [Bool.and_eq_true, beq_iff_eq, h.still_iff]
    constructor
    · rintro ⟨⟨batch, hbatch, horigin, hstamp⟩, rfl⟩
      exact ⟨batch, hbatch, horigin, hstamp⟩
    · -- A batch stamped like the new reading is not stamped later than the old one.
      rintro ⟨batch, hbatch, horigin, hstamp⟩
      have hle := h.le batch hbatch horigin
      rw [hstamp] at hle
      have heq : wall = created_ms := UInt64.le_antisymm hle hforward
      exact ⟨⟨batch, hbatch, horigin, hstamp.trans heq⟩, heq⟩

/-- A reset that closes the buffer, which leaves as a batch. -/
theorem LastReset.close (h : LastReset batches origin created_ms still)
    (hnew : ∃ batch ∈ new, batch.origin = origin)
    (hstamps : ∀ batch ∈ new, batch.origin = origin → batch.created_ms = created_ms)
    (hforward : created_ms ≤ wall) :
    LastReset (batches ++ new) origin wall (wall == created_ms) := by
  have hle : ∀ batch ∈ batches ++ new, batch.origin = origin → batch.created_ms ≤ created_ms := by
    intro batch hbatch horigin
    rcases List.mem_append.mp hbatch with hbatch | hbatch
    · exact h.le batch hbatch horigin
    · exact UInt64.le_of_eq (hstamps batch hbatch horigin)
  refine ⟨fun batch hbatch horigin => UInt64.le_trans (hle batch hbatch horigin) hforward, ?_⟩
  rw [beq_iff_eq]
  constructor
  · rintro rfl
    obtain ⟨batch, hbatch, horigin⟩ := hnew
    exact ⟨batch, List.mem_append_right _ hbatch, horigin, hstamps batch hbatch horigin⟩
  · rintro ⟨batch, hbatch, horigin, hstamp⟩
    have hbefore := hle batch hbatch horigin
    rw [hstamp] at hbefore
    exact UInt64.le_antisymm hbefore hforward

/-- Batches of other origins. -/
theorem LastReset.other (h : LastReset batches origin created_ms still)
    (hnew : ∀ batch ∈ new, batch.origin ≠ origin) :
    LastReset (batches ++ new) origin created_ms still where
  le batch hbatch horigin := by
    rcases List.mem_append.mp hbatch with hbatch | hbatch
    · exact h.le batch hbatch horigin
    · exact absurd horigin (hnew batch hbatch)
  still_iff := by
    rw [h.still_iff]
    constructor
    · rintro ⟨batch, hbatch, hstamp⟩
      exact ⟨batch, List.mem_append_left _ hbatch, hstamp⟩
    · rintro ⟨batch, hbatch, horigin, hstamp⟩
      rcases List.mem_append.mp hbatch with hbatch | hbatch
      · exact ⟨batch, hbatch, horigin, hstamp⟩
      · exact absurd horigin (hnew batch hbatch)

/-- The id of the buffer's batch is new exactly if a reset moved the buffer on. -/
theorem LastReset.id_notMem_iff (h : LastReset batches origin created_ms still)
    (hid : ∀ batch ∈ batches, batch.batch_id = makeBatchId batch.origin batch.created_ms) :
    makeBatchId origin created_ms ∉ batches.map QueryBloomBatch.batch_id ↔ still = false := by
  rw [← Bool.not_eq_true, h.still_iff, List.mem_map, not_iff_not]
  constructor
  · rintro ⟨batch, hbatch, heq⟩
    rw [hid batch hbatch] at heq
    obtain ⟨horigin, hstamp⟩ := makeBatchId_inj.mp heq
    exact ⟨batch, hbatch, horigin, hstamp⟩
  · rintro ⟨batch, hbatch, horigin, hstamp⟩
    exact ⟨batch, hbatch, by rw [hid batch hbatch, horigin, hstamp]⟩

/-! ## The run -/

/-- The flags agree with the batches. -/
structure Stamped (s : Timed) : Prop where
  /-- The ids are made of the origins and the times of creation. -/
  id : ∀ batch ∈ made s.ledger, batch.batch_id = makeBatchId batch.origin batch.created_ms
  /-- The buffer of every origin. -/
  last : ∀ origin, LastReset (made s.ledger) origin
    (s.ledger.aggregator.buffer origin).created_ms (s.still origin)

/-- The buffer that a key joins. -/
theorem Stamped.ready {s : Timed} (h : Stamped s) {call : AddCall}
    (hforward : RestartsBuffer s call →
      (s.ledger.aggregator.buffer call.origin).created_ms ≤
        call.wall.restart (s.ledger.aggregator.buffer call.origin)) :
    LastReset (made s.ledger) call.origin (ready s call).created_ms (stillReady s call) := by
  have hlast := h.last call.origin
  unfold QueryBfLedger.ready stillReady
  rw [readyBuffer_eq]
  by_cases hrestarts : RestartsBuffer s call
  · have hreset := hlast.reset (hforward hrestarts)
    rw [RestartsBuffer] at hrestarts
    simpa [RestartsBuffer, hrestarts, resetBuffer] using hreset
  · rw [RestartsBuffer] at hrestarts
    simpa [RestartsBuffer, hrestarts] using hlast

/-- The batches after an `add_key`. -/
theorem made_addKey_eq (s : Timed) (call : AddCall) :
    made (addKey s.ledger call) = made s.ledger ++
      if Fills s call then [makeBatch call.origin ((ready s call).addKey call.key)] else [] := by
  rw [made_addKey]
  have hsplit := split_addKey_iff s.ledger.aggregator call.origin call.key call.now call.wall
  by_cases hfills : Fills s call
  · rw [if_pos hfills, if_pos (hsplit.mpr hfills)]
    rfl
  · rw [if_neg hfills, if_neg (fun h => hfills (hsplit.mp h))]

/-- The time of creation that an `add_key` leaves in the buffer of its origin. -/
theorem created_ms_addKey (s : Timed) (call : AddCall) :
    ((addKey s.ledger call).aggregator.buffer call.origin).created_ms =
      if Fills s call then call.wall.split else (ready s call).created_ms := by
  have hself : (addKey s.ledger call).aggregator.buffer call.origin = _ :=
    buffer_addKey_self s.ledger.aggregator call.origin call.key call.now call.wall
  have hsplit := split_addKey_iff s.ledger.aggregator call.origin call.key call.now call.wall
  rw [hself]
  by_cases hfills : Fills s call
  · rw [if_pos hfills, if_pos (hsplit.mpr hfills)]
    rfl
  · rw [if_neg hfills, if_neg (fun h => hfills (hsplit.mp h))]
    rfl

/-- `add_key` keeps the flags right. -/
theorem Stamped.addKey {s : Timed} (h : Stamped s) {call : AddCall}
    (hforward : Forward s (.addKey call)) :
    Stamped ⟨addKey s.ledger call, stillAfter s (.addKey call)⟩ := by
  have hready := h.ready hforward.1
  refine ⟨fun batch hbatch => ?_, fun origin => ?_⟩
  · rw [made_addKey_eq] at hbatch
    rcases List.mem_append.mp hbatch with hbatch | hbatch
    · exact h.id batch hbatch
    · split_ifs at hbatch with hfills
      · rw [List.mem_singleton.mp hbatch]
        rfl
      · exact absurd hbatch List.not_mem_nil
  · dsimp only [stillAfter]
    rw [made_addKey_eq]
    by_cases horigin : origin = call.origin
    · subst horigin
      rw [created_ms_addKey, Function.update_self]
      by_cases hfills : Fills s call
      · -- The buffer leaves as a batch, and the reset after that starts the next one.
        rw [if_pos hfills, if_pos hfills, if_pos hfills]
        exact hready.close ⟨_, List.mem_singleton_self _, rfl⟩
          (fun batch hbatch _ => by rw [List.mem_singleton.mp hbatch]; rfl) (hforward.2 hfills)
      · rw [if_neg hfills, if_neg hfills, if_neg hfills, List.append_nil]
        exact hready
    · have hother : (QueryBfLedger.addKey s.ledger call).aggregator.buffer origin =
          s.ledger.aggregator.buffer origin :=
        buffer_addKey_of_ne s.ledger.aggregator horigin call.key call.now call.wall
      rw [hother, Function.update_of_ne horigin]
      refine (h.last origin).other fun batch hbatch => ?_
      split_ifs at hbatch with hfills
      · rw [List.mem_singleton.mp hbatch]
        exact Ne.symm horigin
      · exact absurd hbatch List.not_mem_nil

/-- `flush_due` keeps the flags right. -/
theorem Stamped.flushDue {s : Timed} (h : Stamped s) {it : Iteration} {now : ℤ}
    {wall : Bytes → UInt64} (hforward : Forward s (.flushDue it now wall)) :
    Stamped ⟨flushDue s.ledger it now wall, stillAfter s (.flushDue it now wall)⟩ := by
  -- What leaves is stamped with the last resets of the buffers that are due.
  have hleaving : ∀ e ∈ leaving s.ledger.aggregator it now,
      s.ledger.aggregator.due now (s.ledger.aggregator.buffer e.1) = true ∧
        e.2 = s.ledger.aggregator.buffer e.1 := fun e he => by
    obtain ⟨hentry, hdue⟩ := List.mem_filter.mp he
    have hbuffer := buffer_of_mem s.ledger.aggregator (it.mem_order.mp hentry)
    rw [hbuffer]
    exact ⟨hdue, rfl⟩
  refine ⟨fun batch hbatch => ?_, fun origin => ?_⟩
  · rw [made_flushDue] at hbatch
    rcases List.mem_append.mp hbatch with hbatch | hbatch
    · exact h.id batch hbatch
    · obtain ⟨e, he, rfl⟩ := List.mem_map.mp hbatch
      rfl
  · have hbuffer : (QueryBfLedger.flushDue s.ledger it now wall).aggregator.buffer origin = _ :=
      buffer_flushDue s.ledger.aggregator it now wall origin
    simp only [made_flushDue, hbuffer, stillAfter]
    split_ifs with hdue
    · refine (h.last origin).close ?_ (fun batch hbatch horigin => ?_) (hforward origin hdue)
      · by_contra hnone
        have hothers := (forall_leaving s.ledger.aggregator it now
          (p := fun o _ => o ≠ origin)).mp fun e he horigin =>
            hnone ⟨_, List.mem_map_of_mem he, horigin⟩
        exact hothers origin hdue rfl
      · obtain ⟨e, he, rfl⟩ := List.mem_map.mp hbatch
        obtain rfl : e.1 = origin := horigin
        exact congrArg Buffer.created_ms (hleaving e he).2
    · refine (h.last origin).other fun batch hbatch horigin => ?_
      obtain ⟨e, he, rfl⟩ := List.mem_map.mp hbatch
      obtain rfl : e.1 = origin := horigin
      exact hdue (hleaving e he).1

/-- Every call whose resets go forward keeps the flags right. -/
theorem Stamped.step {s s' : Timed} {call : Call} (h : Stamped s) (hforward : Forward s call)
    (hstep : timedStep s call = some s') : Stamped s' := by
  cases call with
  | addKey call =>
    obtain rfl := Option.some.inj hstep
    exact h.addKey hforward
  | flushDue it now wall =>
    obtain rfl := Option.some.inj hstep
    exact h.flushDue hforward

/-- The ids stay distinct exactly if the buffers that a call closes were moved on. -/
theorem identified_step_iff {s s' : Timed} {call : Call} (h : Stamped s)
    (hforward : Forward s call) (hid : Identified s) (hstep : timedStep s call = some s') :
    Identified s' ↔ ClosesMoved s call := by
  unfold Identified at hid ⊢
  cases call with
  | addKey call =>
    obtain rfl := Option.some.inj hstep
    have hnotin := (h.ready hforward.1).id_notMem_iff h.id
    dsimp only
    rw [made_addKey_eq, ClosesMoved, ← hnotin]
    split_ifs with hfills
    · rw [List.map_append, List.map_singleton, List.nodup_append_comm, List.singleton_append,
        List.nodup_cons]
      exact ⟨fun hnodup _ => hnodup.1, fun hnew => ⟨hnew hfills, hid⟩⟩
    · rw [List.append_nil]
      exact iff_of_true hid fun htrue => absurd htrue hfills
  | flushDue it now wall =>
    obtain rfl := Option.some.inj hstep
    have hleaving := nodup_leaving s.ledger.aggregator it now
    have hnotin : ∀ origin, s.still origin = false ↔
        (makeBatch origin (s.ledger.aggregator.buffer origin)).batch_id ∉
          (made s.ledger).map QueryBloomBatch.batch_id :=
      fun origin => ((h.last origin).id_notMem_iff h.id).symm
    dsimp only
    rw [made_flushDue, ClosesMoved, List.map_append, List.map_map, List.nodup_append']
    simp only [hnotin]
    rw [← forall_leaving s.ledger.aggregator it now (p := fun origin buffer =>
      (makeBatch origin buffer).batch_id ∉ (made s.ledger).map QueryBloomBatch.batch_id)]
    refine ⟨fun hnodup e he hmem => ?_, fun hnew => ⟨hid, hleaving, ?_⟩⟩
    · exact hnodup.2.2 hmem (List.mem_map.mpr ⟨e, he, rfl⟩)
    · intro id hmem hmem'
      obtain ⟨e, he, rfl⟩ := List.mem_map.mp hmem'
      exact hnew e he hmem

/-- No call makes ids distinct that were not. -/
theorem identified_of_step {s s' : Timed} {call : Call} (hstep : timedStep s call = some s')
    (h : Identified s') : Identified s := by
  unfold Identified at h ⊢
  cases call with
  | addKey call =>
    obtain rfl := Option.some.inj hstep
    dsimp only at h
    rw [made_addKey_eq, List.map_append] at h
    exact h.of_append_left
  | flushDue it now wall =>
    obtain rfl := Option.some.inj hstep
    dsimp only at h
    rw [made_flushDue, List.map_append] at h
    exact h.of_append_left

/-- A fresh aggregator has made no batch. -/
theorem stamped_init (bit_count hash_count : ℕ) (window ttl : ℤ) (max_fill_ratio : ℚ)
    (max_keys : UInt64) (clock : ℤ) :
    Stamped
      (Timed.init (construct bit_count hash_count window ttl max_fill_ratio max_keys) clock) where
  id _ hbatch := absurd hbatch List.not_mem_nil
  last _ :=
    { le := fun _ hbatch => absurd hbatch List.not_mem_nil
      still_iff := by simp [Timed.init, made, State.init] }

/-- Decidable, as the buffers that are due are finitely many. -/
instance (s : Timed) : (call : Call) → Decidable (Forward s call)
  | .addKey _ => inferInstanceAs (Decidable ((_ → _) ∧ (_ → _)))
  | .flushDue it now wall =>
    decidable_of_iff
      (∀ e ∈ leaving s.ledger.aggregator it now, e.2.created_ms ≤ wall e.1)
      (forall_leaving s.ledger.aggregator it now (p := fun o b => b.created_ms ≤ wall o))

/-- Decidable, as the buffers that are due are finitely many. -/
instance (s : Timed) : (call : Call) → Decidable (ClosesMoved s call)
  | .addKey _ => inferInstanceAs (Decidable (_ → _ = _))
  | .flushDue it now _ =>
    decidable_of_iff
      (∀ e ∈ leaving s.ledger.aggregator it now, s.still e.1 = false)
      (forall_leaving s.ledger.aggregator it now (p := fun o _ => s.still o = false))

/-- Every call is possible. -/
theorem timedStep_total (s : Timed) (call : Call) : ∃ s', timedStep s call = some s' := by
  obtain ⟨ledger, hstep⟩ := step_total s.ledger call
  exact ⟨⟨ledger, stillAfter s call⟩, by rw [timedStep, hstep, Option.map_some]⟩

/-- The ledger of a run with the flags. -/
theorem matches_timedStep {bit_count hash_count : ℕ} {s s' : Timed} {call : Call}
    (h : Matches bit_count hash_count s.ledger) (hstep : timedStep s call = some s') :
    Matches bit_count hash_count s'.ledger := by
  obtain ⟨ledger, hledger, rfl⟩ := Option.map_eq_some_iff.mp hstep
  exact h.step hledger

/-- What was returned at the end of a run was returned by its last `flush_due`, which left no batch
pending. -/
theorem run_flushed {a : QueryBloomAggregator} (clock : ℤ) (calls : List Call) {s : Timed}
    (hrun : Machine.run timedStep (Timed.init a clock) calls = some s) :
    ∃ s₀, Machine.run timedStep (Timed.init a clock) (flushed calls) = some s₀ ∧
      s₀.ledger.pending = [] ∧ s₀.ledger.output = s.ledger.output := by
  induction calls using List.reverseRecOn generalizing s with
  | nil =>
    obtain rfl : Timed.init a clock = s := by simpa using hrun
    exact ⟨_, rfl, rfl, rfl⟩
  | append_singleton calls call ih =>
    have hwhole := hrun
    rw [Machine.run_append] at hrun
    obtain ⟨s₁, hrun₁, hlast⟩ := Option.bind_eq_some_iff.mp hrun
    have hstep : timedStep s₁ call = some s := by simpa using hlast
    unfold flushed
    cases call with
    | addKey call =>
      -- An `add_key` returns nothing.
      rw [List.rdropWhile_concat_pos _ _ _ rfl]
      obtain ⟨s₀, hrun₀, hpending, houtput⟩ := ih hrun₁
      obtain rfl := Option.some.inj hstep
      exact ⟨s₀, hrun₀, hpending, houtput⟩
    | flushDue it now wall =>
      rw [List.rdropWhile_concat_neg _ _ _ Bool.false_ne_true]
      obtain rfl := Option.some.inj hstep
      exact ⟨_, hwhole, rfl, rfl⟩

/-- When batch ids identify batches. For every parameter setting and every sequence of calls whose
resets do not read the system clock going back: the batches that `flush_due` returned have distinct
ids if and only if up to the last `flush_due` no call closes a buffer whose resets, from the one
before the last batch of its origin on, all read one millisecond. -/
theorem batch_ids_distinct_iff (bit_count hash_count : ℕ) (window ttl : ℤ) (max_fill_ratio : ℚ)
    (max_keys : UInt64) (clock : ℤ) (calls : List Call)
    (hforward : Machine.Guarded timedStep Forward
      (Timed.init (construct bit_count hash_count window ttl max_fill_ratio max_keys) clock)
        calls) :
    ∃ s, Machine.run timedStep
        (Timed.init (construct bit_count hash_count window ttl max_fill_ratio max_keys) clock)
        calls = some s ∧
      ((s.ledger.output.map QueryBloomBatch.batch_id).Nodup ↔
        Machine.Guarded timedStep ClosesMoved
          (Timed.init (construct bit_count hash_count window ttl max_fill_ratio max_keys) clock)
          (flushed calls)) := by
  obtain ⟨s, hrun⟩ := Machine.exists_run timedStep_total
    (Timed.init (construct bit_count hash_count window ttl max_fill_ratio max_keys) clock) calls
  obtain ⟨s₀, hrun₀, hpending, houtput⟩ := run_flushed clock calls hrun
  -- The premise on the calls up to the last flush.
  obtain ⟨rest, hrest⟩ : flushed calls <+: calls := List.rdropWhile_prefix _ _
  rw [← hrest] at hforward
  have hinit := stamped_init bit_count hash_count window ttl max_fill_ratio max_keys clock
  have hiff : Identified s₀ ↔ _ :=
    Machine.Guarded.at_end_iff (fun s call s' (h : Stamped s) hpremise hstep =>
      h.step hpremise hstep) (fun s call s' h hpremise hid hstep =>
        identified_step_iff h hpremise hid hstep) (fun s call hnone => by
          obtain ⟨s', hstep⟩ := timedStep_total s call
          exact absurd (hstep.symm.trans hnone) (Option.some_ne_none s'))
        (fun s call s' hstep h => identified_of_step hstep h) hinit List.nodup_nil
          hforward.of_append hrun₀
  -- All batches made up to then were returned.
  have hmatches : Matches bit_count hash_count s₀.ledger :=
    Machine.run_invariant (fun _ _ _ h hstep => matches_timedStep h hstep)
      (matches_init window ttl max_fill_ratio max_keys clock) hrun₀
  refine ⟨s, hrun, ?_⟩
  rw [← houtput, ← hiff, Identified, made, hpending, List.map_nil, List.append_nil,
    ← hmatches.output_eq]

/-- One key fills a batch, and the system clock ticks between the reset of the first key and that
after its split: the two batches have different ids. -/
theorem batch_ids_distinct_iff_tick :
    ∃ s, Machine.run timedStep (Timed.init (construct 1024 4 200 2000 (9 / 10) 1) 0)
        [.addKey ⟨ascii "A", ascii "k1", milliseconds 1000, ⟨1000, 1000, 1001⟩⟩,
          addAt "k2" 1004, flushAt 1201] = some s ∧
      s.ledger.output.map QueryBloomBatch.batch_id =
        [ascii "qbf-A-1000", ascii "qbf-A-1001"] ∧
      (s.ledger.output.map QueryBloomBatch.batch_id).Nodup := by
  obtain ⟨s, hrun, hiff⟩ := batch_ids_distinct_iff 1024 4 200 2000 (9 / 10) 1 0
    [.addKey ⟨ascii "A", ascii "k1", milliseconds 1000, ⟨1000, 1000, 1001⟩⟩,
      addAt "k2" 1004, flushAt 1201] (by decide +kernel)
  refine ⟨s, hrun, ?_, hiff.mpr (by decide +kernel)⟩
  obtain rfl := Option.some.inj hrun
  decide +kernel

/-- A valid configuration in which one key fills a batch. -/
def oneKeyConfig : Config where
  node_id := ascii "A"
  config_source := []
  log_level := ascii "info"
  bind_ip := ascii "0.0.0.0"
  bind_port := 9000
  redis_socket := ascii "/tmp/redis.sock"
  neighbors := []
  seed_keys := []
  request_keys := []
  query_bf_max_keys := 1

/-- Where one key fills a batch, the first two batches have the same id, although the second key
comes four milliseconds after the first. -/
theorem batch_id_repeats :
    validateConfig oneKeyConfig = .ok () ∧
    Machine.Guarded timedStep Forward
      (Timed.init (Node.construct oneKeyConfig fun _ => none).query_bloom_aggregator 0)
      [addAt "k1" 1000, addAt "k2" 1004, flushAt 1201] ∧
    ∃ s, Machine.run timedStep
        (Timed.init (Node.construct oneKeyConfig fun _ => none).query_bloom_aggregator 0)
        [addAt "k1" 1000, addAt "k2" 1004, flushAt 1201] = some s ∧
      s.ledger.output.map (fun batch => (batch.batch_id, batch.key_count)) =
        [(ascii "qbf-A-1000", 1), (ascii "qbf-A-1000", 1)] ∧
      (s.ledger.returned.map fun r => r.calls.map AddCall.key) = [[ascii "k1"], [ascii "k2"]] ∧
      ¬ (s.ledger.output.map QueryBloomBatch.batch_id).Nodup := by
  refine ⟨?_, by decide +kernel, _, rfl, by decide +kernel, by decide +kernel,
    by decide +kernel⟩
  rw [validateConfig_eq_ok_iff, Config.valid_iff]
  decide +kernel

end Netos.QueryBfLedger
