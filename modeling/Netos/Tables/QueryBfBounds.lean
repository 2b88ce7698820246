import Netos.Tables.QueryBfLedger

/-!
# What bounds a batch

`max_keys`, `max_fill_ratio` and the window, over whole runs of the aggregator with its ledger. A
live buffer is below both thresholds (`Below`), since an `add_key` that reaches one splits the
buffer off and leaves an empty one. So the calls that a batch is made of are within the thresholds
(`Within`): the last of them may reach one, those before it do not. `flush_due` empties the pending
batches and takes every buffer whose window is over.
-/

namespace Netos.QueryBfLedger

open CString Cxx QueryBloomAggregator

/-- A buffer that the split tests leave where it is. -/
structure Below (max_fill_ratio : ℚ) (max_keys : UInt64) (buffer : Buffer) : Prop where
  /-- Its keys, where they are counted. -/
  keys : max_keys > 0 → buffer.key_count < max_keys
  /-- Its fill ratio, where that is compared. -/
  fill : max_fill_ratio > 0 → buffer.filter.fillRatio < max_fill_ratio

/-- Calls whose keys a batch may hold: as many as `max_keys`, and without the last of them the
filter is below the ratio. -/
structure Within (bit_count hash_count : ℕ) (max_fill_ratio : ℚ) (max_keys : UInt64)
    (calls : List AddCall) : Prop where
  /-- Their number, where they are counted. -/
  keys : max_keys > 0 → calls.length ≤ max_keys.toNat
  /-- The fill ratio before the last key, where that is compared. -/
  fill : max_fill_ratio > 0 →
    (filterOf bit_count hash_count calls.dropLast).fillRatio < max_fill_ratio

variable {bit_count hash_count : ℕ} {max_fill_ratio : ℚ} {max_keys : UInt64}

/-- A buffer with an empty filter and no key is below every threshold. -/
theorem below_of_empty {buffer : Buffer} (hkeys : buffer.key_count = 0)
    (hfilter : buffer.filter.fillRatio = 0) : Below max_fill_ratio max_keys buffer where
  keys hpos := by rwa [hkeys]
  fill hpos := by rwa [hfilter]

/-- A buffer just reset is below every threshold. -/
theorem below_resetBuffer (a : QueryBloomAggregator) (now : ℤ) (wall : UInt64) :
    Below max_fill_ratio max_keys (a.resetBuffer now wall) :=
  below_of_empty rfl (BloomFilter.fillRatio_construct _ _)

/-- No calls are within every threshold. -/
theorem within_nil : Within bit_count hash_count max_fill_ratio max_keys [] where
  keys hpos := Nat.zero_le _
  fill hpos := by
    have hempty : (filterOf bit_count hash_count []).fillRatio = 0 :=
      BloomFilter.fillRatio_construct _ _
    rwa [List.dropLast_nil, hempty]

/-- A buffer to which the split tests give no reason is below the thresholds. -/
theorem below_of_splitReason {a : QueryBloomAggregator} {buffer : Buffer}
    (h : a.splitReason buffer = none) : Below a.max_fill_ratio a.max_keys buffer := by
  unfold splitReason at h
  split_ifs at h with hfill hkeys
  exact ⟨fun hpos => UInt64.not_le.mp fun hge => hkeys ⟨hpos, hge⟩,
    fun hpos => not_le.mp fun hge => hfill ⟨hpos, hge⟩⟩

/-- What an `add_key` leaves in the buffer of its origin is below the thresholds. -/
theorem below_buffer_addKey (a : QueryBloomAggregator) (origin key : Bytes) (now : ℤ)
    (wall : ResetReadings) :
    Below a.max_fill_ratio a.max_keys ((a.addKey origin key now wall).1.buffer origin) := by
  rw [buffer_addKey_self]
  split_ifs with hsplit
  · exact below_resetBuffer a now wall.split
  · refine below_of_splitReason ?_
    cases hreason : a.splitReason ((a.readyBuffer now wall (a.buffer origin)).addKey key) with
    | none => rfl
    | some reason => exact absurd (by simp [QueryBloomAggregator.addKey, hreason]) hsplit

/-- The thresholds bound what the ledger names. -/
structure Bounded (bit_count hash_count : ℕ) (max_fill_ratio : ℚ) (max_keys : UInt64) (s : State) :
    Prop where
  /-- The ledger is right. -/
  right : Matches bit_count hash_count s
  /-- The thresholds stay. -/
  thresholds : s.aggregator.max_fill_ratio = max_fill_ratio ∧ s.aggregator.max_keys = max_keys
  /-- The live buffers are below them. -/
  below : ∀ origin, Below max_fill_ratio max_keys (s.aggregator.buffer origin)
  /-- The calls of the live buffers. -/
  live : ∀ origin, Within bit_count hash_count max_fill_ratio max_keys (s.live origin)
  /-- The calls of the pending batches. -/
  pending : ∀ p ∈ s.pending, Within bit_count hash_count max_fill_ratio max_keys p.calls
  /-- The calls of the returned batches. -/
  returned : ∀ r ∈ s.returned, Within bit_count hash_count max_fill_ratio max_keys r.calls

/-- One more call for a buffer that is below the thresholds. -/
theorem Bounded.within_joined {s : State}
    (h : Bounded bit_count hash_count max_fill_ratio max_keys s) (call : AddCall) :
    Within bit_count hash_count max_fill_ratio max_keys (joined s call) := by
  have hempty : (filterOf bit_count hash_count []).fillRatio = 0 :=
    BloomFilter.fillRatio_construct _ _
  unfold joined
  split_ifs with hrestarts
  · -- The call is the only one.
    exact ⟨fun hpos => UInt64.lt_iff_toNat_lt.mp hpos, fun hpos => by simpa [hempty] using hpos⟩
  · -- Without it, the calls are those of the buffer, which is in use.
    have hused : (s.aggregator.buffer call.origin).created_ms ≠ 0 := fun hzero =>
      hrestarts (Or.inl hzero)
    have hfilter := (h.right.live call.origin).filter (Or.inr hused)
    refine ⟨fun hpos => ?_, fun hpos => ?_⟩
    · have hkeys := UInt64.lt_iff_toNat_lt.mp ((h.below call.origin).keys hpos)
      -- The counter of so few calls has not wrapped.
      have hfew := Nat.lt_of_le_of_lt ((h.live call.origin).keys hpos) max_keys.toNat_lt
      rw [(h.right.live call.origin).key_count, UInt64.toNat_ofNat_of_lt' hfew] at hkeys
      rw [List.length_append, List.length_singleton]
      exact hkeys
    · rw [List.dropLast_concat, ← hfilter]
      exact (h.below call.origin).fill hpos

/-- The thresholds of the aggregator never change. -/
theorem addKey_thresholds (a : QueryBloomAggregator) (origin key : Bytes) (now : ℤ)
    (wall : ResetReadings) :
    (a.addKey origin key now wall).1.max_fill_ratio = a.max_fill_ratio ∧
      (a.addKey origin key now wall).1.max_keys = a.max_keys := by
  obtain ⟨buffers, pending_batches, h⟩ := a.addKey_settings origin key now wall
  rw [h]
  exact ⟨rfl, rfl⟩

/-- `add_key` keeps what the ledger names within the thresholds. -/
theorem Bounded.addKey {s : State} (h : Bounded bit_count hash_count max_fill_ratio max_keys s)
    (call : AddCall) : Bounded bit_count hash_count max_fill_ratio max_keys (addKey s call) := by
  have hthresholds := addKey_thresholds s.aggregator call.origin call.key call.now call.wall
  refine ⟨h.right.addKey call,
    ⟨hthresholds.1.trans h.thresholds.1, hthresholds.2.trans h.thresholds.2⟩,
    fun origin => ?_, fun origin => ?_, fun p hp => ?_, h.returned⟩
  · by_cases horigin : origin = call.origin
    · subst horigin
      have hbelow :=
        below_buffer_addKey s.aggregator call.origin call.key call.now call.wall
      rwa [h.thresholds.1, h.thresholds.2] at hbelow
    · unfold QueryBfLedger.addKey
      dsimp only
      rw [buffer_addKey_of_ne _ horigin]
      exact h.below origin
  · by_cases horigin : origin = call.origin
    · subst horigin
      unfold QueryBfLedger.addKey
      dsimp only
      rw [Function.update_self]
      split_ifs with hsplit
      · exact within_nil
      · exact h.within_joined call
    · have hlive : (QueryBfLedger.addKey s call).live origin = s.live origin :=
        Function.update_of_ne horigin _ _
      rw [hlive]
      exact h.live origin
  · rcases mem_pending_addKey hp with hp | rfl
    · exact h.pending p hp
    · exact h.within_joined call

/-- `flush_due` keeps what the ledger names within the thresholds. -/
theorem Bounded.flushDue {s : State} (h : Bounded bit_count hash_count max_fill_ratio max_keys s)
    (it : Iteration) (now : ℤ) (wall : Bytes → UInt64) :
    Bounded bit_count hash_count max_fill_ratio max_keys (flushDue s it now wall) := by
  refine ⟨h.right.flushDue it now wall, h.thresholds, fun origin => ?_, fun origin => ?_,
    fun p hp => absurd hp List.not_mem_nil, fun r hr => ?_⟩
  · unfold QueryBfLedger.flushDue
    dsimp only
    rw [buffer_flushDue]
    split_ifs with hdue
    · exact below_resetBuffer s.aggregator now (wall origin)
    · exact h.below origin
  · unfold QueryBfLedger.flushDue
    dsimp only
    split_ifs with hdue
    · exact within_nil
    · exact h.live origin
  · rcases mem_returned_flushDue hr with hr | ⟨p, hp, rfl⟩ | ⟨origin, hdue, rfl⟩
    · exact h.returned r hr
    · exact h.pending p hp
    · exact h.live origin

/-- Every call keeps what the ledger names within the thresholds. -/
theorem Bounded.step {s s' : State} {call : Call}
    (h : Bounded bit_count hash_count max_fill_ratio max_keys s)
    (hstep : step s call = some s') :
    Bounded bit_count hash_count max_fill_ratio max_keys s' := by
  cases call with
  | addKey call =>
    obtain rfl := Option.some.inj hstep
    exact h.addKey call
  | flushDue it now wall =>
    obtain rfl := Option.some.inj hstep
    exact h.flushDue it now wall

/-- A fresh aggregator is below its thresholds. -/
theorem bounded_init (bit_count hash_count : ℕ) (window ttl : ℤ) (max_fill_ratio : ℚ)
    (max_keys : UInt64) (clock : ℤ) :
    Bounded bit_count hash_count max_fill_ratio max_keys
      (State.init (construct bit_count hash_count window ttl max_fill_ratio max_keys) clock) where
  right := matches_init window ttl max_fill_ratio max_keys clock
  thresholds := ⟨rfl, rfl⟩
  below _ := below_of_empty rfl (BloomFilter.fillRatio_construct 0 0)
  live _ := within_nil
  pending _ hp := absurd hp List.not_mem_nil
  returned _ hr := absurd hr List.not_mem_nil

/-- After a `flush_due`, no batch is pending and the buffers with keys are younger than the
window. -/
theorem settled_flushDue (a : QueryBloomAggregator) (it : Iteration) (now : ℤ)
    (wall : Bytes → UInt64) :
    (a.flushDue it now wall).1.pending_batches = [] ∧
      ∀ origin, ((a.flushDue it now wall).1.buffer origin).has_data = true →
        now - ((a.flushDue it now wall).1.buffer origin).created_at <
          milliseconds a.aggregation_window := by
  refine ⟨rfl, fun origin hdata => ?_⟩
  rw [buffer_flushDue] at hdata ⊢
  split_ifs at hdata ⊢ with hdue
  · -- A buffer that left is empty.
    exact absurd hdata (by simp [resetBuffer])
  · simp only [due, hdata, Bool.true_and, Bool.not_eq_true, Bool.not_eq_false',
      Bool.and_eq_true, decide_eq_true_eq] at hdue
    exact hdue.2

/-- Thresholds and window bound every batch. For every parameter setting and after every sequence of
calls at any times: the next `add_key` leaves the buffer of its origin with fewer keys than
`max_keys` and a fill ratio below `max_fill_ratio`, where these are positive; every returned batch
is made of the calls that the ledger names, has at most `max_keys` keys, and without the last of
them its filter has a fill ratio below `max_fill_ratio`, where these are positive; and the next
`flush_due` leaves no batch pending and no buffer with keys that is as old as the window. -/
theorem batches_bounded (bit_count hash_count : ℕ) (window ttl : ℤ) (max_fill_ratio : ℚ)
    (max_keys : UInt64) (clock : ℤ) (calls : List Call) :
    ∃ s, Machine.run step
        (State.init (construct bit_count hash_count window ttl max_fill_ratio max_keys) clock)
          calls = some s ∧
      (∀ call : AddCall, Below max_fill_ratio max_keys
        ((addKey s call).aggregator.buffer call.origin)) ∧
      (s.output = s.returned.map (fun r => r.batch) ∧
        ∀ r ∈ s.returned, MadeOf bit_count hash_count r.batch r.calls ∧
          (max_keys > 0 → r.batch.key_count ≤ max_keys ∧ r.calls.length ≤ max_keys.toNat) ∧
          (max_fill_ratio > 0 →
            (filterOf bit_count hash_count r.calls.dropLast).fillRatio < max_fill_ratio)) ∧
      ∀ (it : Iteration) (now : ℤ) (wall : Bytes → UInt64),
        (flushDue s it now wall).aggregator.pending_batches = [] ∧
          ∀ origin, ((flushDue s it now wall).aggregator.buffer origin).has_data = true →
            now - ((flushDue s it now wall).aggregator.buffer origin).created_at <
              milliseconds window := by
  obtain ⟨s, hrun⟩ := Machine.exists_run step_total
    (State.init (construct bit_count hash_count window ttl max_fill_ratio max_keys) clock) calls
  have hbounded : Bounded bit_count hash_count max_fill_ratio max_keys s :=
    Machine.run_invariant (fun _ _ _ h hstep => h.step hstep)
      (bounded_init bit_count hash_count window ttl max_fill_ratio max_keys clock) hrun
  have hwindow : s.aggregator.aggregation_window = window :=
    Machine.run_invariant (fun _ _ _ h hstep => (step_window hstep).trans h) rfl hrun
  refine ⟨s, hrun, fun call => (hbounded.addKey call).below call.origin,
    ⟨hbounded.right.output_eq, fun r hr => ?_⟩, fun it now wall => ?_⟩
  · have hmade := hbounded.right.returned r hr
    have hwithin := hbounded.returned r hr
    refine ⟨hmade, fun hpos => ⟨?_, hwithin.keys hpos⟩, hwithin.fill⟩
    have hfew := Nat.lt_of_le_of_lt (hwithin.keys hpos) max_keys.toNat_lt
    rw [UInt64.le_iff_toNat_le, hmade.key_count, UInt64.toNat_ofNat_of_lt' hfew]
    exact hwithin.keys hpos
  · have hsettled := settled_flushDue s.aggregator it now wall
    rwa [hwindow] at hsettled

end Netos.QueryBfLedger
