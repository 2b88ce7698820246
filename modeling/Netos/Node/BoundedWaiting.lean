import Netos.Node.BloomDatagrams
import Netos.Node.KeyLedger

/-!
# How long a missed key waits

The loops of `start_content_bf_fallbacks` and `start_query_bloom_flush` run every so often. When no
two rounds of either are more than a gap apart, a miss stays in the fallback table for less than the
window of the table and the gap, and in the aggregator for less than the aggregation window and the
gap. So after both, unless the node gave it up for one of three reasons, a Query-BF made of a call
of `add_key` for the miss was handed to the forward queue (`asked_in_time`).

The reason is the same in both tables: what a round leaves behind is younger than the window.
-/

namespace Netos.BoundedWaiting

open CString Cxx ContentBfFallbackTable KeyLedger

/-- The steady clock of an event. -/
def steady? : NodeRun.Event → Option ℤ
  | .receive _ _ env _ => some env.steady
  | .work _ env _ => some env.steady
  | .dispatch _ => none

/-- Readings of the steady clock. -/
structure Timing where
  /-- The last reading. -/
  clock : ℤ
  /-- The last round of `start_content_bf_fallbacks`. -/
  fallback_round : ℤ
  /-- The last round of `start_query_bloom_flush`. -/
  flush_round : ℤ

/-- The readings after an event. -/
def Timing.read (t : Timing) : NodeRun.Event → Timing
  | .receive _ _ env _ => { t with clock := env.steady }
  | .work .takeFallbacks env _ => { t with clock := env.steady, fallback_round := env.steady }
  | .work .flushQueryBlooms env _ => { t with clock := env.steady, flush_round := env.steady }
  | .work (.seed _) env _ => { t with clock := env.steady }
  | .work (.request _) env _ => { t with clock := env.steady }
  | .work .exchangeContentBloom env _ => { t with clock := env.steady }
  | .work (.reloadTopology _) env _ => { t with clock := env.steady }
  | .dispatch _ => t

/-- A node in its run with its ledger, and the clock. -/
structure State where
  /-- The node and the ledger. -/
  kept : KeyLedger.State
  /-- The clock. -/
  timing : Timing

/-- One step. -/
def step (R : Resolver) (s : State) (e : NodeRun.Event) : Option State :=
  (KeyLedger.step R s.kept e).map fun kept => ⟨kept, s.timing.read e⟩

/-- A node that starts its loops. -/
def init (config : Config) (redis : RedisClient.Store) (clock : ℤ) : State where
  kept := KeyLedger.init config redis clock
  timing := ⟨clock, clock, clock⟩

/-- The clock does not go back, and no round of the two loops is late by more than a gap. -/
def OnTime (gap : ℤ) (s : State) (e : NodeRun.Event) : Prop :=
  ∀ now ∈ steady? e, s.timing.clock ≤ now ∧ now ≤ s.timing.fallback_round + gap ∧
    now ≤ s.timing.flush_round + gap

/-- Decidable, so that a run can be checked. -/
instance (gap : ℤ) (s : State) (e : NodeRun.Event) : Decidable (OnTime gap s e) :=
  inferInstanceAs (Decidable (∀ now ∈ steady? e, _))

/-- A call of `add_key` for the key is made at the time of the miss, or less than some time after
it. -/
def Prompt (delay : ℤ) (call : QueryBfLedger.AddCall) (miss : Miss) : Prop :=
  call.key = miss.key ∧ miss.time ≤ call.now ∧ call.now < miss.time + delay

/-- What a flush left in the aggregator is younger than the aggregation window, in nanoseconds. -/
structure YoungBatches (aggregation clock flush_round : ℤ) (b : QueryBfLedger.State) : Prop where
  /-- The window. -/
  aggregation_eq : milliseconds b.aggregator.aggregation_window = aggregation
  /-- The buffers in use were reset in the past. -/
  created : ∀ origin, (b.aggregator.buffer origin).created_ms ≠ 0 →
    (b.aggregator.buffer origin).created_at ≤ clock
  /-- The calls of a live buffer were made since it was reset, and not long before the flush. -/
  live : ∀ origin, ∀ call ∈ b.live origin, (b.aggregator.buffer origin).created_at ≤ call.now ∧
    flush_round < call.now + aggregation
  /-- So were those of a pending batch. -/
  pending : ∀ p ∈ b.pending, ∀ call ∈ p.calls, flush_round < call.now + aggregation

variable {aggregation clock flush_round : ℤ} {b : QueryBfLedger.State}

/-- The calls of a buffer that a key has joined were made since the buffer was reset. -/
theorem YoungBatches.joined (h : YoungBatches aggregation clock flush_round b)
    {call : QueryBfLedger.AddCall} (hnow : call.now = clock)
    (hpast : flush_round < clock + aggregation) :
    (b.aggregator.readyBuffer call.now call.wall (b.aggregator.buffer call.origin)).created_at ≤
        clock ∧
      ∀ c ∈ QueryBfLedger.joined b call,
        (b.aggregator.readyBuffer call.now call.wall
          (b.aggregator.buffer call.origin)).created_at ≤ c.now ∧
        flush_round < c.now + aggregation := by
  rw [QueryBloomAggregator.readyBuffer_eq]
  unfold QueryBfLedger.joined
  split_ifs with hrestarts
  · refine ⟨hnow.le, fun c hc => ?_⟩
    rw [List.mem_singleton.mp hc, hnow]
    exact ⟨le_refl _, hpast⟩
  · -- A buffer that is not reset is in use.
    have hcreated : (b.aggregator.buffer call.origin).created_at ≤ clock :=
      h.created call.origin fun hunused => hrestarts (Or.inl hunused)
    refine ⟨hcreated, fun c hc => ?_⟩
    rcases List.mem_append.mp hc with hc | hc
    · exact h.live call.origin c hc
    · rw [List.mem_singleton.mp hc, hnow]
      exact ⟨hcreated, hpast⟩

/-- A key is added now. -/
theorem YoungBatches.addKey (h : YoungBatches aggregation clock flush_round b)
    {call : QueryBfLedger.AddCall} (hnow : call.now = clock)
    (hpast : flush_round < clock + aggregation) :
    YoungBatches aggregation clock flush_round (QueryBfLedger.addKey b call) := by
  obtain ⟨hcreated, hjoined⟩ := h.joined hnow hpast
  refine ⟨?_, fun origin hused => ?_, fun origin c hc => ?_, fun p hp c hc => ?_⟩
  · rw [← h.aggregation_eq]
    exact congrArg milliseconds (QueryBfLedger.addKey_window _ _ _ _ _)
  · by_cases horigin : origin = call.origin
    · subst horigin
      simp only [QueryBfLedger.addKey, QueryBloomAggregator.buffer_addKey_self]
      split_ifs
      · exact hnow.le
      · exact hcreated
    · simp only [QueryBfLedger.addKey, QueryBloomAggregator.buffer_addKey_of_ne _ horigin]
        at hused ⊢
      exact h.created origin hused
  · by_cases horigin : origin = call.origin
    · subst horigin
      simp only [QueryBfLedger.addKey, QueryBloomAggregator.buffer_addKey_self,
        Function.update_self] at hc ⊢
      split_ifs at hc ⊢
      · exact absurd hc List.not_mem_nil
      · exact hjoined c hc
    · simp only [QueryBfLedger.addKey, QueryBloomAggregator.buffer_addKey_of_ne _ horigin,
        Function.update_of_ne horigin] at hc ⊢
      exact h.live origin c hc
  · rcases QueryBfLedger.mem_pending_addKey hp with hp | rfl
    · exact h.pending p hp c hc
    · exact (hjoined c hc).2

/-- A flush leaves nothing behind that is as old as the window. -/
theorem YoungBatches.flushDue {bit_count hash_count : ℕ}
    (h : YoungBatches aggregation clock flush_round b)
    (hright : QueryBfLedger.Matches bit_count hash_count b)
    (hused : 0 < b.aggregator.aggregation_window) (it : Iteration)
    (wall : Bytes → UInt64) :
    YoungBatches aggregation clock clock (QueryBfLedger.flushDue b it clock wall) := by
  refine ⟨h.aggregation_eq, fun origin hcreated => ?_, fun origin c hc => ?_,
    fun p hp => absurd hp List.not_mem_nil⟩
  · simp only [QueryBfLedger.flushDue, QueryBloomAggregator.buffer_flushDue] at hcreated ⊢
    split_ifs at hcreated ⊢
    · exact le_refl _
    · exact h.created origin hcreated
  · simp only [QueryBfLedger.flushDue, QueryBloomAggregator.buffer_flushDue] at hc ⊢
    split_ifs at hc ⊢ with hdue
    · exact absurd hc List.not_mem_nil
    · -- A buffer with a call that is not due is younger than the window.
      obtain ⟨hsince, -⟩ := h.live origin c hc
      have hdata : (b.aggregator.buffer origin).has_data = true :=
        (hright.live origin).has_data.mpr (List.ne_nil_of_mem hc)
      have hyoung : clock - (b.aggregator.buffer origin).created_at < aggregation := by
        rw [← h.aggregation_eq]
        simpa [QueryBloomAggregator.due, hdata, hused] using hdue
      exact ⟨hsince, by omega⟩

/-- What the rounds left behind is younger than the windows. These and the gap are in
nanoseconds. -/
structure Young (window aggregation gap : ℤ) (timing : Timing) (t : ContentBfFallbackTable)
    (l : Ledger) : Prop where
  /-- The rounds are past. -/
  past : timing.fallback_round ≤ timing.clock ∧ timing.flush_round ≤ timing.clock
  /-- They are not long past. -/
  recent : timing.clock ≤ timing.fallback_round + gap ∧ timing.clock ≤ timing.flush_round + gap
  /-- The window of the fallback table. -/
  window_eq : milliseconds t.window = window
  /-- The entries of the fallback table were not due in its last round. -/
  entries : ∀ k e, t.entries.lookup k = some e → timing.fallback_round < e.deadline
  /-- The keys given to the aggregator were not missed long before. -/
  prompt : List.Forall₂ (Prompt (window + gap)) l.batches.accepted l.collected
  /-- The aggregator. -/
  batches : YoungBatches aggregation timing.clock timing.flush_round l.batches

variable {window gap : ℤ} {timing : Timing} {t : ContentBfFallbackTable} {l : Ledger}

/-- Time passes. -/
theorem Young.advance (h : Young window aggregation gap timing t l) {now : ℤ}
    (hnow : timing.clock ≤ now) (hfallback : now ≤ timing.fallback_round + gap)
    (hflush : now ≤ timing.flush_round + gap) :
    Young window aggregation gap { timing with clock := now } t l where
  past := ⟨h.past.1.trans hnow, h.past.2.trans hnow⟩
  recent := ⟨hfallback, hflush⟩
  window_eq := h.window_eq
  entries := h.entries
  prompt := h.prompt
  batches :=
    { h.batches with
      created := fun origin hused => (h.batches.created origin hused).trans hnow }

/-- What the ledger says of the aggregator is all that matters. -/
theorem Young.of_batches (h : Young window aggregation gap timing t l) {l' : Ledger}
    (hbatches : l'.batches = l.batches) (hcollected : l'.collected = l.collected) :
    Young window aggregation gap timing t l' :=
  { h with
    prompt := by
      rw [hbatches, hcollected]
      exact h.prompt
    batches := by
      rw [hbatches]
      exact h.batches }

/-- A table with fewer entries. -/
theorem Young.of_entries (h : Young window aggregation gap timing t l) {t' : ContentBfFallbackTable}
    (hwindow : t'.window = t.window)
    (hentries : ∀ k e, t'.entries.lookup k = some e → t.entries.lookup k = some e) :
    Young window aggregation gap timing t' l :=
  { h with
    window_eq := by rw [hwindow, h.window_eq]
    entries := fun k e hk => h.entries k e (hentries k e hk) }

/-- An entry that is scheduled now is not due before. -/
theorem Young.schedule (h : Young window aggregation gap timing t l) (hwindow : 0 < window)
    (key origin : Bytes) :
    Young window aggregation gap timing (t.schedule timing.clock key origin).1 l := by
  have hsame : (t.schedule timing.clock key origin).1.window = t.window := by
    unfold ContentBfFallbackTable.schedule
    split_ifs <;> rfl
  refine { h with window_eq := by rw [hsame, h.window_eq], entries := fun k e hk => ?_ }
  rcases lookup_schedule hk with hk | ⟨-, rfl⟩
  · exact h.entries k e hk
  · have hpast := h.past.1
    have heq := h.window_eq
    dsimp only
    omega

/-- What a round of `take_due` leaves behind is not due. -/
theorem Young.takeDue (h : Young window aggregation gap timing t l) (hused : 0 < t.window)
    (it : Iteration) :
    Young window aggregation gap { timing with fallback_round := timing.clock }
      (t.takeDue it timing.clock).1 l := by
  have htable : (t.takeDue it timing.clock).1 = { t with
      entries := Cxx.filter (fun _ e => !decide (timing.clock ≥ e.deadline)) t.entries } := by
    rw [ContentBfFallbackTable.takeDue, if_neg (not_le.mpr hused)]
  have hpast := h.past.1
  have hrecent := h.recent.1
  rw [htable]
  refine { h with past := ⟨le_refl _, h.past.2⟩, recent := ⟨?_, h.recent.2⟩, entries := ?_ }
  · dsimp only
    omega
  · intro k e hk
    rw [lookup_filter, Option.filter_eq_some_iff] at hk
    simpa using hk.2

/-- A miss that is not old is given to the aggregator. -/
theorem Young.collect (h : Young window aggregation gap timing t l) (haggregation : 0 < aggregation)
    {env : Env} (henv : env.steady = timing.clock) (origin : Bytes) {miss : Miss}
    (hmiss : miss.time ≤ timing.clock ∧ timing.clock < miss.time + (window + gap)) :
    Young window aggregation gap timing t (l.collect env origin miss) := by
  have hpast := h.past.2
  have haccepted : (l.collect env origin miss).batches.accepted =
      l.batches.accepted ++ [⟨origin, miss.key, env.steady, env.add_ms miss.key⟩] := by
    simp [Ledger.collect, QueryBfLedger.addKey, QueryBloomAggregator.accepted_addKey]
  refine { h with prompt := ?_, batches := h.batches.addKey henv (by omega) }
  rw [haccepted]
  have hprompt : Prompt (window + gap) ⟨origin, miss.key, env.steady, env.add_ms miss.key⟩ miss :=
    ⟨rfl, hmiss.1.trans henv.ge, henv.trans_lt hmiss.2⟩
  exact List.rel_append h.prompt (List.Forall₂.cons hprompt List.Forall₂.nil)

/-- So are misses that are not old, one after the other. -/
theorem Young.collectAll (haggregation : 0 < aggregation) {env : Env}
    (henv : env.steady = timing.clock) {misses : Entry → Miss} {entries : List Entry}
    (hmisses : ∀ e ∈ entries, (misses e).time ≤ timing.clock ∧
      timing.clock < (misses e).time + (window + gap))
    (h : Young window aggregation gap timing t l) :
    Young window aggregation gap timing t
      (entries.foldl (fun l e => l.collect env e.origin (misses e)) l) := by
  induction entries generalizing l with
  | nil => exact h
  | cons e entries ih =>
    obtain ⟨he, hentries⟩ := List.forall_mem_cons.mp hmisses
    exact ih hentries (h.collect haggregation henv e.origin he)

/-- A flush now. -/
theorem Young.flush (h : Young window aggregation gap timing t l) {bit_count hash_count : ℕ}
    (hright : QueryBfLedger.Matches bit_count hash_count l.batches)
    (hused : 0 < l.batches.aggregator.aggregation_window) (it : Iteration)
    (wall : Bytes → UInt64) (asked : List Message) :
    Young window aggregation gap { timing with flush_round := timing.clock } t
      { l with batches := QueryBfLedger.flushDue l.batches it timing.clock wall, asked } := by
  have hpast := h.past.2
  have hrecent := h.recent.2
  refine { h with
    past := ⟨h.past.1, le_refl _⟩
    recent := ⟨h.recent.1, ?_⟩
    batches := h.batches.flushDue hright hused it wall }
  dsimp only
  omega

/-! ## The events of a node -/

/-- A datagram takes entries out of the fallback table only. -/
theorem Young.receive {n : Node} {env : Env} {wire : Bytes} {sender : SockaddrIn}
    {sent : ℕ → ℕ → Bool} (h : Young window aggregation gap timing n.content_bf_fallback l) :
    Young window aggregation gap timing
      (n.handleWireMessage env wire sender).1.content_bf_fallback
      (l.record n (.receive wire sender env sent)) := by
  rw [fallback_handleWireMessage]
  simp only [Ledger.record]
  cases storedData n env wire with
  | none => exact h
  | some msg =>
    have hfewer : Young window aggregation gap timing
        (n.content_bf_fallback.cancel msg.key msg.origin).1 l :=
      h.of_entries rfl fun k e hk => (lookup_cancel hk).1
    exact hfewer.of_batches rfl rfl

/-- A round of `schedule_requests` now. -/
theorem Young.request {n : Node} {env : Env} (key : Bytes) (hwindow : 0 < window)
    (haggregation : 0 < aggregation) (henv : env.steady = timing.clock)
    (h : Young window aggregation gap timing n.content_bf_fallback l) :
    Young window aggregation gap timing (n.scheduleRequest env key).1.content_bf_fallback
      (l.request n env key) := by
  have hgap : 0 ≤ gap := by
    have hpast := h.past.1
    have hrecent := h.recent.1
    omega
  unfold Node.scheduleRequest Ledger.request
  cases n.redisGet env key with
  | some value => exact h
  | none =>
    dsimp only [Node.makeRequestId]
    cases (n.content_bloom.selectNeighbor env.order env.steady key).2 with
    | some addr =>
      dsimp only
      rw [henv]
      exact (h.schedule hwindow key n.config.node_id).of_batches rfl rfl
    | none =>
      have hmissed : Young window aggregation gap timing n.content_bf_fallback
          { l with missed := l.missed ++ [⟨key, env.steady⟩] } := h.of_batches rfl rfl
      exact hmissed.collect haggregation henv n.config.node_id
        ⟨henv.le, by dsimp only; omega⟩

/-- A round of `start_content_bf_fallbacks` now. -/
theorem Young.takeFallbacks {n : Node} {env : Env} (haggregation : 0 < aggregation)
    (hused : 0 < n.content_bf_fallback.window) (henv : env.steady = timing.clock)
    (h : Young window aggregation gap timing n.content_bf_fallback l) :
    Young window aggregation gap { timing with fallback_round := timing.clock }
      (n.takeFallbacks env).content_bf_fallback (l.takeFallbacks n env) := by
  -- What is due now was not due a round before.
  have hdue : ∀ e ∈ n.content_bf_fallback.dueEntries env.order env.steady,
      (missOf n.content_bf_fallback.window e).time ≤ timing.clock ∧
        timing.clock < (missOf n.content_bf_fallback.window e).time + (window + gap) := by
    intro e he
    obtain ⟨⟨k, hk⟩, hpassed⟩ := mem_dueEntries he
    have hentry := h.entries k e hk
    have hrecent := h.recent.1
    have heq := h.window_eq
    have hpos : 0 < milliseconds n.content_bf_fallback.window := by
      unfold milliseconds
      omega
    unfold missOf
    dsimp only
    omega
  obtain ⟨clock, fallback_round, flush_round⟩ := timing
  obtain rfl : env.steady = clock := henv
  exact Young.collectAll haggregation rfl hdue (h.takeDue hused env.order)

/-- Every event leaves the misses young, if it is on time. -/
theorem Young.handle {config : Config} {n : Node} {e : NodeRun.Event}
    (hright : Right config n l) (haggregation : 0 < aggregation)
    (h : Young window aggregation gap timing n.content_bf_fallback l)
    (hon : ∀ now ∈ steady? e, timing.clock ≤ now ∧ now ≤ timing.fallback_round + gap ∧
      now ≤ timing.flush_round + gap) :
    Young window aggregation gap (timing.read e) (e.handle n).content_bf_fallback
      (l.record n e) := by
  have hused : 0 < n.content_bf_fallback.window := hright.accounts.used
  have hwindow : 0 < window := by
    rw [← h.window_eq]
    unfold milliseconds
    omega
  cases e with
  | receive wire sender env sent =>
    obtain ⟨hclock, hfallback, hflush⟩ := hon env.steady rfl
    exact (h.advance hclock hfallback hflush).receive
  | work task env sent =>
    obtain ⟨hclock, hfallback, hflush⟩ := hon env.steady rfl
    have hnow := h.advance hclock hfallback hflush
    cases task with
    | seed position =>
      have hsame : (n.runTask env (.seed position)).1.content_bf_fallback =
          n.content_bf_fallback := by
        unfold Node.runTask Node.seedKey
        dsimp only
        split
        · rfl
        · dsimp only
          split_ifs <;> rfl
      unfold NodeRun.Event.handle
      rw [hsame]
      exact hnow
    | request key => exact hnow.request key hwindow haggregation rfl
    | exchangeContentBloom => exact hnow
    | takeFallbacks => exact hnow.takeFallbacks haggregation hused rfl
    | flushQueryBlooms =>
      have hagg : 0 < l.batches.aggregator.aggregation_window := by
        have heq := h.batches.aggregation_eq
        unfold milliseconds at heq
        omega
      exact hnow.flush hright.accounts.right hagg env.order env.flush_ms _
    | reloadTopology neighbors => exact hnow
  | dispatch sent => exact h

/-- The durations of a configuration, in nanoseconds. -/
def fallbackWindow (config : Config) : ℤ := milliseconds config.content_bf_fallback_ms.toInt

/-- The durations of a configuration, in nanoseconds. -/
def aggregationWindow (config : Config) : ℤ := milliseconds config.query_bf_aggregation_ms.toInt

/-- A configuration that passes validation gives batches time to fill. -/
theorem aggregationWindow_pos {config : Config} (hvalid : config.Valid) :
    0 < aggregationWindow config := by
  have hpos := Int32.lt_iff_toInt_lt.mp hvalid.query_bf_aggregation_ms
  unfold aggregationWindow milliseconds
  simp only [Int32.toInt_zero] at hpos
  omega

/-- The invariant of the runs that are on time. -/
structure Timely (config : Config) (gap : ℤ) (s : State) : Prop where
  /-- The ledger is right. -/
  right : Right config s.kept.run.node s.kept.ledger
  /-- What waits is young. -/
  young : Young (fallbackWindow config) (aggregationWindow config) gap s.timing
    s.kept.run.node.content_bf_fallback s.kept.ledger

/-- Every step that is on time keeps the invariant. -/
theorem Timely.step {R : Resolver} {config : Config} {s s' : State} {e : NodeRun.Event}
    (hvalid : config.Valid) (h : Timely config gap s) (hon : OnTime gap s e)
    (hstep : step R s e = some s') : Timely config gap s' := by
  obtain ⟨kept, hkept, rfl⟩ := Option.map_eq_some_iff.mp hstep
  have hright := h.right.step hkept
  obtain ⟨run, hrun, rfl⟩ := Option.map_eq_some_iff.mp hkept
  obtain ⟨network, sync_table, hnode⟩ := NodeRun.node_step hrun
  refine ⟨hright, ?_⟩
  dsimp only
  rw [hnode]
  exact h.young.handle h.right (aggregationWindow_pos hvalid) hon

end Netos.BoundedWaiting
