import Netos.Node.BloomDatagrams
import Netos.Tables.QueryBfLedger

/-!
# The answers to a Query-BF

Which `DATA` a node hands to its forward queue while it handles a Query-BF, from the keys that an
aggregator collected at the origin to the answers of a node that holds some of them. `answered` says
what the loop over the local keys does, key by key; `query_answers_exact` composes it with the
filter that `flush_due` made, its hexadecimal form and the checks of the handler.
-/

namespace Netos

open CString Cxx

/-- The `DATA` messages among what is handed to the forward queue. -/
def dataMessages (sends : List Send) : List Message :=
  (sends.map Send.msg).filter fun msg => msg.type = .data

namespace Node

/-! ## The loop over the local keys -/

/-- The keys that are answered, with their values. -/
def answered (n : Node) (env : Env) (filter : BloomFilter) (keys : List Bytes) :
    List (Bytes × Bytes) :=
  keys.filterMap fun key =>
    if filter.maybeContains key then (n.redisGet env key).map fun value => (key, value) else none

/-- The loop answers exactly these keys, in their order, each with a `DATA` for the origin. -/
theorem answerKeys_eq_answered (env : Env) (msg : Message) (filter : BloomFilter)
    (sender : SockaddrIn) (keys : List Bytes) (i : ℕ) (n : Node) :
    ((answerKeys env msg filter sender keys i n).2.map fun s => (s.msg.key, s.msg.value)) =
      n.answered env filter keys ∧
    ∀ s ∈ (answerKeys env msg filter sender keys i n).2,
      s.msg.type = .data ∧ s.msg.origin = msg.origin := by
  induction keys generalizing i n with
  | nil => exact ⟨rfl, fun _ h => absurd h List.not_mem_nil⟩
  | cons key keys ih =>
    unfold answerKeys answered
    rw [List.filterMap_cons]
    split_ifs with hmatch
    · cases hget : n.redisGet env key with
      | none => exact ih i n
      | some value =>
        -- The id that is made counts a counter on, and changes no lookup.
        obtain ⟨hkeys, hdata⟩ := ih (i + 1) (n.makeRequestId (env.id_ms i)).1
        refine ⟨?_, fun s hs => ?_⟩
        · have hrest : (n.makeRequestId (env.id_ms i)).1.answered env filter keys =
              n.answered env filter keys := rfl
          rw [hrest] at hkeys
          exact congrArg ((key, value) :: ·) hkeys
        · rcases List.mem_cons.mp hs with rfl | hs
          · exact ⟨rfl, rfl⟩
          · exact hdata s hs
    · exact ih i n

/-- A key is answered with a value exactly when it is among the keys, the filter matches it and the
lookup finds the value. -/
theorem mem_answered {n : Node} {env : Env} {filter : BloomFilter} {keys : List Bytes}
    {key value : Bytes} :
    (key, value) ∈ n.answered env filter keys ↔
      key ∈ keys ∧ filter.maybeContains key = true ∧ n.redisGet env key = some value := by
  unfold answered
  rw [List.mem_filterMap]
  constructor
  · rintro ⟨k, hk, h⟩
    split_ifs at h with hmatch
    obtain ⟨v, hv, heq⟩ := Option.map_eq_some_iff.mp h
    obtain ⟨rfl, rfl⟩ := Prod.mk.inj heq
    exact ⟨hk, hmatch, hv⟩
  · rintro ⟨hk, hmatch, hget⟩
    exact ⟨key, hk, by simp [hmatch, hget]⟩

/-- No key is answered twice. -/
theorem nodup_answered (n : Node) (env : Env) (filter : BloomFilter) {keys : List Bytes}
    (h : keys.Nodup) : ((n.answered env filter keys).map Prod.fst).Nodup := by
  have hsublist : ((n.answered env filter keys).map Prod.fst).Sublist keys := by
    unfold answered
    induction keys with
    | nil => exact List.Sublist.refl _
    | cons key keys ih =>
      have hrest := ih h.of_cons
      rw [List.filterMap_cons]
      split
      · exact hrest.cons key
      · next entry hentry =>
        have hfst : entry.1 = key := by
          split_ifs at hentry with hmatch
          obtain ⟨v, -, rfl⟩ := Option.map_eq_some_iff.mp hentry
          rfl
        rw [List.map_cons, hfst]
        exact hrest.cons_cons key
  exact hsublist.nodup h

/-! ## The handler -/

/-- Whether and how the Query-BF is relayed, the `DATA` messages are the answers of the loop. -/
theorem dataMessages_handleQueryBloom {n : Node} {env : Env} {msg : Message} {filter : BloomFilter}
    (sender : SockaddrIn) (htype : msg.type = .queryBloom)
    (hfilter : n.queryBloomFilter env msg = some filter) :
    dataMessages (n.handleQueryBloom env msg sender).2 =
      (answerKeys env msg filter sender (env.order.order n.local_keys.keys) 0 n).2.map
        Send.msg := by
  obtain ⟨-, hdata⟩ := answerKeys_eq_answered env msg filter sender
    (env.order.order n.local_keys.keys) 0 n
  have hanswers : dataMessages (answerKeys env msg filter sender
      (env.order.order n.local_keys.keys) 0 n).2 =
      (answerKeys env msg filter sender (env.order.order n.local_keys.keys) 0 n).2.map
        Send.msg := by
    unfold dataMessages
    rw [List.filter_eq_self]
    intro m hm
    obtain ⟨s, hs, rfl⟩ := List.mem_map.mp hm
    exact decide_eq_true (hdata s hs).1
  unfold handleQueryBloom
  rw [hfilter]
  dsimp only
  split_ifs with hlast hallowed
  · exact hanswers
  · -- The relay is no `DATA`.
    have hrelay : dataMessages [.broadcast { msg with ttl := msg.ttl - 1 } (some sender)] = [] := by
      simp [dataMessages, Send.msg, htype]
    have happend : ∀ xs ys : List Send,
        dataMessages (xs ++ ys) = dataMessages xs ++ dataMessages ys := by
      intro xs ys
      simp [dataMessages]
    rw [happend, hrelay, List.append_nil]
    exact hanswers
  · exact hanswers

/-- The `DATA` messages for a Query-BF that passes the checks: the keys and the values are those of
the loop, in its order, and the origin is that of the Query-BF. -/
theorem dataMessages_handleWireMessage {n : Node} {env : Env} {msg : Message} {filter : BloomFilter}
    {wire : Bytes} (sender : SockaddrIn) (hwire : fromWire wire = some msg)
    (htype : msg.type = .queryBloom) (hfilter : n.queryBloomFilter env msg = some filter) :
    ((dataMessages (n.handleWireMessage env wire sender).2).map fun m => (m.key, m.value)) =
        n.answered env filter (env.order.order n.local_keys.keys) ∧
      ∀ m ∈ dataMessages (n.handleWireMessage env wire sender).2, m.origin = msg.origin := by
  have hhandled : n.handleWireMessage env wire sender = n.handleQueryBloom env msg sender := by
    unfold handleWireMessage
    rw [hwire]
    dsimp only
    rw [htype]
  obtain ⟨hkeys, hdata⟩ := answerKeys_eq_answered env msg filter sender
    (env.order.order n.local_keys.keys) 0 n
  rw [hhandled, dataMessages_handleQueryBloom sender htype hfilter]
  constructor
  · rw [List.map_map]
    exact hkeys
  · intro m hm
    obtain ⟨send, hsend, rfl⟩ := List.mem_map.mp hm
    exact (hdata send hsend).2

/-- A message carries a batch, with any hop limit. -/
structure Carries (msg : Message) (batch : QueryBloomBatch) : Prop where
  /-- It is a Query-BF. -/
  type : msg.type = .queryBloom
  /-- Its id is that of the batch. -/
  request_id : msg.request_id = batch.batch_id
  /-- Its origin is that of the batch. -/
  origin : msg.origin = batch.origin
  /-- Its key is the filter in hexadecimal. -/
  key : msg.key = batch.filter.toHex
  /-- Its value is the printed time of creation. -/
  value : msg.value = natToString batch.created_ms.toNat

/-- What `start_query_bloom_flush` broadcasts carries the batch. -/
theorem carries_batchMessage (n : Node) (batch : QueryBloomBatch) :
    Carries (n.batchMessage batch) batch := ⟨rfl, rfl, rfl, rfl, rfl⟩

/-- An age within the limit, as numbers, is within the limit as the code compares it. -/
theorem fresh_of_age {n : Node} {env : Env} {created_ms : UInt64}
    (h : ((env.wall_ms.toNat - created_ms.toNat : ℕ) : ℤ) ≤ n.config.query_bf_ttl_ms.toInt) :
    n.Fresh env created_ms := by
  intro hpast
  have hlt := n.config.query_bf_ttl_ms.toInt_lt
  have hnonneg : 0 ≤ n.config.query_bf_ttl_ms.toInt := le_trans (Int.natCast_nonneg _) h
  have hlimit : (UInt64.ofInt n.config.query_bf_ttl_ms.toInt).toNat =
      n.config.query_bf_ttl_ms.toInt.toNat := by
    have hmod : (n.config.query_bf_ttl_ms.toInt % 2 ^ 64).toNat =
        n.config.query_bf_ttl_ms.toInt.toNat := by omega
    have hsize : n.config.query_bf_ttl_ms.toInt.toNat < UInt64.size := by
      rw [show UInt64.size = 2 ^ 64 from rfl]
      omega
    rw [UInt64.ofInt, hmod, UInt64.toNat_ofNat_of_lt' hsize]
  rw [UInt64.le_iff_toNat_le, UInt64.toNat_sub_of_le _ _ hpast, hlimit]
  omega

/-- Query-BF answers are complete and exact. For every batch that the aggregator of a validated
configuration returned for its node, in any run of the aggregator, and every node in any state that
has filters of the same shape and decodes a message that carries the batch, with hops left and an
age within the limit: the `DATA` messages that it hands to its forward queue are one for each local
key that the filter matches and for which the lookup returns a value, with that value and the
batch's origin, none twice; and every key that the batch was built from, that is a local key and for
which the lookup returns a value, is among them. Nothing is assumed of the hops left and of the
limiter. -/
theorem query_answers_exact {config : Config} (hvalid : validateConfig config = .ok ())
    {redis : RedisClient.Store} {clock : ℤ} {calls : List QueryBfLedger.Call}
    {s : QueryBfLedger.State}
    (hrun : Machine.run QueryBfLedger.step
      (.init (construct config redis).query_bloom_aggregator clock) calls = some s)
    {r : QueryBfLedger.Returned} (hr : r ∈ s.returned)
    (horigin : r.batch.origin = config.node_id) (n : Node)
    (hbits : n.config.query_bf_bits = config.query_bf_bits)
    (hhashes : n.config.query_bf_hashes = config.query_bf_hashes) (env : Env) {wire : Bytes}
    {msg : Message} (sender : SockaddrIn) (hwire : fromWire wire = some msg)
    (hcarries : Carries msg r.batch) (httl : 0 < msg.ttl)
    (hage : ((env.wall_ms.toNat - r.batch.created_ms.toNat : ℕ) : ℤ) ≤
      n.config.query_bf_ttl_ms.toInt) :
    let answers := dataMessages (n.handleWireMessage env wire sender).2
    (answers.map Message.key).Nodup ∧
    (∀ key value, (∃ m ∈ answers, m.key = key ∧ m.value = value) ↔
      key ∈ n.local_keys ∧ r.batch.filter.maybeContains key = true ∧
        n.redisGet env key = some value) ∧
    (∀ m ∈ answers, m.origin = config.node_id) ∧
    ∀ call ∈ r.calls, ∀ value, call.key ∈ n.local_keys → n.redisGet env call.key = some value →
      ∃ m ∈ answers, m.key = call.key ∧ m.value = value := by
  intro answers
  have hconfig : config.Valid := (validateConfig_eq_ok_iff config).mp hvalid
  have hmade : QueryBfLedger.MadeOf (toSize config.query_bf_bits) (toSize config.query_bf_hashes)
      r.batch r.calls :=
    (Machine.run_invariant (fun _ _ _ h hstep => h.step hstep)
      (QueryBfLedger.matches_init _ _ _ _ clock) hrun).returned r hr
  have hfilter : r.batch.filter = BloomFilter.ofValues (toSize config.query_bf_bits)
      (toSize config.query_bf_hashes) (r.calls.map QueryBfLedger.AddCall.key) := by
    rw [hmade.filter, QueryBfLedger.filterOf_eq_ofValues]
  obtain ⟨hbits', hhashes'⟩ := BloomFilter.ofValues_shape (toSize config.query_bf_bits)
    (toSize config.query_bf_hashes) (r.calls.map QueryBfLedger.AddCall.key)
  rw [← hfilter] at hbits' hhashes'
  -- The message passes the checks, and the filter is the one of the origin.
  have hdecoded : n.queryBloomFilter env msg = some r.batch.filter := by
    refine queryBloomFilter_of_fresh ?_ httl hcarries.key hcarries.value (fresh_of_age hage)
      ?_ ?_ ?_
    · rw [hcarries.origin, horigin]
      exact hconfig.node_id
    · rw [hbits']
      exact toSize_ne_zero hconfig.query_bf_bits
    · rw [hbits, hbits']
    · rw [hhashes, hhashes']
  obtain ⟨hpairs, horigins⟩ := dataMessages_handleWireMessage sender hwire hcarries.type hdecoded
  have hexact : ∀ key value, (∃ m ∈ answers, m.key = key ∧ m.value = value) ↔
      key ∈ n.local_keys ∧ r.batch.filter.maybeContains key = true ∧
        n.redisGet env key = some value := by
    intro key value
    have hmem : (∃ m ∈ answers, m.key = key ∧ m.value = value) ↔
        (key, value) ∈ answers.map (fun m => (m.key, m.value)) := by
      rw [List.mem_map]
      simp only [Prod.mk.injEq]
    rw [hmem, hpairs, mem_answered, Iteration.mem_order, AList.mem_keys]
  refine ⟨?_, hexact, fun m hm => ?_, ?_⟩
  · have hfst : answers.map Message.key =
        (answers.map (fun m => (m.key, m.value))).map Prod.fst := by
      rw [List.map_map]
      rfl
    rw [hfst, hpairs]
    exact nodup_answered n env _ ((env.order.perm _).nodup_iff.mpr n.local_keys.keys_nodup)
  · rw [horigins m hm, hcarries.origin, horigin]
  · intro call hcall value hlocal hget
    refine (hexact call.key value).mpr ⟨hlocal, ?_, hget⟩
    rw [hfilter]
    exact BloomFilter.maybeContains_ofValues (toSize_ne_zero hconfig.query_bf_bits)
      (toSize_ne_zero hconfig.query_bf_hashes) (List.mem_map_of_mem hcall)

/-- A node that holds three keys. -/
def holder : Node :=
  let n := construct (bloomConfig 512) fun key =>
    if [ascii "k", ascii "l", ascii "m"].contains key then some (key ++ ascii "1") else none
  ((n.recordLocalKey (ascii "k")).recordLocalKey (ascii "l")).recordLocalKey (ascii "m")

/-- Redis fails on one of them. -/
def failing : Env := { get_fails := fun key => key = ascii "m" }

/-- A batch of three keys. The node holds `k`, does not hold `n`, and cannot look up `m`; its key
`l` is not in the batch. So it answers `k` alone. -/
theorem query_answers_exact_three :
    ∃ (r : QueryBfLedger.Returned) (wire : Bytes),
      r.calls.map QueryBfLedger.AddCall.key = [ascii "k", ascii "m", ascii "n"] ∧
      ∀ key value, (∃ m ∈ dataMessages (holder.handleWireMessage failing wire {}).2,
        m.key = key ∧ m.value = value) ↔ key = ascii "k" ∧ value = ascii "k1" := by
  -- The origin collects the keys, and the batch leaves at 201 ms.
  have hbatch : (Machine.run QueryBfLedger.step
      (.init (construct (bloomConfig 512) fun _ => none).query_bloom_aggregator 0)
      [.addKey ⟨ascii "node1", ascii "k", 1000000, .same 1⟩,
        .addKey ⟨ascii "node1", ascii "m", 2000000, .same 2⟩,
        .addKey ⟨ascii "node1", ascii "n", 3000000, .same 3⟩,
        .flushDue default 201000000 fun _ => 201]).bind
        (fun s => s.returned.head?.map fun r => (r.calls.map QueryBfLedger.AddCall.key,
          r.batch.origin, r.batch.batch_id, r.batch.created_ms,
          [ascii "k", ascii "l"].map r.batch.filter.maybeContains)) =
      some ([ascii "k", ascii "m", ascii "n"], ascii "node1", ascii "qbf-node1-1", 1,
        [true, false]) := by
    decide +kernel
  obtain ⟨s, hrun, hhead⟩ := Option.bind_eq_some_iff.mp hbatch
  obtain ⟨r, hr, hvalues⟩ := Option.map_eq_some_iff.mp hhead
  simp only [Prod.mk.injEq, List.map_cons, List.map_nil, List.cons.injEq, and_true] at hvalues
  obtain ⟨hkeys, horigin, hid, hcreated, hmatched, hunmatched⟩ := hvalues
  let msg : Message := ⟨.queryBloom, r.batch.batch_id, r.batch.origin, 3, r.batch.filter.toHex,
    natToString r.batch.created_ms.toNat⟩
  have hfree : msg.DelimiterFree := by
    refine ⟨?_, ?_, BloomFilter.bar_not_mem_toHex _, bar_not_mem_natToString _⟩
    · change bar ∉ r.batch.batch_id
      rw [hid]
      decide
    · change bar ∉ r.batch.origin
      rw [horigin]
      decide
  refine ⟨r, msg.toWire, hkeys, fun key value => ?_⟩
  obtain ⟨-, hexact, -, -⟩ := query_answers_exact validateConfig_bloomConfig hrun
    (List.mem_of_head? hr) horigin holder
    rfl rfl failing {} (fromWire_toWire hfree) ⟨rfl, rfl, rfl, rfl, rfl⟩
    (show (0 : Int32) < 3 by decide) (by rw [hcreated]; decide)
  rw [hexact]
  constructor
  · rintro ⟨hlocal, hcontains, hget⟩
    have hheld : key = ascii "m" ∨ key = ascii "l" ∨ key = ascii "k" := by
      have hkeys : holder.local_keys.keys = [ascii "m", ascii "l", ascii "k"] := by decide
      rw [AList.mem_keys, hkeys] at hlocal
      simpa using hlocal
    rcases hheld with rfl | rfl | rfl
    · exact absurd hget (by simp [redisGet, failing])
    · rw [hunmatched] at hcontains
      exact absurd hcontains Bool.false_ne_true
    · refine ⟨rfl, Option.some.inj (hget.symm.trans ?_)⟩
      decide
  · rintro ⟨rfl, rfl⟩
    exact ⟨by decide, hmatched, by decide⟩

end Node

end Netos
