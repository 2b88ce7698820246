import Netos.Node.QueryAnswers
import Netos.Node.RejectedInput
import Netos.System.Summaries
import Netos.System.Vocabulary

/-!
# Why a node holds a key

A node stores whatever `DATA` bears its id as the origin, and does not check that it asked for the
key. It is not sent anything else, though: a request names the key that its origin asks for, a
Query-BF is a filter of keys that its origin asks for, and the answer to either is a key that was
named or that the filter matches. So a node holds its seeds, the keys that it asks for, and false
positives of its own filters, and nothing besides (`holdings_explained`).

The keys that the nodes ask for are fixed for a run: `asked`, which in the end is what the
configurations say. Under a vocabulary of short words no key is cut on its way.
-/

namespace Netos

open CString Cxx

variable {bit_count hash_count : ℕ} {keys : Set Bytes}

/-- A filter to which nothing was added. -/
theorem filterOf_construct (bit_count hash_count : ℕ) (keys : Set Bytes) :
    FilterOf bit_count hash_count keys (.construct bit_count hash_count) :=
  ⟨[], fun _ h => absurd h List.not_mem_nil, rfl⟩

namespace QueryBloomAggregator

/-- Only keys of a set were given to the aggregator. -/
structure Gathers (bit_count hash_count : ℕ) (keys : Set Bytes) (a : QueryBloomAggregator) :
    Prop where
  /-- The number of bits. -/
  bits : a.bit_count = bit_count
  /-- The number of hashes. -/
  hashes : a.hash_count = hash_count
  /-- The filters of the buffers. -/
  buffers : ∀ e ∈ a.buffers.entries, FilterOf bit_count hash_count keys e.2.filter
  /-- The filters of the pending batches. -/
  pending : ∀ batch ∈ a.pending_batches, FilterOf bit_count hash_count keys batch.filter

variable {a : QueryBloomAggregator}

/-- A buffer that was reset is empty. -/
theorem Gathers.resetBuffer (h : a.Gathers bit_count hash_count keys) (now : ℤ) (wall : UInt64) :
    FilterOf bit_count hash_count keys (a.resetBuffer now wall).filter := by
  have hempty : (a.resetBuffer now wall).filter = .construct bit_count hash_count := by
    rw [QueryBloomAggregator.resetBuffer, h.bits, h.hashes]
  rw [hempty]
  exact filterOf_construct bit_count hash_count keys

/-- The buffer that a key joins. -/
theorem Gathers.readyBuffer (h : a.Gathers bit_count hash_count keys) (origin : Bytes) (now : ℤ)
    (wall : ResetReadings) :
    FilterOf bit_count hash_count keys (a.readyBuffer now wall (a.buffer origin)).filter := by
  rw [readyBuffer_eq]
  split_ifs with hrestarts
  · exact h.resetBuffer now _
  · -- A buffer that is not reset was in the map before.
    cases hlookup : a.buffers.lookup origin with
    | none => exact absurd (Or.inl (by simp [buffer, hlookup])) hrestarts
    | some b =>
      rw [buffer, hlookup]
      exact h.buffers ⟨origin, b⟩ (lookup_eq_some_iff.mp hlookup)

/-- A key of the set is given to the aggregator. -/
theorem Gathers.addKey (h : a.Gathers bit_count hash_count keys) (origin : Bytes) {key : Bytes}
    (hkey : key ∈ keys) (now : ℤ) (wall : ResetReadings) :
    (a.addKey origin key now wall).1.Gathers bit_count hash_count keys := by
  have hjoined : FilterOf bit_count hash_count keys
      ((a.readyBuffer now wall (a.buffer origin)).addKey key).filter :=
    (h.readyBuffer origin now wall).add hkey
  cases hsplit : a.splitReason ((a.readyBuffer now wall (a.buffer origin)).addKey key) with
  | some reason =>
    simp only [QueryBloomAggregator.addKey, hsplit]
    refine ⟨h.bits, h.hashes, fun e he => ?_, fun batch hbatch => ?_⟩
    · rcases mem_entries_insert he with rfl | he
      · exact h.resetBuffer now wall.split
      · exact h.buffers e he
    · rcases List.mem_append.mp hbatch with hbatch | hbatch
      · exact h.pending batch hbatch
      · obtain rfl := List.mem_singleton.mp hbatch
        exact hjoined
  | none =>
    simp only [QueryBloomAggregator.addKey, hsplit]
    refine ⟨h.bits, h.hashes, fun e he => ?_, h.pending⟩
    rcases mem_entries_insert he with rfl | he
    · exact hjoined
    · exact h.buffers e he

/-- A flush. -/
theorem Gathers.flushDue (h : a.Gathers bit_count hash_count keys) (it : Iteration) (now : ℤ)
    (wall : Bytes → UInt64) :
    (a.flushDue it now wall).1.Gathers bit_count hash_count keys ∧
      ∀ batch ∈ (a.flushDue it now wall).2, FilterOf bit_count hash_count keys batch.filter := by
  refine ⟨⟨h.bits, h.hashes, fun e he => ?_, fun _ hbatch => absurd hbatch List.not_mem_nil⟩,
    fun batch hbatch => ?_⟩
  · obtain ⟨e', he', rfl⟩ := List.mem_map.mp he
    dsimp only
    split_ifs
    · exact h.resetBuffer now (wall e'.1)
    · exact h.buffers e' he'
  · rcases List.mem_append.mp hbatch with hbatch | hbatch
    · exact h.pending batch hbatch
    · obtain ⟨e, he, rfl⟩ := List.mem_map.mp hbatch
      exact h.buffers e (it.mem_order.mp (List.mem_filter.mp he).1)

end QueryBloomAggregator

/-- A key that is asked for, or that a filter of such keys matches. -/
def Wanted (bit_count hash_count : ℕ) (asked : Set Bytes) (key : Bytes) : Prop :=
  key ∈ asked ∨ ∃ filter, FilterOf bit_count hash_count asked filter ∧
    filter.maybeContains key = true

/-- What a message says of the keys that its origin asks for: a request names one, a Query-BF is a
filter of some, and a `DATA` brings one or a false positive. -/
structure Sought (bit_count hash_count : ℕ) (asked : Bytes → Set Bytes) (msg : Message) :
    Prop where
  /-- Requests. -/
  request : msg.type = .request → msg.key ∈ asked msg.origin
  /-- Answers. -/
  data : msg.type = .data → Wanted bit_count hash_count (asked msg.origin) msg.key
  /-- Query-BFs. -/
  queryBloom : msg.type = .queryBloom → Announces bit_count hash_count (asked msg.origin) msg

/-- What arrives of such a message: the filter of a Query-BF may be cut, and is then rejected. -/
structure Heard (bit_count hash_count : ℕ) (asked : Bytes → Set Bytes) (msg : Message) :
    Prop where
  /-- Requests. -/
  request : msg.type = .request → msg.key ∈ asked msg.origin
  /-- Answers. -/
  data : msg.type = .data → Wanted bit_count hash_count (asked msg.origin) msg.key
  /-- Query-BFs. -/
  queryBloom : msg.type = .queryBloom → ∀ filter,
    BloomFilter.fromHex bit_count hash_count msg.key = some filter →
      FilterOf bit_count hash_count (asked msg.origin) filter ∧
        Announces bit_count hash_count (asked msg.origin) msg

/-- Another hop limit changes nothing of this. -/
theorem Announces.withTtl {msg : Message} (h : Announces bit_count hash_count keys msg)
    (ttl : Int32) : Announces bit_count hash_count keys { msg with ttl } :=
  ⟨h.free.withTtl ttl, h.filter⟩

namespace Node

/-- What a node holds and looks for are its seeds and wanted keys. -/
structure Seeks (bit_count hash_count : ℕ) (asked : Bytes → Set Bytes) (config : Config)
    (n : Node) : Prop where
  /-- The configuration stays. -/
  config_eq : n.config = config
  /-- The keys of Redis. -/
  redis : ∀ key, (n.redis key).isSome →
    (∃ kv ∈ config.seed_keys, kv.key = key) ∨
      Wanted bit_count hash_count (asked config.node_id) key
  /-- The keys of the fallback table. -/
  fallback : ∀ k e, n.content_bf_fallback.entries.lookup k = some e → e.key ∈ asked config.node_id
  /-- The keys of the aggregator. -/
  aggregator : n.query_bloom_aggregator.Gathers bit_count hash_count (asked config.node_id)

variable {asked : Bytes → Set Bytes} {config : Config} {n : Node}

/-- A handler that makes the node want less, and leaves Redis alone. -/
theorem Seeks.of_wantsLess (h : n.Seeks bit_count hash_count asked config) {n' : Node}
    (hless : n.WantsLess n') (hredis : n'.redis = n.redis) :
    n'.Seeks bit_count hash_count asked config where
  config_eq := hless.config.trans h.config_eq
  redis key hkey := h.redis key (by rwa [hredis] at hkey)
  fallback k e he := h.fallback k e (hless.fallback k e he)
  aggregator := by
    rw [hless.aggregator]
    exact h.aggregator

/-- A value is stored under a key that may be. -/
theorem Seeks.store (h : n.Seeks bit_count hash_count asked config) {n' : Node}
    (hless : n.WantsLess n') {key value : Bytes}
    (hredis : n'.redis = Function.update n.redis key (some value))
    (hkey : (∃ kv ∈ config.seed_keys, kv.key = key) ∨
      Wanted bit_count hash_count (asked config.node_id) key) :
    n'.Seeks bit_count hash_count asked config where
  config_eq := hless.config.trans h.config_eq
  redis k hk := by
    rw [hredis, Function.update_apply] at hk
    split_ifs at hk with hsame
    · rwa [hsame]
    · exact h.redis k hk
  fallback k e he := h.fallback k e (hless.fallback k e he)
  aggregator := by
    rw [hless.aggregator]
    exact h.aggregator

/-! ## Datagrams -/

/-- `handle_data` stores a wanted key. -/
theorem Seeks.handleData (h : n.Seeks bit_count hash_count asked config) {msg : Message}
    (hheard : Heard bit_count hash_count asked msg) (htype : msg.type = .data) (env : Env) :
    (n.handleData env msg).Seeks bit_count hash_count asked config := by
  have hless := wantsLess_handleData n env msg
  have hwanted := hheard.data htype
  unfold Node.handleData at hless ⊢
  cases hstate : (DataPipeline.run n.config msg).state with
  | dropInvalid => exact h
  | dropNotOrigin => exact h
  | storeLocal =>
    have horigin := DataPipeline.origin_of_storeLocal hstate
    rw [horigin, h.config_eq] at hwanted
    simp only [hstate] at hless ⊢
    split_ifs at hless ⊢
    · exact h
    · exact h.store hless rfl (Or.inr hwanted)

/-- `handle_request` answers and relays with the key of the request. -/
theorem sought_handleRequest {msg : Message} (hheard : Heard bit_count hash_count asked msg)
    (htype : msg.type = .request) (env : Env) (sender : SockaddrIn) {send : Send}
    (hsend : send ∈ (n.handleRequest env msg sender).2) :
    Sought bit_count hash_count asked send.msg := by
  have hkey := hheard.request htype
  by_cases hvalid : RequestPipeline.Valid msg
  · simp only [Node.handleRequest, RequestPipeline.run_of_valid _ _ _ _ hvalid] at hsend
    cases hnew : (n.query_table.recordIfNew msg.request_id env.prune_now env.record_now).2 with
    | false => simp [hnew] at hsend
    | true =>
      cases hget : n.redisGet env msg.key with
      | some value =>
        simp only [hnew, hget, if_true] at hsend
        rw [List.mem_singleton.mp hsend]
        exact ⟨fun h => absurd h (by simp [Send.msg]), fun _ => Or.inl hkey,
          fun h => absurd h (by simp [Send.msg])⟩
      | none =>
        simp only [hnew, hget, if_true] at hsend
        rw [List.mem_singleton.mp hsend]
        exact ⟨fun _ => hkey, fun h => absurd (htype.symm.trans h) (by simp),
          fun h => absurd (htype.symm.trans h) (by simp)⟩
  · rw [handleRequest_of_not_valid n env sender hvalid] at hsend
    exact absurd hsend List.not_mem_nil

/-- The filter that `queryBloomFilter` finds is decoded from the key. -/
theorem fromHex_of_queryBloomFilter {env : Env} {msg : Message} {filter : BloomFilter}
    (h : n.queryBloomFilter env msg = some filter) :
    BloomFilter.fromHex (toSize n.config.query_bf_bits) (toSize n.config.query_bf_hashes)
      msg.key = some filter := by
  unfold queryBloomFilter at h
  split_ifs at h
  split at h
  · exact absurd h.symm (Option.some_ne_none _)
  · dsimp only at h
    split_ifs at h <;> exact h

/-- `handle_query_bloom` answers with keys that the filter matches, and relays what it accepts. -/
theorem sought_handleQueryBloom {msg : Message} (hheard : Heard bit_count hash_count asked msg)
    (htype : msg.type = .queryBloom) (hbits : toSize n.config.query_bf_bits = bit_count)
    (hhashes : toSize n.config.query_bf_hashes = hash_count) (env : Env) (sender : SockaddrIn)
    {send : Send} (hsend : send ∈ (n.handleQueryBloom env msg sender).2) :
    Sought bit_count hash_count asked send.msg := by
  unfold Node.handleQueryBloom at hsend
  cases hfilter : n.queryBloomFilter env msg with
  | none => simp [hfilter] at hsend
  | some filter =>
    have haccepted := fromHex_of_queryBloomFilter hfilter
    rw [hbits, hhashes] at haccepted
    obtain ⟨hof, hannounces⟩ := hheard.queryBloom htype filter haccepted
    -- An answer is for a key that the filter matches.
    have hanswers : ∀ s ∈ (answerKeys env msg filter sender
        (env.order.order n.local_keys.keys) 0 n).2, Sought bit_count hash_count asked s.msg := by
      intro s hs
      obtain ⟨hkeys, hdata⟩ := answerKeys_eq_answered env msg filter sender
        (env.order.order n.local_keys.keys) 0 n
      obtain ⟨hdatum, horigin⟩ := hdata s hs
      have hmem : (s.msg.key, s.msg.value) ∈
          n.answered env filter (env.order.order n.local_keys.keys) := by
        rw [← hkeys]
        exact List.mem_map_of_mem hs
      refine ⟨fun h => absurd (hdatum.symm.trans h) (by simp), fun _ => ?_,
        fun h => absurd (hdatum.symm.trans h) (by simp)⟩
      rw [horigin]
      exact Or.inr ⟨filter, hof, (mem_answered.mp hmem).2.1⟩
    have hrelayed : ∀ ttl exclude, Sought bit_count hash_count asked
        (Send.broadcast { msg with ttl } exclude).msg := fun ttl exclude =>
      ⟨fun h => absurd (htype.symm.trans h) (by simp),
        fun h => absurd (htype.symm.trans h) (by simp), fun _ => hannounces.withTtl ttl⟩
    simp only [hfilter] at hsend
    split_ifs at hsend
    · exact hanswers send hsend
    · rcases List.mem_append.mp hsend with hsend | hsend
      · exact hanswers send hsend
      · rw [List.mem_singleton.mp hsend]
        exact hrelayed _ _
    · exact hanswers send hsend

/-- Whatever a node hears, it holds and sends what is wanted. -/
theorem Seeks.handleWireMessage (h : n.Seeks bit_count hash_count asked config)
    (hbits : toSize n.config.query_bf_bits = bit_count)
    (hhashes : toSize n.config.query_bf_hashes = hash_count) {wire : Bytes}
    (hheard : ∀ msg, fromWire wire = some msg → Heard bit_count hash_count asked msg) (env : Env)
    (sender : SockaddrIn) :
    (n.handleWireMessage env wire sender).1.Seeks bit_count hash_count asked config ∧
      ∀ send ∈ (n.handleWireMessage env wire sender).2,
        Sought bit_count hash_count asked send.msg := by
  cases hmsg : fromWire wire with
  | none =>
    rw [handleWireMessage_of_none n env sender hmsg]
    exact ⟨h, fun send hsend => absurd hsend List.not_mem_nil⟩
  | some msg =>
    have hless := wantsLess_handleWireMessage n env wire sender
    have hhandled := handled_wireMessage n env sender hmsg
    -- Only a `DATA` changes Redis.
    have hsame : msg.type ≠ .data →
        (n.handleWireMessage env wire sender).1.Seeks bit_count hash_count asked config :=
      fun hother => h.of_wantsLess hless
        (hhandled.redis.resolve_right fun hdata => hother hdata.1)
    rw [Node.handleWireMessage, hmsg] at hsame ⊢
    cases htype : msg.type with
    | request =>
      simp only [htype] at hsame ⊢
      exact ⟨hsame (by simp), fun send hsend =>
        sought_handleRequest (hheard msg hmsg) htype env sender hsend⟩
    | data =>
      simp only [htype]
      exact ⟨h.handleData (hheard msg hmsg) htype env, by simp⟩
    | contentBloom =>
      simp only [htype] at hsame ⊢
      exact ⟨hsame (by simp), by simp⟩
    | queryBloom =>
      simp only [htype] at hsame ⊢
      exact ⟨hsame (by simp), fun send hsend =>
        sought_handleQueryBloom (hheard msg hmsg) htype hbits hhashes env sender hsend⟩
    | unknown =>
      simp only [htype] at hsame ⊢
      exact ⟨hsame (by simp), by simp⟩

/-! ## The node's own threads -/

/-- Keys that are due in the fallback table go into the aggregator. -/
theorem Seeks.addKeys (h : n.Seeks bit_count hash_count asked config)
    (entries : List ContentBfFallbackTable.Pending)
    (hentries : ∀ entry ∈ entries, entry.key ∈ asked config.node_id) (now : ℤ)
    (wall : Bytes → ResetReadings) :
    (entries.foldl (fun a entry => (a.addKey entry.origin entry.key now (wall entry.key)).1)
      n.query_bloom_aggregator).Gathers bit_count hash_count (asked config.node_id) := by
  have hfold : ∀ a : QueryBloomAggregator,
      a.Gathers bit_count hash_count (asked config.node_id) →
      (entries.foldl (fun a entry => (a.addKey entry.origin entry.key now (wall entry.key)).1)
        a).Gathers bit_count hash_count (asked config.node_id) := by
    induction entries with
    | nil => exact fun a ha => ha
    | cons entry entries ih =>
      obtain ⟨hentry, hentries⟩ := List.forall_mem_cons.mp hentries
      exact fun a ha => ih hentries _ (ha.addKey entry.origin hentry now (wall entry.key))
  exact hfold _ h.aggregator

/-- What is due in the fallback table is asked for. -/
theorem Seeks.key_of_takeDue (h : n.Seeks bit_count hash_count asked config) {it : Iteration}
    {now : ℤ} {entry : ContentBfFallbackTable.Pending}
    (hentry : entry ∈ (n.content_bf_fallback.takeDue it now).2) :
    entry.key ∈ asked config.node_id := by
  unfold ContentBfFallbackTable.takeDue at hentry
  split_ifs at hentry with hwindow
  · exact absurd hentry List.not_mem_nil
  · obtain ⟨e, he, rfl⟩ := List.mem_map.mp hentry
    obtain ⟨⟨k, hk⟩, -⟩ := ContentBfFallbackTable.mem_dueEntries he
    exact h.fallback k e hk

/-- A round of `schedule_requests` asks for its key. -/
theorem Seeks.scheduleRequest (h : n.Seeks bit_count hash_count asked config) (env : Env)
    {key : Bytes} (hkey : key ∈ asked config.node_id) :
    (n.scheduleRequest env key).1.Seeks bit_count hash_count asked config ∧
      ∀ send ∈ (n.scheduleRequest env key).2, Sought bit_count hash_count asked send.msg := by
  unfold Node.scheduleRequest
  cases hget : n.redisGet env key with
  | some value => exact ⟨⟨h.config_eq, h.redis, h.fallback, h.aggregator⟩, by simp⟩
  | none =>
    dsimp only [makeRequestId]
    split
    · refine ⟨⟨h.config_eq, h.redis, fun k e he => ?_, h.aggregator⟩, fun send hsend => ?_⟩
      · rcases ContentBfFallbackTable.lookup_schedule he with he | ⟨-, rfl⟩
        · exact h.fallback k e he
        · exact hkey
      · rw [List.mem_singleton.mp hsend]
        refine ⟨fun _ => ?_, fun h => absurd h (by simp [Send.msg]),
          fun h => absurd h (by simp [Send.msg])⟩
        simp only [Send.msg, h.config_eq]
        exact hkey
    · exact ⟨⟨h.config_eq, h.redis, h.fallback, h.aggregator.addKey _ hkey _ _⟩, by simp⟩

/-- A flush sends filters of keys that are asked for. -/
theorem Seeks.flushQueryBlooms (h : n.Seeks bit_count hash_count asked config)
    (hformed : n.Formed) (hfree : bar ∉ n.config.node_id) (env : Env) :
    (n.flushQueryBlooms env).1.Seeks bit_count hash_count asked config ∧
      ∀ send ∈ (n.flushQueryBlooms env).2, Sought bit_count hash_count asked send.msg := by
  obtain ⟨hgathers, hbatches⟩ := h.aggregator.flushDue env.order env.steady env.flush_ms
  refine ⟨⟨h.config_eq, h.redis, h.fallback, hgathers⟩, fun send hsend => ?_⟩
  obtain ⟨batch, hbatch, rfl⟩ := List.mem_map.mp hsend
  have hof := hformed.aggregator.batchOf_of_flushDue env.order env.steady env.flush_ms hbatch
  refine ⟨fun h => absurd h (by simp [Send.msg, batchMessage]),
    fun h => absurd h (by simp [Send.msg, batchMessage]), fun _ => ?_⟩
  have horigin : (n.batchMessage batch).origin = config.node_id := by
    rw [batchMessage, hof.origin, h.config_eq]
  refine ⟨delimiterFree_batchMessage hfree hof, batch.filter, ?_, rfl⟩
  show FilterOf bit_count hash_count (asked (n.batchMessage batch).origin) batch.filter
  rw [horigin]
  exact hbatches batch hbatch

/-- Whatever its own threads do, a node holds and sends what is wanted. -/
theorem Seeks.runTask (h : n.Seeks bit_count hash_count asked config) (hformed : n.Formed)
    (hfree : bar ∉ n.config.node_id) (env : Env) {task : Task}
    (hasks : ∀ key, task = .request key → key ∈ asked config.node_id) :
    (n.runTask env task).1.Seeks bit_count hash_count asked config ∧
      ∀ send ∈ (n.runTask env task).2, Sought bit_count hash_count asked send.msg := by
  cases task with
  | seed position =>
    cases hseed : n.config.seed_keys[position]? with
    | none => simpa only [Node.runTask, hseed] using ⟨h, by simp⟩
    | some kv =>
      have hmem : kv ∈ config.seed_keys := by
        rw [← h.config_eq]
        exact List.mem_of_getElem? hseed
      simp only [Node.runTask, hseed, seedKey]
      refine ⟨?_, by simp⟩
      split_ifs
      · exact h
      · exact h.store (.recordLocalKey (.of_frame rfl rfl rfl rfl)) rfl (Or.inl ⟨kv, hmem, rfl⟩)
  | request key => exact h.scheduleRequest env (hasks key rfl)
  | exchangeContentBloom =>
    refine ⟨h, fun send hsend => ?_⟩
    rw [List.mem_singleton.mp hsend]
    exact ⟨fun h => absurd h (by simp [Send.msg]), fun h => absurd h (by simp [Send.msg]),
      fun h => absurd h (by simp [Send.msg])⟩
  | takeFallbacks =>
    refine ⟨⟨h.config_eq, h.redis, fun k e he =>
      h.fallback k e (ContentBfFallbackTable.lookup_takeDue he), ?_⟩, by simp [Node.runTask]⟩
    exact h.addKeys _ (fun entry hentry => h.key_of_takeDue hentry) env.steady env.add_ms
  | flushQueryBlooms => exact h.flushQueryBlooms hformed hfree env
  | reloadTopology neighbors =>
    exact ⟨h.of_wantsLess (.of_frame rfl rfl rfl rfl) rfl, by simp [Node.runTask]⟩

end Node

namespace NetworkState

/-! ## The runs of a network -/

variable {ι : Type*} {ids length values : ℕ} {asked : Bytes → Set Bytes} {msg m : Message}

/-- What arrives of a message of short words is heard as it was said, up to a filter that was
cut. -/
theorem heard_of_arrives (hshort : 2 * ids + length + values + 62 ≤ 2047)
    (hspoke : (shortWords ids length values).Says msg)
    (hsought : Sought bit_count hash_count asked msg)
    (harrives : UdpTransport.arrives msg.toWire = some m) : Heard bit_count hash_count asked m := by
  have hmtype := UdpTransport.type_of_arrives harrives
  -- A request or a `DATA` fits the receive buffer.
  have hwhole : msg.type = .request ∨ msg.type = .data → m = msg := fun htype =>
    Option.some.inj (harrives.symm.trans
      (UdpTransport.arrives_of_fits (fits_of_spoken hshort hspoke htype)))
  refine ⟨fun htype => ?_, fun htype => ?_, fun htype filter haccepted => ?_⟩
  · have hmsg := hmtype.symm.trans htype
    rw [hwhole (Or.inl hmsg)]
    exact hsought.request hmsg
  · have hmsg := hmtype.symm.trans htype
    rw [hwhole (Or.inr hmsg)]
    exact hsought.data hmsg
  · have hannounces := hsought.queryBloom (hmtype.symm.trans htype)
    obtain ⟨-, -, horigin, -, -, -⟩ := UdpTransport.prefixes_of_arrives hannounces.free harrives
    have hkey := hannounces.key_of_arrives harrives haccepted
    have hfree : m.DelimiterFree := by
      have harrived := harrives
      rw [UdpTransport.arrives_eq] at harrived
      exact delimiterFree_of_fromWire harrived
    rw [horigin]
    refine ⟨hannounces.of_arrives harrives haccepted, hfree, ?_⟩
    rw [hkey]
    exact hannounces.filter

/-- The keys that the nodes with an id ask for. -/
def askedBy (configs : ι → Config) (node_id : Bytes) : Set Bytes :=
  {key | ∃ i, (configs i).node_id = node_id ∧ key ∈ (configs i).request_keys}

/-- The nodes keep to a vocabulary, and hold and send what is wanted. -/
def holdingPools (v : Vocabulary) (bit_count hash_count : ℕ) (configs : ι → Config) :
    Pools ι Unit where
  view _ := ()
  node views i n := (vocabularyPools v configs).node views i n ∧
    n.Seeks bit_count hash_count (askedBy configs) (configs i)
  send views i send := (vocabularyPools v configs).send views i send ∧
    Sought bit_count hash_count (askedBy configs) send.msg
  datagram views d := (vocabularyPools v configs).datagram views d ∧
    Sought bit_count hash_count (askedBy configs) d.sent

variable [DecidableEq ι] {configs : ι → Config}

/-- The handlers keep to it. -/
theorem kept_holdingPools (hshort : 2 * ids + length + values + 62 ≤ 2047)
    (hspeaks : ∀ i, (shortWords ids length values).Speaks (configs i)) {bits hashes : Int32}
    (hsame : ∀ i, (configs i).query_bf_bits = bits ∧ (configs i).query_bf_hashes = hashes)
    (W : Wiring ι) :
    (holdingPools (shortWords ids length values) (toSize bits) (toSize hashes) configs).Kept W
      (Spoken (shortWords ids length values) configs) where
  node_mono _ h := h
  send_mono _ h := h
  datagram_mono _ h := h
  receive := by
    intro views position i env n datagram wire hclock haddress hview hnode hdatagram hwire
    obtain ⟨hspoken, hsought⟩ := hdatagram
    have hvocabulary := kept_vocabularyPools (closed_shortWords ids length values) hspeaks W
    obtain ⟨-, hknows, hmessages⟩ :=
      hvocabulary.receive hclock haddress hview hnode.1 hspoken hwire
    have hheard : ∀ msg, fromWire wire = some msg →
        Heard (toSize bits) (toSize hashes) (askedBy configs) msg := fun msg hmsg => by
      refine heard_of_arrives hshort hspoken.1 hsought ?_
      rw [← hspoken.2, UdpTransport.arrives, hwire]
      exact hmsg
    have hconfig := hnode.2.config_eq
    obtain ⟨hseeks, hsends⟩ := hnode.2.handleWireMessage (by rw [hconfig, (hsame i).1])
      (by rw [hconfig, (hsame i).2]) hheard env datagram.src
    exact ⟨le_refl _, ⟨hknows, hseeks⟩, fun send hsend => ⟨hmessages send hsend, hsends send hsend⟩⟩
  work := by
    intro views i env task n hguard hview hnode
    have hvocabulary := kept_vocabularyPools (closed_shortWords ids length values) hspeaks W
    obtain ⟨-, hknows, hmessages⟩ := hvocabulary.work hguard hview hnode.1
    have hfree : bar ∉ n.config.node_id := by
      rw [hnode.2.config_eq]
      exact (hspeaks i).node_id.1
    obtain ⟨hseeks, hsends⟩ := hnode.2.runTask hnode.1.formed hfree env
      fun key htask => ⟨i, rfl, hguard.2 key htask⟩
    exact ⟨le_refl _, ⟨hknows, hseeks⟩, fun send hsend => ⟨hmessages send hsend, hsends send hsend⟩⟩
  sent network sync_table hreaches h := by
    obtain ⟨hview, hknows⟩ := (kept_vocabularyPools (closed_shortWords ids length values) hspeaks
      W).sent network sync_table hreaches h.1
    exact ⟨hview, hknows, h.2.of_wantsLess (.of_frame rfl rfl rfl rfl) rfl⟩
  emit hnode h hemitted := by
    refine ⟨(kept_vocabularyPools (closed_shortWords ids length values) hspeaks W).emit hnode.1 h.1
      hemitted, ?_⟩
    rw [hemitted.sent]
    exact h.2

omit [DecidableEq ι] in
/-- At the start nothing is held. -/
theorem holdingPools_init (v : Vocabulary) {bits hashes : Int32}
    (hsame : ∀ i, (configs i).query_bf_bits = bits ∧ (configs i).query_bf_hashes = hashes) :
    (holdingPools v (toSize bits) (toSize hashes) configs).Hold (init configs) where
  nodes i := by
    refine ⟨(vocabularyPools_init v configs).nodes i, rfl, fun key hkey => ?_, fun k e he => ?_, ?_⟩
    · exact absurd hkey (by simp [init, Node.construct])
    · exact absurd he (by simp [init, Node.construct, ContentBfFallbackTable.construct])
    · refine ⟨?_, ?_, fun e he => absurd he List.not_mem_nil,
        fun batch hbatch => absurd hbatch List.not_mem_nil⟩
      · rw [← (hsame i).1]
        rfl
      · rw [← (hsame i).2]
        rfl
  queued _ hq := absurd hq List.not_mem_nil
  flight _ hd := absurd hd List.not_mem_nil

/-- Why a node holds a key. For any nodes with distinct ids and Query-BFs of one shape, whose ids,
seeds and requested keys contain no bar and are so short that two ids, a key, a value and 62 bytes
fit the receive buffer, and in every run in which the nodes request the keys of their configurations
at times that are 64-bit numbers of milliseconds: a node holds its own seeds, keys that it requests
and keys that a filter of such keys matches, and every `DATA` on its way is for a key that its
origin requests or that a filter of such keys matches. -/
theorem holdings_explained (W : Wiring ι) (configs : ι → Config) (bits hashes : Int32)
    (hsame : ∀ i, (configs i).query_bf_bits = bits ∧ (configs i).query_bf_hashes = hashes)
    (hids : Function.Injective fun i => (configs i).node_id) (ids keys values : ℕ)
    (hshort : 2 * ids + keys + values + 62 ≤ 2047)
    (hspeaks : ∀ i, (shortWords ids keys values).Speaks (configs i)) (actions : List (Action ι))
    (hspoken : ∀ a ∈ actions, Spoken (shortWords ids keys values) configs a)
    (s : NetworkState ι) (hrun : Machine.run (step W) (init configs) actions = some s) :
    (∀ i key, ((s.nodes i).redis key).isSome →
        (∃ kv ∈ (configs i).seed_keys, kv.key = key) ∨ key ∈ (configs i).request_keys ∨
          ∃ asked, (∀ k ∈ asked, k ∈ (configs i).request_keys) ∧
            (BloomFilter.ofValues (toSize bits) (toSize hashes) asked).maybeContains key = true) ∧
      ∀ d ∈ s.flight, d.sent.type = .data → ∀ i, d.sent.origin = (configs i).node_id →
        d.sent.key ∈ (configs i).request_keys ∨
          ∃ asked, (∀ k ∈ asked, k ∈ (configs i).request_keys) ∧
            (BloomFilter.ofValues (toSize bits) (toSize hashes) asked).maybeContains
              d.sent.key = true := by
  have h := (holdingPools_init _ hsame).run (kept_holdingPools hshort hspeaks hsame W) hspoken hrun
  -- What is asked for in the name of a node, the node asks for.
  have hasked : ∀ i key, key ∈ askedBy configs (configs i).node_id →
      key ∈ (configs i).request_keys := by
    rintro i key ⟨j, hj, hkey⟩
    rwa [← hids hj]
  have hwanted : ∀ i key, Wanted (toSize bits) (toSize hashes)
      (askedBy configs (configs i).node_id) key →
      key ∈ (configs i).request_keys ∨ ∃ asked, (∀ k ∈ asked, k ∈ (configs i).request_keys) ∧
        (BloomFilter.ofValues (toSize bits) (toSize hashes) asked).maybeContains key = true := by
    rintro i key (hkey | ⟨filter, ⟨asked, hvalues, rfl⟩, hmatches⟩)
    · exact Or.inl (hasked i key hkey)
    · exact Or.inr ⟨asked, fun k hk => hasked i k (hvalues k hk), hmatches⟩
  refine ⟨fun i key hkey => ?_, fun d hd htype i horigin => ?_⟩
  · rcases (h.nodes i).2.redis key hkey with hseed | hkey
    · exact Or.inl hseed
    · exact Or.inr (hwanted i key hkey)
  · have hdata := (h.flight d hd).2.data htype
    rw [horigin] at hdata
    exact hwanted i d.sent.key hdata

/-- The origin has pulled `k`, which it requests and is not seeded with. -/
theorem holdings_explained_pull : ∃ s,
    Machine.run (step peerWiring) (init (peerConfig (ascii "a"))) pull = some s ∧
      ((s.nodes .origin).redis (ascii "k")).isSome ∧
      (ascii "k" ∈ (peerConfig (ascii "a") .origin).request_keys ∨
        ∃ asked, (∀ k ∈ asked, k ∈ (peerConfig (ascii "a") .origin).request_keys) ∧
          (BloomFilter.ofValues 1024 4 asked).maybeContains (ascii "k") = true) := by
  have hpulled : (Machine.run (step peerWiring) (init (peerConfig (ascii "a"))) pull).map
      (fun s => ((s.nodes .origin).redis (ascii "k")).isSome) = some true := by decide +kernel
  obtain ⟨s, hrun, hheld⟩ := Option.map_eq_some_iff.mp hpulled
  have hexplained := (holdings_explained peerWiring (peerConfig (ascii "a")) 1024 4
    (fun p => by cases p <;> decide) peer_ids.1 6 1 1 (by decide) speaks_peerConfig pull
    spoken_pull s hrun).1 .origin (ascii "k") hheld
  refine ⟨s, hrun, hheld, hexplained.resolve_left ?_⟩
  simp [peerConfig]

end NetworkState

end Netos
