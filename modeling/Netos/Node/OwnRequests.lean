import Netos.Node.Node

/-!
# The requests a node makes

Everything that the own threads of a node ask for is asked for in the node's name: the keys in the
aggregator and in the fallback table were wanted by the node itself, so every request and every
Query-BF that it starts carries its id as the origin (`origin_of_runTask`), and the filters that it
sends have the shape of its configuration. `Formed` is the invariant, kept by every handler and
every round.
-/

namespace Netos

open CString Cxx

namespace Node

/-- The filters of a node have the configured shape, and what it wants it wants for itself. -/
structure Formed (n : Node) : Prop where
  /-- The number of bits of the Query-BFs. -/
  query_bits : n.query_bloom_aggregator.bit_count = toSize n.config.query_bf_bits
  /-- The number of hashes of the Query-BFs. -/
  query_hashes : n.query_bloom_aggregator.hash_count = toSize n.config.query_bf_hashes
  /-- The keys in the aggregator are the node's. -/
  aggregator : n.query_bloom_aggregator.Collects n.config.node_id
  /-- The keys in the fallback table are the node's. -/
  fallback : ∀ k entry, n.content_bf_fallback.entries.lookup k = some entry →
    entry.origin = n.config.node_id
  /-- The number of bits of the Content-BF. -/
  content_bits : n.content_bloom.local_filter.bit_count = toSize n.config.content_bf_bits
  /-- The number of hashes of the Content-BF. -/
  content_hashes : n.content_bloom.local_filter.hash_count = toSize n.config.content_bf_hashes

/-- A node as constructed is well formed. -/
theorem formed_construct (config : Config) (redis : RedisClient.Store) :
    (construct config redis).Formed where
  query_bits := rfl
  query_hashes := rfl
  aggregator := QueryBloomAggregator.collects_construct _ _ _ _ _ _ _
  fallback _ _ h := absurd h (by simp [construct, ContentBfFallbackTable.construct])
  content_bits := rfl
  content_hashes := rfl

/-- What a datagram may do to the tables of `Formed`: no key is wanted anew. -/
structure WantsLess (n n' : Node) : Prop where
  /-- The configuration stays. -/
  config : n'.config = n.config
  /-- The aggregator stays. -/
  aggregator : n'.query_bloom_aggregator = n.query_bloom_aggregator
  /-- Entries may leave the fallback table. -/
  fallback : ∀ k entry, n'.content_bf_fallback.entries.lookup k = some entry →
    n.content_bf_fallback.entries.lookup k = some entry
  /-- The shape of the Content-BF stays. -/
  content_bits :
    n'.content_bloom.local_filter.bit_count = n.content_bloom.local_filter.bit_count
  /-- The shape of the Content-BF stays. -/
  content_hashes :
    n'.content_bloom.local_filter.hash_count = n.content_bloom.local_filter.hash_count

/-- A node that changes none of these tables. -/
theorem WantsLess.of_frame {n n' : Node} (hconfig : n'.config = n.config)
    (haggregator : n'.query_bloom_aggregator = n.query_bloom_aggregator)
    (hfallback : n'.content_bf_fallback = n.content_bf_fallback)
    (hcontent : n'.content_bloom.local_filter = n.content_bloom.local_filter) : WantsLess n n' :=
  ⟨hconfig, haggregator, fun _ _ h => by rwa [hfallback] at h, by rw [hcontent], by rw [hcontent]⟩

/-- A key goes into the local keys. -/
theorem WantsLess.recordLocalKey {n n' : Node} {key : Bytes} (h : WantsLess n n') :
    WantsLess n (n'.recordLocalKey key) where
  config := h.config
  aggregator := h.aggregator
  fallback := h.fallback
  content_bits := (BloomFilter.add_bit_count _ key).trans h.content_bits
  content_hashes := (BloomFilter.add_hash_count _ key).trans h.content_hashes

/-- A well-formed node stays so. -/
theorem Formed.of_wantsLess {n n' : Node} (h : n.Formed) (hless : WantsLess n n') : n'.Formed where
  query_bits := by rw [hless.aggregator, hless.config, h.query_bits]
  query_hashes := by rw [hless.aggregator, hless.config, h.query_hashes]
  aggregator := by
    rw [hless.aggregator, hless.config]
    exact h.aggregator
  fallback k entry hentry := by
    rw [hless.config]
    exact h.fallback k entry (hless.fallback k entry hentry)
  content_bits := by rw [hless.content_bits, hless.config, h.content_bits]
  content_hashes := by rw [hless.content_hashes, hless.config, h.content_hashes]

/-- No request makes the node want a key. -/
theorem wantsLess_handleRequest (n : Node) (env : Env) (msg : Message) (sender : SockaddrIn) :
    WantsLess n (n.handleRequest env msg sender).1 := by
  unfold handleRequest
  dsimp only
  split
  · exact .of_frame rfl rfl rfl rfl
  · exact .of_frame rfl rfl rfl rfl
  · exact .of_frame rfl rfl rfl rfl
  · exact .recordLocalKey (.of_frame rfl rfl rfl rfl)
  · exact .of_frame rfl rfl rfl rfl

/-- Data makes the node want less: the fallback of the key is cancelled. -/
theorem wantsLess_handleData (n : Node) (env : Env) (msg : Message) :
    WantsLess n (n.handleData env msg) := by
  unfold handleData
  split
  · exact .of_frame rfl rfl rfl rfl
  · exact .of_frame rfl rfl rfl rfl
  · split_ifs
    · exact .of_frame rfl rfl rfl rfl
    · refine .recordLocalKey ⟨rfl, rfl, fun k entry h => ?_, rfl, rfl⟩
      exact (ContentBfFallbackTable.lookup_cancel h).1

/-- A summary of a neighbor does not touch these tables. -/
theorem wantsLess_handleContentBloom (n : Node) (env : Env) (msg : Message)
    (sender : SockaddrIn) : WantsLess n (n.handleContentBloom env msg sender) := by
  unfold handleContentBloom
  split_ifs
  · exact .of_frame rfl rfl rfl rfl
  · exact .of_frame rfl rfl rfl rfl
  · split
    · exact .of_frame rfl rfl rfl rfl
    · exact .of_frame rfl rfl rfl rfl

/-- No Query-BF makes the node want a key. -/
theorem wantsLess_handleQueryBloom (n : Node) (env : Env) (msg : Message) (sender : SockaddrIn) :
    WantsLess n (n.handleQueryBloom env msg sender).1 := by
  unfold handleQueryBloom
  split
  · exact .of_frame rfl rfl rfl rfl
  · next filter _ =>
    obtain ⟨⟨c, hc⟩, -⟩ :=
      answerKeys_spec env msg filter sender (env.order.order n.local_keys.keys) 0 n
    dsimp only
    rw [hc]
    split_ifs
    · exact .of_frame rfl rfl rfl rfl
    · exact .of_frame rfl rfl rfl rfl
    · exact .of_frame rfl rfl rfl rfl

/-- No datagram makes the node want a key. -/
theorem wantsLess_handleWireMessage (n : Node) (env : Env) (wire : Bytes) (sender : SockaddrIn) :
    WantsLess n (n.handleWireMessage env wire sender).1 := by
  cases hmsg : fromWire wire with
  | none =>
    rw [handleWireMessage_of_none n env sender hmsg]
    exact .of_frame rfl rfl rfl rfl
  | some msg =>
    rw [handleWireMessage, hmsg]
    cases htype : msg.type with
    | request => simpa only [htype] using wantsLess_handleRequest n env msg sender
    | data => simpa only [htype] using wantsLess_handleData n env msg
    | contentBloom => simpa only [htype] using wantsLess_handleContentBloom n env msg sender
    | queryBloom => simpa only [htype] using wantsLess_handleQueryBloom n env msg sender
    | unknown => simpa only [htype] using WantsLess.of_frame rfl rfl rfl rfl

/-- A well-formed node is so after a datagram. -/
theorem Formed.handleWireMessage {n : Node} (h : n.Formed) (env : Env) (wire : Bytes)
    (sender : SockaddrIn) : (n.handleWireMessage env wire sender).1.Formed :=
  h.of_wantsLess (wantsLess_handleWireMessage n env wire sender)

/-- A well-formed node is so after a callback. -/
theorem Formed.onSuccess {n : Node} (h : n.Formed) (on_success : Option (Bytes × Bytes)) :
    (n.onSuccess on_success).Formed := by
  cases on_success <;> exact h.of_wantsLess (.of_frame rfl rfl rfl rfl)

/-- Keys of the node go into the aggregator. -/
theorem Formed.addKeys {n : Node} (h : n.Formed) (entries : List ContentBfFallbackTable.Pending)
    (horigin : ∀ entry ∈ entries, entry.origin = n.config.node_id) (now : ℤ)
    (wall : Bytes → ResetReadings) :
    ({ n with
      query_bloom_aggregator := entries.foldl
        (fun a entry => (a.addKey entry.origin entry.key now (wall entry.key)).1)
        n.query_bloom_aggregator } : Node).Formed := by
  induction entries generalizing n with
  | nil => exact h
  | cons entry entries ih =>
    obtain ⟨hentry, hentries⟩ := List.forall_mem_cons.mp horigin
    have hshape := QueryBloomAggregator.addKey_shape n.query_bloom_aggregator entry.origin
      entry.key now (wall entry.key)
    have hadded : ({ n with
        query_bloom_aggregator := (n.query_bloom_aggregator.addKey entry.origin entry.key now
          (wall entry.key)).1 } : Node).Formed :=
      { h with
        query_bits := hshape.1.trans h.query_bits
        query_hashes := hshape.2.trans h.query_hashes
        aggregator := by
          rw [hentry]
          exact h.aggregator.addKey entry.key now (wall entry.key) }
    exact ih hadded hentries

/-- What is due in the fallback table was wanted by the node. -/
theorem Formed.origin_of_takeDue {n : Node} (h : n.Formed) {it : Iteration} {now : ℤ}
    {entry : ContentBfFallbackTable.Pending}
    (hentry : entry ∈ (n.content_bf_fallback.takeDue it now).2) :
    entry.origin = n.config.node_id := by
  unfold ContentBfFallbackTable.takeDue at hentry
  split_ifs at hentry with hwindow
  · exact absurd hentry List.not_mem_nil
  · obtain ⟨e, he, rfl⟩ := List.mem_map.mp hentry
    obtain ⟨⟨k, hk⟩, -⟩ := ContentBfFallbackTable.mem_dueEntries he
    exact h.fallback k e hk

/-- A well-formed node is so after a local request. -/
theorem Formed.scheduleRequest {n : Node} (h : n.Formed) (env : Env) (key : Bytes) :
    (n.scheduleRequest env key).1.Formed := by
  unfold Node.scheduleRequest
  split
  · have hrecorded : (n.recordLocalKey key).Formed :=
      h.of_wantsLess (.recordLocalKey (.of_frame rfl rfl rfl rfl))
    exact hrecorded.of_wantsLess (.of_frame rfl rfl rfl rfl)
  · -- The local filter stays when the summaries of the neighbors are pruned.
    have hlocal : (n.content_bloom.selectNeighbor env.order env.steady key).1.local_filter =
        n.content_bloom.local_filter := by
      simp only [ContentBloomTable.selectNeighbor, ContentBloomTable.pruneLocked]
      split_ifs <;> rfl
    dsimp only [makeRequestId]
    split
    · exact { h with
        content_bits := (congrArg BloomFilter.bit_count hlocal).trans h.content_bits
        content_hashes := (congrArg BloomFilter.hash_count hlocal).trans h.content_hashes
        fallback := fun k entry hentry => by
          rcases ContentBfFallbackTable.lookup_schedule hentry with hentry | ⟨-, rfl⟩
          · exact h.fallback k entry hentry
          · rfl }
    · have hshape := QueryBloomAggregator.addKey_shape n.query_bloom_aggregator n.config.node_id
        key env.steady (env.add_ms key)
      exact { h with
        query_bits := hshape.1.trans h.query_bits
        query_hashes := hshape.2.trans h.query_hashes
        aggregator := h.aggregator.addKey key env.steady (env.add_ms key)
        content_bits := (congrArg BloomFilter.bit_count hlocal).trans h.content_bits
        content_hashes := (congrArg BloomFilter.hash_count hlocal).trans h.content_hashes }

/-- A well-formed node is so after a round of its own threads. -/
theorem Formed.runTask {n : Node} (h : n.Formed) (env : Env) (task : Task) :
    (n.runTask env task).1.Formed := by
  cases task with
  | seed position =>
    cases hseed : n.config.seed_keys[position]? with
    | none => simpa only [Node.runTask, hseed] using h
    | some kv =>
      simp only [Node.runTask, hseed, seedKey]
      split_ifs
      · exact h
      · exact h.of_wantsLess (.recordLocalKey (.of_frame rfl rfl rfl rfl))
  | request key => exact h.scheduleRequest env key
  | exchangeContentBloom => exact h
  | takeFallbacks =>
    have hkept : ({ n with
        content_bf_fallback :=
          (n.content_bf_fallback.takeDue env.order env.steady).1 } : Node).Formed :=
      { h with
        fallback := fun k entry hentry =>
          h.fallback k entry (ContentBfFallbackTable.lookup_takeDue hentry) }
    exact hkept.addKeys _ (fun entry hentry => h.origin_of_takeDue hentry) env.steady env.add_ms
  | flushQueryBlooms =>
    exact { h with
      aggregator := h.aggregator.flushDue env.order env.steady env.flush_ms }
  | reloadTopology neighbors => exact h.of_wantsLess (.of_frame rfl rfl rfl rfl)

/-- The requests and Query-BFs that the own threads of a node start carry its id. -/
theorem Formed.origin_of_runTask {n : Node} (h : n.Formed) {env : Env} {task : Task} {send : Send}
    (hsend : send ∈ (n.runTask env task).2)
    (htype : send.msg.type = .request ∨ send.msg.type = .queryBloom) :
    send.msg.origin = n.config.node_id := by
  cases task with
  | seed position =>
    cases hseed : n.config.seed_keys[position]? <;> simp [Node.runTask, hseed] at hsend
  | request key =>
    simp only [Node.runTask, Node.scheduleRequest] at hsend
    split at hsend
    · exact absurd hsend List.not_mem_nil
    · dsimp only [makeRequestId] at hsend
      split at hsend
      · obtain rfl := List.mem_singleton.mp hsend
        rfl
      · exact absurd hsend List.not_mem_nil
  | exchangeContentBloom =>
    obtain rfl := List.mem_singleton.mp hsend
    simp [Send.msg] at htype
  | takeFallbacks => exact absurd hsend List.not_mem_nil
  | flushQueryBlooms =>
    obtain ⟨batch, hbatch, rfl⟩ := List.mem_map.mp hsend
    exact (h.aggregator.batchOf_of_flushDue env.order env.steady env.flush_ms hbatch).origin
  | reloadTopology neighbors => exact absurd hsend List.not_mem_nil

end Node

end Netos
