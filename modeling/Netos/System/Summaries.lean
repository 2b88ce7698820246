import Netos.Node.BloomDatagrams
import Netos.Node.LocalViews
import Netos.Tables.NeighborSelection
import Netos.System.Pools

/-!
# What the nodes believe of each other

A node sends a request straight to a neighbor whose last summary matches the key. The summaries are
exchanged in datagrams, which may be lost, cut, duplicated, reordered and arbitrarily late, and the
table of a node is keyed by source addresses, which nothing authenticates. Nevertheless no node
believes anything of another that was never true: local keys only accumulate, what a cut leaves of a
summary is rejected, and what is accepted is a filter of keys that its sender had recorded.

The view that `Pools` takes of a node is the set of its local keys, which only grows.
-/

namespace Netos

open CString Cxx

/-- A filter to which some of the keys of a set were added. -/
def FilterOf (bit_count hash_count : ℕ) (keys : Set Bytes) (filter : BloomFilter) : Prop :=
  ∃ values : List Bytes, (∀ key ∈ values, key ∈ keys) ∧
    filter = .ofValues bit_count hash_count values

variable {bit_count hash_count : ℕ} {keys keys' : Set Bytes} {filter : BloomFilter}

/-- There may be more keys. -/
theorem FilterOf.mono (h : FilterOf bit_count hash_count keys filter) (hkeys : keys ⊆ keys') :
    FilterOf bit_count hash_count keys' filter := by
  obtain ⟨values, hvalues, rfl⟩ := h
  exact ⟨values, fun key hkey => hkeys (hvalues key hkey), rfl⟩

/-- A key of the set is added. -/
theorem FilterOf.add (h : FilterOf bit_count hash_count keys filter) {key : Bytes}
    (hkey : key ∈ keys) : FilterOf bit_count hash_count keys (filter.add key) := by
  obtain ⟨values, hvalues, rfl⟩ := h
  refine ⟨values ++ [key], fun k hk => ?_, (BloomFilter.ofValues_append_singleton _ _ _ _).symm⟩
  rcases List.mem_append.mp hk with hk | hk
  · exact hvalues k hk
  · rwa [List.mem_singleton.mp hk]

/-- The message announces a filter to which some of the keys of a set were added. -/
structure Announces (bit_count hash_count : ℕ) (keys : Set Bytes) (msg : Message) : Prop where
  /-- No field contains the delimiter. -/
  free : msg.DelimiterFree
  /-- The key of the message is the filter. -/
  filter : ∃ filter, FilterOf bit_count hash_count keys filter ∧ msg.key = filter.toHex

/-- There may be more keys. -/
theorem Announces.mono {msg : Message} (h : Announces bit_count hash_count keys msg)
    (hkeys : keys ⊆ keys') : Announces bit_count hash_count keys' msg := by
  obtain ⟨filter, hfilter, hkey⟩ := h.filter
  exact ⟨h.free, filter, hfilter.mono hkeys, hkey⟩

/-- What arrives of a filter and is accepted is whole: a filter that was cut has too few digits. -/
theorem Announces.key_of_arrives {msg m : Message} (h : Announces bit_count hash_count keys msg)
    (harrives : UdpTransport.arrives msg.toWire = some m)
    (haccepted : BloomFilter.fromHex bit_count hash_count m.key = some filter) :
    m.key = msg.key := by
  obtain ⟨announced, ⟨values, -, rfl⟩, hkey⟩ := h.filter
  obtain ⟨-, -, -, -, hfront, -⟩ := UdpTransport.prefixes_of_arrives h.free harrives
  obtain ⟨hdigits, -, -, -⟩ := BloomFilter.fromHex_eq_some_iff.mp haccepted
  have hlength := (BloomFilter.ofValues bit_count hash_count values).length_toHex
  rw [(BloomFilter.ofValues_shape bit_count hash_count values).1] at hlength
  exact hfront.eq_of_length (by rw [hkey, hdigits, hlength])

/-- What arrives of a filter and is accepted is the filter that was announced. -/
theorem Announces.of_arrives {msg m : Message} (h : Announces bit_count hash_count keys msg)
    (harrives : UdpTransport.arrives msg.toWire = some m)
    (haccepted : BloomFilter.fromHex bit_count hash_count m.key = some filter) :
    FilterOf bit_count hash_count keys filter := by
  have hwhole := h.key_of_arrives harrives haccepted
  obtain ⟨announced, ⟨values, hvalues, rfl⟩, hkey⟩ := h.filter
  obtain ⟨hbits, hhashes⟩ := BloomFilter.ofValues_shape bit_count hash_count values
  have hback := BloomFilter.fromHex_toHex (.ofValues bit_count hash_count values)
  rw [hbits, hhashes, ← hkey, ← hwhole, haccepted] at hback
  exact ⟨values, hvalues, Option.some.inj hback⟩

namespace Node

/-- The keys that a node has recorded. -/
def recorded (n : Node) : Set Bytes := {key | key ∈ n.local_keys}

/-- What a node says of itself is true. -/
structure Truthful (bit_count hash_count : ℕ) (n : Node) : Prop where
  /-- Its own filter is one of recorded keys. -/
  filter : FilterOf bit_count hash_count n.recorded n.content_bloom.local_filter
  /-- What is recorded has a value. -/
  held : ∀ key ∈ n.recorded, (n.redis key).isSome

/-! ## What a handler does to the keys -/

/-- A handler that changes none of the views of the local cache. -/
theorem Truthful.of_frame {n n' : Node} (h : n.Truthful bit_count hash_count)
    (hkeys : n'.local_keys = n.local_keys)
    (hfilter : n'.content_bloom.local_filter = n.content_bloom.local_filter)
    (hredis : n'.redis = n.redis) :
    n'.Truthful bit_count hash_count ∧ n.recorded ⊆ n'.recorded := by
  have hrecorded : n'.recorded = n.recorded := by rw [recorded, hkeys, recorded]
  refine ⟨⟨?_, fun key hkey => ?_⟩, hrecorded.ge⟩
  · rw [hfilter, hrecorded]
    exact h.filter
  · rw [hredis]
    exact h.held key (hrecorded ▸ hkey)

/-- A handler that may record a key that Redis has. -/
theorem Truthful.finish {n : Node} (h : n.Truthful bit_count hash_count) {b : Begun}
    (hbegins : n.Begins b) :
    b.finish.1.Truthful bit_count hash_count ∧ n.recorded ⊆ b.finish.1.recorded := by
  have hgrown : ∀ key, (n.redis key).isSome → (b.node.redis key).isSome := by
    intro key hkey
    rcases hbegins.redis with hredis | ⟨k, value, -, hredis⟩
    · rwa [hredis]
    · rw [hredis, Function.update_apply]
      split_ifs
      · rfl
      · exact hkey
  have hbefore : b.node.recorded = n.recorded := by rw [recorded, hbegins.local_keys, recorded]
  have htruthful : b.node.Truthful bit_count hash_count := by
    refine ⟨?_, fun key hkey => hgrown key (h.held key (hbefore ▸ hkey))⟩
    rw [hbegins.local_filter, hbefore]
    exact h.filter
  unfold Begun.finish
  cases hkey : b.key with
  | none => exact ⟨htruthful, hbefore.ge⟩
  | some key =>
    have hmore : b.node.recorded ⊆ (b.node.recordLocalKey key).recorded := fun k hk =>
      (AList.mem_insert _).mpr (Or.inr hk)
    have hself : key ∈ (b.node.recordLocalKey key).recorded := (AList.mem_insert _).mpr (Or.inl rfl)
    refine ⟨⟨(htruthful.filter.mono hmore).add hself, fun k hk => ?_⟩, hbefore.ge.trans hmore⟩
    rcases (AList.mem_insert _).mp hk with rfl | hk
    · exact hbegins.held _ hkey
    · exact htruthful.held k hk

/-- A node goes on telling the truth, whatever it receives. -/
theorem Truthful.handleWireMessage {n : Node} (h : n.Truthful bit_count hash_count) (env : Env)
    (wire : Bytes) (sender : SockaddrIn) :
    (n.handleWireMessage env wire sender).1.Truthful bit_count hash_count ∧
      n.recorded ⊆ (n.handleWireMessage env wire sender).1.recorded := by
  rw [← finish_beginWireMessage]
  exact h.finish (begins_wireMessage n env wire sender)

/-- So do its own threads. -/
theorem Truthful.runTask {n : Node} (h : n.Truthful bit_count hash_count) (env : Env)
    (task : Task) : (n.runTask env task).1.Truthful bit_count hash_count ∧
      n.recorded ⊆ (n.runTask env task).1.recorded := by
  cases task with
  | seed position =>
    cases hseed : n.config.seed_keys[position]? with
    | none => simpa only [Node.runTask, hseed] using ⟨h, subset_rfl⟩
    | some kv =>
      have hfinish := finish_beginSeed n env kv
      have hseeded := h.finish (begins_seed n env kv)
      rw [hfinish] at hseeded
      simpa only [Node.runTask, hseed] using hseeded
  | request key =>
    have hscheduled := h.finish (begins_schedule n env key)
    rwa [finish_beginSchedule] at hscheduled
  | exchangeContentBloom => exact ⟨h, subset_rfl⟩
  | takeFallbacks => exact h.of_frame rfl rfl rfl
  | flushQueryBlooms => exact h.of_frame rfl rfl rfl
  | reloadTopology neighbors => exact h.of_frame rfl rfl rfl

/-! ## What a handler does to the summaries of the neighbors -/

/-- Recording a key leaves them alone. -/
theorem neighbors_finish (b : Begun) :
    b.finish.1.content_bloom.neighbors = b.node.content_bloom.neighbors := by
  unfold Begun.finish
  split <;> rfl

/-- A request brings no summary. -/
theorem content_bloom_beginRequest (n : Node) (env : Env) (msg : Message) (sender : SockaddrIn) :
    (n.beginRequest env msg sender).node.content_bloom = n.content_bloom := by
  unfold beginRequest
  dsimp only
  cases (RequestPipeline.run n.query_table (n.redisGet env) env.prune_now env.record_now
    msg).1.state <;> rfl

/-- A `DATA` brings no summary. -/
theorem content_bloom_beginData (n : Node) (env : Env) (msg : Message) :
    (n.beginData env msg).node.content_bloom = n.content_bloom := by
  unfold beginData
  split
  · rfl
  · rfl
  · split_ifs <;> rfl

/-- A Query-BF brings no summary. -/
theorem content_bloom_handleQueryBloom (n : Node) (env : Env) (msg : Message)
    (sender : SockaddrIn) :
    (n.handleQueryBloom env msg sender).1.content_bloom = n.content_bloom := by
  unfold handleQueryBloom
  cases n.queryBloomFilter env msg with
  | none => rfl
  | some filter =>
    obtain ⟨⟨request_counter, hcounter⟩, -⟩ :=
      answerKeys_spec env msg filter sender (env.order.order n.local_keys.keys) 0 n
    dsimp only
    rw [hcounter]
    split_ifs <;> rfl

/-- A summary that a node has after a datagram is an old one, or the filter of the datagram under
the address of its source. -/
theorem neighbors_handleWireMessage {n : Node} {env : Env} {wire : Bytes} {sender : SockaddrIn}
    {k : Bytes} {e : ContentBloomTable.NeighborEntry}
    (h : (n.handleWireMessage env wire sender).1.content_bloom.neighbors.lookup k = some e) :
    n.content_bloom.neighbors.lookup k = some e ∨
      ∃ msg, fromWire wire = some msg ∧ msg.type = .contentBloom ∧ e.addr = sender ∧
        n.summaryFilter msg = some e.filter := by
  rw [← finish_beginWireMessage, neighbors_finish] at h
  unfold beginWireMessage at h
  cases hmsg : fromWire wire with
  | none => exact Or.inl (by simpa only [hmsg] using h)
  | some msg =>
    cases htype : msg.type with
    | request =>
      simp only [hmsg, htype, content_bloom_beginRequest] at h
      exact Or.inl h
    | data =>
      simp only [hmsg, htype, content_bloom_beginData] at h
      exact Or.inl h
    | contentBloom =>
      simp only [hmsg, htype, handleContentBloom_eq_summaryFilter] at h
      cases hfilter : n.summaryFilter msg with
      | none => exact Or.inl (by simpa only [hfilter] using h)
      | some filter =>
        simp only [hfilter, ContentBloomTable.updateNeighbor] at h
        by_cases hk : k = addrToString sender
        · subst hk
          obtain rfl := Option.some.inj ((AList.lookup_insert _).symm.trans h)
          exact Or.inr ⟨msg, rfl, htype, rfl, hfilter⟩
        · exact Or.inl ((AList.lookup_insert_ne hk).symm.trans h)
    | queryBloom =>
      simp only [hmsg, htype, content_bloom_handleQueryBloom] at h
      exact Or.inl h
    | unknown => exact Or.inl (by simpa only [hmsg, htype] using h)

end Node

/-- A summary that was kept was there before. -/
theorem ContentBloomTable.lookup_of_pruned {t : ContentBloomTable} {now : ℤ} {k : Bytes}
    {e : NeighborEntry} (h : (t.pruneLocked now).neighbors.lookup k = some e) :
    t.neighbors.lookup k = some e := by
  unfold pruneLocked at h
  split_ifs at h
  · exact h
  · exact (Option.filter_eq_some_iff.mp ((lookup_filter _ _ _).symm.trans h)).1

namespace Node

/-- A summary that a node has after a round of its own threads is an old one. -/
theorem neighbors_runTask {n : Node} {env : Env} {task : Task} {k : Bytes}
    {e : ContentBloomTable.NeighborEntry}
    (h : (n.runTask env task).1.content_bloom.neighbors.lookup k = some e) :
    n.content_bloom.neighbors.lookup k = some e := by
  cases task with
  | seed position =>
    cases hseed : n.config.seed_keys[position]? with
    | none => simpa only [runTask, hseed] using h
    | some kv =>
      simp only [runTask, hseed, seedKey] at h
      split_ifs at h
      · exact h
      · exact h
  | request key =>
    simp only [runTask, scheduleRequest] at h
    cases hget : n.redisGet env key with
    | some value =>
      simp only [hget] at h
      exact h
    | none =>
      apply ContentBloomTable.lookup_of_pruned
      simp only [hget] at h
      split at h
      · exact h
      · exact h
  | exchangeContentBloom => exact h
  | takeFallbacks => exact h
  | flushQueryBlooms => exact h
  | reloadTopology neighbors => exact h

/-! ## What a handler sends -/

/-- A node that sends a request straight to an address has a summary from there that matches. -/
theorem direct_of_runTask {n : Node} {env : Env} {task : Task} {addr : SockaddrIn} {msg : Message}
    {on_success : Option (Bytes × Bytes)}
    (h : .direct addr msg on_success ∈ (n.runTask env task).2) :
    ∃ k e, n.content_bloom.neighbors.lookup k = some e ∧ e.addr = addr ∧
      e.filter.maybeContains msg.key = true := by
  cases task with
  | seed position =>
    simp only [runTask] at h
    split at h <;> exact absurd h List.not_mem_nil
  | request key =>
    simp only [runTask, scheduleRequest] at h
    cases hget : n.redisGet env key with
    | some value => simp [hget] at h
    | none =>
      simp only [hget] at h
      split at h
      · next addr' hselected =>
        obtain ⟨rfl, rfl, rfl⟩ : addr = addr' ∧ msg = _ ∧ on_success = none := by
          simpa using h
        obtain ⟨k, e, hfound, hmatches, haddr⟩ := ContentBloomTable.entry_of_selected hselected
        exact ⟨k, e, ContentBloomTable.lookup_of_pruned hfound, haddr, hmatches⟩
      · exact absurd h List.not_mem_nil
  | exchangeContentBloom => simp [runTask, exchangeContentBloom] at h
  | takeFallbacks => exact absurd h List.not_mem_nil
  | flushQueryBlooms => simp [runTask, flushQueryBlooms] at h
  | reloadTopology neighbors => exact absurd h List.not_mem_nil

end Node

namespace NetworkState

/-! ## The runs of a network -/

variable {ι : Type*}

/-- What a node queues: the only summary is its own, and a direct request goes to a node with a
filter that matches. -/
structure SentTruly (W : Wiring ι) (bit_count hash_count : ℕ) (views : ι → Set Bytes) (i : ι)
    (send : Send) : Prop where
  /-- A summary announces recorded keys. -/
  summary : send.msg.type = .contentBloom →
    Announces bit_count hash_count (views i) send.msg
  /-- A direct request follows a summary. -/
  hinted : ∀ addr msg on_success, send = .direct addr msg on_success → msg.type = .request →
    ∃ j filter, addr = W.address j ∧ FilterOf bit_count hash_count (views j) filter ∧
      filter.maybeContains msg.key = true

/-- What a node believes of its neighbors, and what it says of itself, is true. -/
structure Believes (W : Wiring ι) (bit_count hash_count : ℕ) (views : ι → Set Bytes)
    (config : Config) (n : Node) : Prop where
  /-- The configuration stays. -/
  config_eq : n.config = config
  /-- What it says of itself. -/
  truthful : n.Truthful bit_count hash_count
  /-- What it believes of its neighbors. -/
  neighbors : ∀ k e, n.content_bloom.neighbors.lookup k = some e →
    ∃ j, e.addr = W.address j ∧ FilterOf bit_count hash_count (views j) e.filter

variable {W : Wiring ι} {views views' : ι → Set Bytes} {i : ι} {config : Config} {n : Node}

/-- More may be recorded. -/
theorem Believes.mono (h : Believes W bit_count hash_count views config n)
    (hviews : views ≤ views') : Believes W bit_count hash_count views' config n where
  config_eq := h.config_eq
  truthful := h.truthful
  neighbors k e he := by
    obtain ⟨j, haddr, hfilter⟩ := h.neighbors k e he
    exact ⟨j, haddr, hfilter.mono (hviews j)⟩

/-- More may be recorded. -/
theorem SentTruly.mono {send : Send} (h : SentTruly W bit_count hash_count views i send)
    (hviews : views ≤ views') : SentTruly W bit_count hash_count views' i send where
  summary htype := (h.summary htype).mono (hviews i)
  hinted addr msg on_success hsend htype := by
    obtain ⟨j, filter, haddr, hfilter, hmatches⟩ := h.hinted addr msg on_success hsend htype
    exact ⟨j, filter, haddr, hfilter.mono (hviews j), hmatches⟩

variable [DecidableEq ι]

/-- The peers have distinct ids, without a bar. -/
theorem peer_ids : Function.Injective Peer.host ∧ ∀ p : Peer, bar ∉ p.host := by
  refine ⟨fun p p' h => ?_, fun p => by cases p <;> decide⟩
  cases p <;> cases p' <;> first | rfl | exact absurd h (by decide)

/-- The server announces `k`, and the origin asks the server for it. -/
def hinted : List (Action Peer) :=
  [.work .server { wall_ms := 1000 } (.seed 0),
    .work .server { wall_ms := 1000 } .exchangeContentBloom,
    .dispatch 0 fun _ => true,
    .deliver 0 .origin { wall_ms := 1001 },
    .work .origin { wall_ms := 1002 } (.request (ascii "k"))]

end NetworkState

end Netos
