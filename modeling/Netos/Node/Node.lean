import Netos.Cache.RedisClient
import Netos.Core.Config
import Netos.Network.UdpNetwork
import Netos.Node.DataPipeline
import Netos.Node.RequestPipeline
import Netos.Tables.ContentBfFallback
import Netos.Tables.ContentBfTable
import Netos.Tables.QueryBfAggregator
import Netos.Tables.QueryBfLimiter
import Netos.Tables.SyncTable

/-!
# A node

`node/node.h` and `node/node.cpp`: the tables of a node, and what it does on a datagram and in its
own threads. A handler returns the node and what it hands to the forward queue. Redis is a map from
keys to values; that a call on it fails, and what the clocks read, is in the `Env` of a handler.

The last section says what a handler may do to Redis and what it may send, once for all handlers.
-/

namespace Netos

open CString Cxx

/-- What a handler finds around it: clock readings, failures of Redis, and the order in which loops
visit unordered containers. -/
structure Env where
  /-- The steady clock, as the query table reads it to prune. -/
  prune_now : ℤ := 0
  /-- The steady clock, as the query table reads it to record. -/
  record_now : ℤ := 0
  /-- The steady clock, as the other tables read it. -/
  steady : ℤ := 0
  /-- The system clock, in milliseconds, as `handle_query_bloom` reads it. -/
  wall_ms : UInt64 := 0
  /-- The system clock, in milliseconds, at the resets of the `add_key` of a key. -/
  add_ms : Bytes → ResetReadings := fun _ => .same wall_ms
  /-- The system clock, in milliseconds, at the reset of the buffer of an origin by `flush_due`. -/
  flush_ms : Bytes → UInt64 := fun _ => wall_ms
  /-- The system clock, in milliseconds, as the `i`-th call of `make_request_id` reads it. -/
  id_ms : ℕ → ℤ := fun _ => 0
  /-- The order of the loops. -/
  order : Iteration := default
  /-- The keys on which a `get` of Redis fails. -/
  get_fails : Bytes → Bool := fun _ => false
  /-- The keys on which a `set` of Redis fails. -/
  set_fails : Bytes → Bool := fun _ => false

/-- What is handed to the forward queue. A direct message that was sent may record a destination of
a key in the sync table. -/
inductive Send where
  /-- `send_direct`. -/
  | direct (addr : SockaddrIn) (msg : Message) (on_success : Option (Bytes × Bytes))
  /-- `send_broadcast`. -/
  | broadcast (msg : Message) (exclude : Option SockaddrIn)

/-- The message. -/
def Send.msg : Send → Message
  | .direct _ msg _ => msg
  | .broadcast msg _ => msg

/-- `Node`. -/
structure Node where
  config : Config
  redis : RedisClient.Store
  network : UdpNetwork
  query_table : QueryTable
  sync_table : SyncTable
  content_bloom : ContentBloomTable
  content_bf_fallback : ContentBfFallbackTable
  query_bloom_aggregator : QueryBloomAggregator
  query_bloom_limiter : QueryBloomLimiter
  local_keys : UnorderedSet Bytes
  request_counter : UInt64

/-- `static_cast<size_t>` of an `int`. -/
def toSize (n : Int32) : ℕ := (n.toInt % 2 ^ 64).toNat

/-- `parse_uint64`. -/
def parseUint64 (value : Bytes) : Option UInt64 :=
  if value = [] then none
  else
    match strtoull value with
    | none => none
    | some (parsed, rest) => if rest ≠ [] then none else some parsed

namespace Node

/-- The constructor, and `init` on a configuration that passes: the topology is set. -/
def construct (config : Config) (redis : RedisClient.Store) : Node where
  config
  redis
  network := UdpNetwork.empty.setTopology (buildTopology config.neighbors)
  query_table := .construct config.query_ttl_ms.toInt
  sync_table := .construct (toSize config.sync_table_capacity)
  content_bloom := .construct (toSize config.content_bf_bits) (toSize config.content_bf_hashes)
    config.content_bf_ttl_ms.toInt
  content_bf_fallback := .construct config.content_bf_fallback_ms.toInt
  query_bloom_aggregator := .construct (toSize config.query_bf_bits) (toSize config.query_bf_hashes)
    config.query_bf_aggregation_ms.toInt config.query_bf_ttl_ms.toInt
    config.query_bf_max_fill_ratio (UInt64.ofNat (toSize config.query_bf_max_keys))
  query_bloom_limiter := .construct (toSize config.broadcast_attempt_limit)
    config.broadcast_window_ms.toInt
  local_keys := ∅
  request_counter := 0

/-- `RedisClient::get`: an error counts as a miss. -/
def redisGet (n : Node) (env : Env) (key : Bytes) : Option Bytes :=
  if env.get_fails key then none else n.redis key

/-- `record_local_key`. -/
def recordLocalKey (n : Node) (key : Bytes) : Node :=
  { n with
    local_keys := n.local_keys.insert key (), content_bloom := n.content_bloom.addLocalKey key }

/-- `make_request_id`. -/
def makeRequestId (n : Node) (millis : ℤ) : Node × Bytes :=
  ({ n with request_counter := n.request_counter + 1 },
    n.config.node_id ++ ascii "-" ++ intToString millis ++ ascii "-" ++
      natToString n.request_counter.toNat)

/-! ## Datagrams -/

/-- `handle_request`. -/
def handleRequest (n : Node) (env : Env) (msg : Message) (sender : SockaddrIn) :
    Node × List Send :=
  let (decision, query_table) :=
    RequestPipeline.run n.query_table (n.redisGet env) env.prune_now env.record_now msg
  let n := { n with query_table }
  match decision.state with
  | .dropInvalid => (n, [])
  | .dropTtl => (n, [])
  | .dropDuplicate => (n, [])
  | .serveLocal =>
    -- The answer goes to the node that sent the request here, which need not be its origin.
    let resp : Message := ⟨.data, msg.request_id, msg.origin, n.config.request_ttl, msg.key,
      decision.value.getD []⟩
    (n.recordLocalKey msg.key, [.direct sender resp (some (resp.key, resp.origin))])
  | .forward => (n, [.broadcast { msg with ttl := decision.forward_ttl } (some sender)])

/-- `handle_data`. -/
def handleData (n : Node) (env : Env) (msg : Message) : Node :=
  match (DataPipeline.run n.config msg).state with
  | .dropInvalid => n
  | .dropNotOrigin => n
  | .storeLocal =>
    -- When the value is not stored, the fallback stays.
    if env.set_fails msg.key then n
    else
      recordLocalKey
        { n with
          redis := Function.update n.redis msg.key (some msg.value)
          content_bf_fallback := (n.content_bf_fallback.cancel msg.key msg.origin).1 } msg.key

/-- `handle_content_bloom`. -/
def handleContentBloom (n : Node) (env : Env) (msg : Message) (sender : SockaddrIn) : Node :=
  if msg.origin = [] then n
  else if msg.key = [] then n
  else
    match BloomFilter.fromHex (toSize n.config.content_bf_bits) (toSize n.config.content_bf_hashes)
      msg.key with
    | none => n
    | some filter =>
      { n with content_bloom := n.content_bloom.updateNeighbor env.steady sender filter }

/-- The loop of `handle_query_bloom` over the local keys, with `i` ids made before: every key that
the filter matches and Redis has is answered. -/
def answerKeys (env : Env) (msg : Message) (filter : BloomFilter) (sender : SockaddrIn) :
    List Bytes → ℕ → Node → Node × List Send
  | [], _, n => (n, [])
  | key :: keys, i, n =>
    if filter.maybeContains key then
      match n.redisGet env key with
      | none => answerKeys env msg filter sender keys i n
      | some value =>
        let (n, request_id) := n.makeRequestId (env.id_ms i)
        let resp : Message := ⟨.data, request_id, msg.origin, n.config.request_ttl, key, value⟩
        let (n, sends) := answerKeys env msg filter sender keys (i + 1) n
        (n, .direct sender resp (some (key, msg.origin)) :: sends)
    else answerKeys env msg filter sender keys i n

/-- The checks of `handle_query_bloom` before it answers: the filter, if none of them fails. -/
def queryBloomFilter (n : Node) (env : Env) (msg : Message) : Option BloomFilter :=
  if msg.origin = [] then none
  else if msg.ttl ≤ 0 then none
  else if msg.key = [] then none
  else if msg.value = [] then none
  else
    match parseUint64 msg.value with
    | none => none
    | some created_ms =>
      -- A batch from the future has age zero.
      let age_ms := if env.wall_ms ≥ created_ms then env.wall_ms - created_ms else 0
      if age_ms > UInt64.ofInt n.config.query_bf_ttl_ms.toInt then none
      else
        BloomFilter.fromHex (toSize n.config.query_bf_bits) (toSize n.config.query_bf_hashes)
          msg.key

/-- `handle_query_bloom`: the matching keys are answered, and the Query-BF is relayed while its hop
limit and the limiter allow it. -/
def handleQueryBloom (n : Node) (env : Env) (msg : Message) (sender : SockaddrIn) :
    Node × List Send :=
  match n.queryBloomFilter env msg with
  | none => (n, [])
  | some filter =>
    -- Hits do not end the flood: the Query-BF is relayed whether a key matched or not.
    let keys := env.order.order n.local_keys.keys
    let (n, answers) := answerKeys env msg filter sender keys 0 n
    let forward_ttl := msg.ttl - 1
    if forward_ttl ≤ 0 then (n, answers)
    else
      let (query_bloom_limiter, allowed) :=
        n.query_bloom_limiter.allow env.steady msg.origin filter.digest
      let n := { n with query_bloom_limiter }
      if ¬ allowed then (n, answers)
      else (n, answers ++ [.broadcast { msg with ttl := forward_ttl } (some sender)])

/-- `handle_wire_message`. -/
def handleWireMessage (n : Node) (env : Env) (wire : Bytes) (sender : SockaddrIn) :
    Node × List Send :=
  match fromWire wire with
  | none => (n, [])
  | some msg =>
    match msg.type with
    | .request => n.handleRequest env msg sender
    | .data => (n.handleData env msg, [])
    | .contentBloom => (n.handleContentBloom env msg sender, [])
    | .queryBloom => n.handleQueryBloom env msg sender
    | .unknown => (n, [])

/-! ## The node's own threads -/

/-- One round of the loop of `seed_cache`. -/
def seedKey (env : Env) (n : Node) (kv : KeyValue) : Node :=
  if env.set_fails kv.key then n
  else recordLocalKey { n with redis := Function.update n.redis kv.key (some kv.value) } kv.key

/-- One round of the loop of `schedule_requests`. -/
def scheduleRequest (n : Node) (env : Env) (key : Bytes) : Node × List Send :=
  match n.redisGet env key with
  | some _ => ((n.recordLocalKey key).makeRequestId (env.id_ms 0) |>.1, [])
  | none =>
    let (n, request_id) := n.makeRequestId (env.id_ms 0)
    let req : Message := ⟨.request, request_id, n.config.node_id, n.config.request_ttl, key, []⟩
    -- The id is recorded whatever the answer, so that the request is dropped when it comes back.
    let (query_table, _) := n.query_table.recordIfNew request_id env.prune_now env.record_now
    let (content_bloom, neighbor) := n.content_bloom.selectNeighbor env.order env.steady key
    let n := { n with query_table, content_bloom }
    match neighbor with
    | some addr =>
      -- In the source the request is queued first, and the fallback scheduled after that.
      ({ n with
          content_bf_fallback := (n.content_bf_fallback.schedule env.steady key req.origin).1 },
        [.direct addr req none])
    | none =>
      ({ n with
          query_bloom_aggregator :=
            (n.query_bloom_aggregator.addKey req.origin key env.steady (env.add_ms key)).1 }, [])

/-- One round of `start_content_bloom_exchange`. -/
def exchangeContentBloom (n : Node) : List Send :=
  [.broadcast ⟨.contentBloom, [], n.config.node_id, n.config.content_bf_ttl_ms,
    n.content_bloom.localSnapshot.toHex, []⟩ none]

/-- One round of `start_content_bf_fallbacks`. -/
def takeFallbacks (n : Node) (env : Env) : Node :=
  let (content_bf_fallback, due) := n.content_bf_fallback.takeDue env.order env.steady
  { n with
    content_bf_fallback
    query_bloom_aggregator := due.foldl
      (fun a entry => (a.addKey entry.origin entry.key env.steady (env.add_ms entry.key)).1)
      n.query_bloom_aggregator }

/-- The message of a batch in `start_query_bloom_flush`. -/
def batchMessage (n : Node) (batch : QueryBloomBatch) : Message :=
  ⟨.queryBloom, batch.batch_id, batch.origin, n.config.request_ttl, batch.filter.toHex,
    natToString batch.created_ms.toNat⟩

/-- One round of `start_query_bloom_flush`. -/
def flushQueryBlooms (n : Node) (env : Env) : Node × List Send :=
  let (query_bloom_aggregator, batches) :=
    n.query_bloom_aggregator.flushDue env.order env.steady env.flush_ms
  ({ n with query_bloom_aggregator },
    batches.map fun batch => .broadcast (n.batchMessage batch) none)

/-- One round of `start_topology_reload`, with the neighbors that `load_config` found. -/
def reloadTopology (n : Node) (neighbors : List NeighborConfig) : Node :=
  { n with network := n.network.setTopology (buildTopology neighbors) }

/-- What the own threads of a node do, one round of a loop at a time. -/
inductive Task where
  /-- The round of `seed_cache` for a position of the seeds. -/
  | seed (position : ℕ)
  /-- The round of `schedule_requests` for a key. -/
  | request (key : Bytes)
  /-- A round of `start_content_bloom_exchange`. -/
  | exchangeContentBloom
  /-- A round of `start_content_bf_fallbacks`. -/
  | takeFallbacks
  /-- A round of `start_query_bloom_flush`. -/
  | flushQueryBlooms
  /-- A round of `start_topology_reload`. -/
  | reloadTopology (neighbors : List NeighborConfig)

/-- One round of a task. -/
def runTask (n : Node) (env : Env) : Task → Node × List Send
  | .seed position =>
    match n.config.seed_keys[position]? with
    | none => (n, [])
    | some kv => (seedKey env n kv, [])
  | .request key => n.scheduleRequest env key
  | .exchangeContentBloom => (n, n.exchangeContentBloom)
  | .takeFallbacks => (n.takeFallbacks env, [])
  | .flushQueryBlooms => n.flushQueryBlooms env
  | .reloadTopology neighbors => (n.reloadTopology neighbors, [])

/-- The callback of a direct message that was sent. -/
def onSuccess (n : Node) : Option (Bytes × Bytes) → Node
  | none => n
  | some (key, origin) => { n with sync_table := (n.sync_table.recordDestination key origin).1 }

/-! ## What a handler may do -/

/-- What a node may send on a message: an answer with a value that Redis holds, or the message
itself with one hop less. -/
inductive Reply (n : Node) (msg : Message) (sender : SockaddrIn) : Send → Prop where
  /-- An answer. -/
  | answer (request_id key value : Bytes) (on_success : Option (Bytes × Bytes))
      (held : n.redis key = some value) : Reply n msg sender
        (.direct sender ⟨.data, request_id, msg.origin, n.config.request_ttl, key, value⟩
          on_success)
  /-- A relay. -/
  | relay : Reply n msg sender (.broadcast { msg with ttl := msg.ttl - 1 } (some sender))

/-- What a node may do on a message: it stores the value of a `DATA`, or it replies to a request or
a Query-BF with hops left. -/
structure Handled (n : Node) (msg : Message) (sender : SockaddrIn) (r : Node × List Send) :
    Prop where
  /-- The configuration stays. -/
  config : r.1.config = n.config
  /-- The topology stays. -/
  network : r.1.network = n.network
  /-- Redis changes by the value of a `DATA` only. -/
  redis : r.1.redis = n.redis ∨
    msg.type = .data ∧ r.1.redis = Function.update n.redis msg.key (some msg.value)
  /-- What is sent replies to a request or a Query-BF with hops left. -/
  sends : ∀ s ∈ r.2, (msg.type = .request ∨ msg.type = .queryBloom) ∧ 0 < msg.ttl ∧
    Reply n msg sender s

/-- A handler that changes neither configuration, topology nor Redis, and sends nothing. -/
theorem Handled.of_frame {n n' : Node} (msg : Message) (sender : SockaddrIn)
    (hconfig : n'.config = n.config) (hnetwork : n'.network = n.network)
    (hredis : n'.redis = n.redis) : Handled n msg sender (n', []) :=
  ⟨hconfig, hnetwork, Or.inl hredis, fun _ h => absurd h List.not_mem_nil⟩

/-- A lookup that succeeds returns what Redis holds. -/
theorem redis_of_redisGet {n : Node} {env : Env} {key value : Bytes}
    (h : n.redisGet env key = some value) : n.redis key = some value := by
  unfold redisGet at h
  split_ifs at h with hfails
  exact h

/-- The loop over the local keys changes the counter only, and sends answers. -/
theorem answerKeys_spec (env : Env) (msg : Message) (filter : BloomFilter) (sender : SockaddrIn)
    (keys : List Bytes) (i : ℕ) (n : Node) :
    (∃ request_counter,
      (answerKeys env msg filter sender keys i n).1 = { n with request_counter }) ∧
      ∀ s ∈ (answerKeys env msg filter sender keys i n).2, Reply n msg sender s := by
  induction keys generalizing i n with
  | nil => exact ⟨⟨n.request_counter, rfl⟩, fun s h => absurd h List.not_mem_nil⟩
  | cons key keys ih =>
    unfold answerKeys
    split_ifs with hmatch
    · cases hget : n.redisGet env key with
      | none => exact ih i n
      | some value =>
        -- The rest of the loop starts from a node with another counter, but the same Redis.
        obtain ⟨⟨c, hc⟩, hsends⟩ := ih (i + 1) (n.makeRequestId (env.id_ms i)).1
        refine ⟨⟨c, hc⟩, fun s hs => ?_⟩
        rcases List.mem_cons.mp hs with rfl | hs
        · exact Reply.answer _ key value _ (redis_of_redisGet hget)
        · cases hsends s hs with
          | answer request_id key value on_success held =>
            exact Reply.answer request_id key value on_success held
          | relay => exact Reply.relay
    · exact ih i n

/-- `handle_request` serves or relays a valid request, and drops any other. -/
theorem handled_request (n : Node) (env : Env) {msg : Message} (sender : SockaddrIn)
    (htype : msg.type = .request) :
    Handled n msg sender (n.handleRequest env msg sender) := by
  by_cases hvalid : RequestPipeline.Valid msg
  · simp only [handleRequest, RequestPipeline.run_of_valid _ _ _ _ hvalid]
    cases (n.query_table.recordIfNew msg.request_id env.prune_now env.record_now).2 with
    | false => exact Handled.of_frame msg sender rfl rfl rfl
    | true =>
      cases hget : n.redisGet env msg.key with
      | some value =>
        refine ⟨rfl, rfl, Or.inl rfl, fun s hs => ⟨Or.inl htype, hvalid.2.2.2, ?_⟩⟩
        obtain rfl := List.mem_singleton.mp hs
        exact Reply.answer _ _ value _ (redis_of_redisGet hget)
      | none =>
        refine ⟨rfl, rfl, Or.inl rfl, fun s hs => ⟨Or.inl htype, hvalid.2.2.2, ?_⟩⟩
        obtain rfl := List.mem_singleton.mp hs
        exact Reply.relay
  · obtain ⟨htable, hstate⟩ := RequestPipeline.run_of_not_valid n.query_table (n.redisGet env)
      env.prune_now env.record_now hvalid
    rcases hstate with hstate | hstate
    · simp only [handleRequest, hstate]
      exact Handled.of_frame msg sender rfl rfl rfl
    · simp only [handleRequest, hstate]
      exact Handled.of_frame msg sender rfl rfl rfl

/-- `handle_data` stores the value of the message, or changes nothing of this. -/
theorem handled_data (n : Node) (env : Env) {msg : Message} (sender : SockaddrIn)
    (htype : msg.type = .data) :
    Handled n msg sender (n.handleData env msg, []) := by
  unfold handleData
  cases (DataPipeline.run n.config msg).state with
  | dropInvalid => exact Handled.of_frame msg sender rfl rfl rfl
  | dropNotOrigin => exact Handled.of_frame msg sender rfl rfl rfl
  | storeLocal =>
    dsimp only
    split_ifs with hfails
    · exact Handled.of_frame msg sender rfl rfl rfl
    · exact ⟨rfl, rfl, Or.inr ⟨htype, rfl⟩, fun s h => absurd h List.not_mem_nil⟩

/-- A Query-BF that passes the checks has hops left. -/
theorem ttl_pos_of_queryBloomFilter {n : Node} {env : Env} {msg : Message} {filter : BloomFilter}
    (h : n.queryBloomFilter env msg = some filter) : 0 < msg.ttl := by
  unfold queryBloomFilter at h
  split_ifs at h with horigin httl
  exact Int32.not_le.mp httl

/-- `handle_query_bloom` answers and relays a Query-BF that passes the checks. -/
theorem handled_queryBloom (n : Node) (env : Env) {msg : Message}
    (sender : SockaddrIn) (htype : msg.type = .queryBloom) :
    Handled n msg sender (n.handleQueryBloom env msg sender) := by
  unfold handleQueryBloom
  cases hfilter : n.queryBloomFilter env msg with
  | none => exact Handled.of_frame msg sender rfl rfl rfl
  | some filter =>
    obtain ⟨⟨c, hc⟩, hsends⟩ :=
      answerKeys_spec env msg filter sender (env.order.order n.local_keys.keys) 0 n
    have hpos : 0 < msg.ttl := ttl_pos_of_queryBloomFilter hfilter
    -- The answers are there in each of the three cases, the relay in one.
    have hanswers : ∀ s ∈ (answerKeys env msg filter sender
        (env.order.order n.local_keys.keys) 0 n).2, (msg.type = .request ∨ msg.type = .queryBloom) ∧
          0 < msg.ttl ∧ Reply n msg sender s :=
      fun s hs => ⟨Or.inr htype, hpos, hsends s hs⟩
    dsimp only
    rw [hc]
    split_ifs with hlast hallowed
    · exact ⟨rfl, rfl, Or.inl rfl, hanswers⟩
    · refine ⟨rfl, rfl, Or.inl rfl, fun s hs => ?_⟩
      rcases List.mem_append.mp hs with hs | hs
      · exact hanswers s hs
      · obtain rfl := List.mem_singleton.mp hs
        exact ⟨Or.inr htype, hpos, Reply.relay⟩
    · exact ⟨rfl, rfl, Or.inl rfl, hanswers⟩

/-- `handle_content_bloom` changes the Content-BFs only. -/
theorem handleContentBloom_eq (n : Node) (env : Env) (msg : Message) (sender : SockaddrIn) :
    ∃ content_bloom, n.handleContentBloom env msg sender = { n with content_bloom } := by
  unfold handleContentBloom
  split_ifs
  · exact ⟨n.content_bloom, rfl⟩
  · exact ⟨n.content_bloom, rfl⟩
  · split
    · exact ⟨n.content_bloom, rfl⟩
    · exact ⟨_, rfl⟩

/-- A datagram that cannot be decoded is dropped. -/
theorem handleWireMessage_of_none (n : Node) (env : Env) {wire : Bytes} (sender : SockaddrIn)
    (hwire : fromWire wire = none) : n.handleWireMessage env wire sender = (n, []) := by
  rw [handleWireMessage, hwire]

/-- What a node may do on a datagram that it decodes. -/
theorem handled_wireMessage (n : Node) (env : Env) {wire : Bytes} {msg : Message}
    (sender : SockaddrIn) (hwire : fromWire wire = some msg) :
    Handled n msg sender (n.handleWireMessage env wire sender) := by
  rw [handleWireMessage, hwire]
  cases htype : msg.type with
  | request => simpa only [htype] using handled_request n env sender htype
  | data => simpa only [htype] using handled_data n env sender htype
  | contentBloom =>
    obtain ⟨content_bloom, hbloom⟩ := handleContentBloom_eq n env msg sender
    simp only [htype, hbloom]
    exact Handled.of_frame msg sender rfl rfl rfl
  | queryBloom => simpa only [htype] using handled_queryBloom n env sender htype
  | unknown => simpa only [htype] using Handled.of_frame msg sender rfl rfl rfl

/-- What a round of a node's own threads may do: it seeds Redis with a pair of the configuration,
replaces the topology, or sends messages other than `DATA`. -/
structure Worked (n : Node) (task : Task) (r : Node × List Send) : Prop where
  /-- The configuration stays. -/
  config : r.1.config = n.config
  /-- Only a reload changes the topology. -/
  network : r.1.network = n.network ∨ ∃ neighbors, task = .reloadTopology neighbors
  /-- Redis changes by a seed only. -/
  redis : r.1.redis = n.redis ∨ ∃ kv ∈ n.config.seed_keys,
    r.1.redis = Function.update n.redis kv.key (some kv.value)
  /-- Nothing is answered. -/
  sends : ∀ s ∈ r.2, s.msg.type ≠ .data

/-- What a round of a node's own threads may do. -/
theorem worked_runTask (n : Node) (env : Env) (task : Task) :
    Worked n task (n.runTask env task) := by
  cases task with
  | seed position =>
    cases hseed : n.config.seed_keys[position]? with
    | none =>
      simp only [runTask, hseed]
      exact ⟨rfl, Or.inl rfl, Or.inl rfl, by simp⟩
    | some kv =>
      simp only [runTask, hseed]
      cases hfails : env.set_fails kv.key with
      | true =>
        simp only [seedKey, hfails, if_true]
        exact ⟨rfl, Or.inl rfl, Or.inl rfl, by simp⟩
      | false =>
        simp only [seedKey, hfails, Bool.false_eq_true, if_false]
        exact ⟨rfl, Or.inl rfl, Or.inr ⟨kv, List.mem_of_getElem? hseed, rfl⟩, by simp⟩
  | request key =>
    cases hget : n.redisGet env key with
    | some value =>
      simp only [runTask, scheduleRequest, hget]
      exact ⟨rfl, Or.inl rfl, Or.inl rfl, by simp⟩
    | none =>
      simp only [runTask, scheduleRequest, hget]
      split
      · exact ⟨rfl, Or.inl rfl, Or.inl rfl, by simp [Send.msg]⟩
      · exact ⟨rfl, Or.inl rfl, Or.inl rfl, by simp⟩
  | exchangeContentBloom =>
    exact ⟨rfl, Or.inl rfl, Or.inl rfl, by simp [runTask, exchangeContentBloom, Send.msg]⟩
  | takeFallbacks => exact ⟨rfl, Or.inl rfl, Or.inl rfl, by simp [runTask]⟩
  | flushQueryBlooms =>
    refine ⟨rfl, Or.inl rfl, Or.inl rfl, fun s hs => ?_⟩
    obtain ⟨batch, -, rfl⟩ := List.mem_map.mp hs
    simp [Send.msg, batchMessage]
  | reloadTopology neighbors =>
    exact ⟨rfl, Or.inr ⟨neighbors, rfl⟩, Or.inl rfl, by simp [runTask]⟩

end Node

end Netos
