import Netos.Node.BloomDatagrams
import Netos.System.Pools
import Netos.System.Provenance

/-!
# What the nodes say to each other

The fields of a message are node ids, request ids, keys, values, filters and times, and the keys and
the values all come from the configurations. A `Vocabulary` says which bytes each kind of field may
be; `Speaks` that a configuration keeps to it. When no word contains a bar, and the front of a key
or a value is again one, every message in every run keeps to the vocabulary (`says_of_run`), so no
field is ever taken for another.

Two vocabularies are of use: that of all words without a bar (`nothing_misread`), and that of words
that are also short enough for every `DATA` to fit the receive buffer. Under the second, nothing is
needed of the runs for every store to hold what was seeded (`stores_seeded`).
-/

namespace Netos

open CString Cxx

/-- Which bytes the fields of messages may be. -/
structure Vocabulary where
  /-- The ids of nodes. -/
  node_id : Bytes → Prop
  /-- The ids of requests. -/
  request_id : Bytes → Prop
  /-- The keys. -/
  key : Bytes → Prop
  /-- The values. -/
  value : Bytes → Prop
  /-- The readings of the system clock, in milliseconds, that request ids are made of. -/
  clock : ℤ → Prop

namespace Vocabulary

/-- No word contains the delimiter, what is cut off the end of a key or a value leaves one, and the
ids that nodes make are request ids. -/
structure Closed (v : Vocabulary) : Prop where
  /-- Node ids. -/
  bar_node_id : ∀ w, v.node_id w → bar ∉ w
  /-- Request ids. -/
  bar_request_id : ∀ w, v.request_id w → bar ∉ w
  /-- Keys. -/
  bar_key : ∀ w, v.key w → bar ∉ w
  /-- Values. -/
  bar_value : ∀ w, v.value w → bar ∉ w
  /-- Keys may be cut. -/
  key_prefix : ∀ w w', v.key w → w' <+: w → v.key w'
  /-- Values may be cut. -/
  value_prefix : ∀ w w', v.value w → w' <+: w → v.value w'
  /-- The ids of `make_request_id`. -/
  made : ∀ node_id millis (counter : UInt64), v.node_id node_id → v.clock millis →
    v.request_id (node_id ++ ascii "-" ++ intToString millis ++ ascii "-" ++
      natToString counter.toNat)

/-- A configuration keeps to the vocabulary. -/
structure Speaks (v : Vocabulary) (config : Config) : Prop where
  /-- Its node id. -/
  node_id : v.node_id config.node_id
  /-- Its seeds. -/
  seeds : ∀ kv ∈ config.seed_keys, v.key kv.key ∧ v.value kv.value
  /-- The keys that it requests. -/
  requests : ∀ key ∈ config.request_keys, v.key key

/-- A message keeps to the vocabulary. The key and the value of a Bloom datagram are a filter and a
time. -/
def Says (v : Vocabulary) (msg : Message) : Prop :=
  match msg.type with
  | .request => v.request_id msg.request_id ∧ v.node_id msg.origin ∧ v.key msg.key ∧ msg.value = []
  | .data => v.request_id msg.request_id ∧ v.node_id msg.origin ∧ v.key msg.key ∧ v.value msg.value
  | .contentBloom => v.node_id msg.origin ∧ msg.DelimiterFree
  | .queryBloom => v.node_id msg.origin ∧ msg.DelimiterFree
  | .unknown => False

variable {v : Vocabulary} {msg : Message}

/-- The fields of a request. -/
theorem Says.of_request (h : v.Says msg) (htype : msg.type = .request) :
    v.request_id msg.request_id ∧ v.node_id msg.origin ∧ v.key msg.key ∧ msg.value = [] := by
  simpa only [Says, htype] using h

/-- The fields of a `DATA`. -/
theorem Says.of_data (h : v.Says msg) (htype : msg.type = .data) :
    v.request_id msg.request_id ∧ v.node_id msg.origin ∧ v.key msg.key ∧ v.value msg.value := by
  simpa only [Says, htype] using h

/-- No field of a message contains the delimiter. -/
theorem Says.delimiterFree (h : v.Says msg) (hclosed : v.Closed) : msg.DelimiterFree := by
  cases htype : msg.type with
  | request =>
    obtain ⟨hid, horigin, hkey, hvalue⟩ := h.of_request htype
    exact ⟨hclosed.bar_request_id _ hid, hclosed.bar_node_id _ horigin, hclosed.bar_key _ hkey,
      by rw [hvalue]; exact List.not_mem_nil⟩
  | data =>
    obtain ⟨hid, horigin, hkey, hvalue⟩ := h.of_data htype
    exact ⟨hclosed.bar_request_id _ hid, hclosed.bar_node_id _ horigin, hclosed.bar_key _ hkey,
      hclosed.bar_value _ hvalue⟩
  | contentBloom =>
    simp only [Says, htype] at h
    exact h.2
  | queryBloom =>
    simp only [Says, htype] at h
    exact h.2
  | unknown => simp only [Says, htype] at h

/-- The origin of a message is a node id. -/
theorem Says.origin (h : v.Says msg) : v.node_id msg.origin := by
  cases htype : msg.type with
  | request => exact (h.of_request htype).2.1
  | data => exact (h.of_data htype).2.1
  | contentBloom =>
    simp only [Says, htype] at h
    exact h.1
  | queryBloom =>
    simp only [Says, htype] at h
    exact h.1
  | unknown => simp only [Says, htype] at h

/-- What arrives of a message keeps to the vocabulary, whatever is cut off. -/
theorem Says.of_arrives (h : v.Says msg) (hclosed : v.Closed) {m : Message}
    (harrives : UdpTransport.arrives msg.toWire = some m) : v.Says m := by
  obtain ⟨htype, hid, horigin, -, hkey, hvalue⟩ :=
    UdpTransport.prefixes_of_arrives (h.delimiterFree hclosed) harrives
  have hfree : m.DelimiterFree := by
    rw [UdpTransport.arrives_eq] at harrives
    exact delimiterFree_of_fromWire harrives
  unfold Says at h ⊢
  rw [htype]
  cases hmsg : msg.type with
  | request =>
    simp only [hmsg] at h
    refine ⟨hid ▸ h.1, horigin ▸ h.2.1, hclosed.key_prefix _ _ h.2.2.1 hkey, ?_⟩
    rw [h.2.2.2] at hvalue
    exact List.prefix_nil.mp hvalue
  | data =>
    simp only [hmsg] at h
    exact ⟨hid ▸ h.1, horigin ▸ h.2.1, hclosed.key_prefix _ _ h.2.2.1 hkey,
      hclosed.value_prefix _ _ h.2.2.2 hvalue⟩
  | contentBloom =>
    simp only [hmsg] at h
    exact ⟨horigin ▸ h.1, hfree⟩
  | queryBloom =>
    simp only [hmsg] at h
    exact ⟨horigin ▸ h.1, hfree⟩
  | unknown => simp only [hmsg] at h

/-- Another hop limit says the same. -/
theorem Says.withTtl (h : v.Says msg) (ttl : Int32) : v.Says { msg with ttl } := h

/-! ## What a node knows -/

/-- A node keeps to the vocabulary. -/
structure Knows (v : Vocabulary) (config : Config) (n : Node) : Prop where
  /-- The configuration stays. -/
  config_eq : n.config = config
  /-- The node is well formed. -/
  formed : n.Formed
  /-- Redis holds values. -/
  redis : ∀ key value, n.redis key = some value → v.value value
  /-- The local keys are keys. -/
  local_keys : ∀ key ∈ n.local_keys, v.key key

/-- Replies keep to the vocabulary. -/
def Good (v : Vocabulary) (config : Config) (r : Node × List Send) : Prop :=
  v.Knows config r.1 ∧ ∀ send ∈ r.2, v.Says send.msg

variable {config : Config} {n : Node}

/-- A key is recorded. -/
theorem Knows.recordLocalKey (h : v.Knows config n) {key : Bytes} (hkey : v.key key) :
    v.Knows config (n.recordLocalKey key) where
  config_eq := h.config_eq
  formed := h.formed.of_wantsLess (.recordLocalKey (.of_frame rfl rfl rfl rfl))
  redis := h.redis
  local_keys k hk := by
    rcases (AList.mem_insert _).mp hk with rfl | hk
    · exact hkey
    · exact h.local_keys k hk

/-- A value is stored. -/
theorem Knows.store (h : v.Knows config n) (key : Bytes) {value : Bytes} (hvalue : v.value value)
    {n' : Node} (hless : n.WantsLess n')
    (hredis : n'.redis = Function.update n.redis key (some value))
    (hkeys : n'.local_keys = n.local_keys) : v.Knows config n' where
  config_eq := hless.config.trans h.config_eq
  formed := h.formed.of_wantsLess hless
  redis k w hw := by
    rw [hredis, Function.update_apply] at hw
    split_ifs at hw
    · rw [← Option.some.inj hw]
      exact hvalue
    · exact h.redis k w hw
  local_keys k hk := h.local_keys k (by rwa [hkeys] at hk)

/-- A change of nothing of this. -/
theorem Knows.of_frame (h : v.Knows config n) {n' : Node} (hless : n.WantsLess n')
    (hredis : n'.redis = n.redis) (hkeys : n'.local_keys = n.local_keys) : v.Knows config n' where
  config_eq := hless.config.trans h.config_eq
  formed := h.formed.of_wantsLess hless
  redis k w hw := h.redis k w (by rwa [hredis] at hw)
  local_keys k hk := h.local_keys k (by rwa [hkeys] at hk)

/-- A request is answered with its own fields and a value of Redis, or relayed. -/
theorem Knows.handleRequest (h : v.Knows config n) (hspoke : v.Says msg)
    (htype : msg.type = .request) (env : Env) (sender : SockaddrIn) :
    v.Good config (n.handleRequest env msg sender) := by
  have hdropped : ∀ query_table, v.Good config ({ n with query_table }, []) := fun query_table =>
    ⟨h.of_frame (.of_frame rfl rfl rfl rfl) rfl rfl, by simp⟩
  by_cases hvalid : RequestPipeline.Valid msg
  · simp only [Node.handleRequest, RequestPipeline.run_of_valid _ _ _ _ hvalid]
    cases (n.query_table.recordIfNew msg.request_id env.prune_now env.record_now).2 with
    | false => exact hdropped _
    | true =>
      obtain ⟨hid, horigin, hkey, -⟩ := hspoke.of_request htype
      cases hget : n.redisGet env msg.key with
      | some value =>
        refine ⟨((hdropped _).1).recordLocalKey hkey, fun send hsend => ?_⟩
        rw [List.mem_singleton.mp hsend]
        exact ⟨hid, horigin, hkey, h.redis _ _ (Node.redis_of_redisGet hget)⟩
      | none =>
        refine ⟨(hdropped _).1, fun send hsend => ?_⟩
        rw [List.mem_singleton.mp hsend]
        exact hspoke.withTtl _
  · obtain ⟨-, hstate⟩ := RequestPipeline.run_of_not_valid n.query_table (n.redisGet env)
      env.prune_now env.record_now hvalid
    rcases hstate with hstate | hstate
    · simp only [Node.handleRequest, hstate]
      exact hdropped _
    · simp only [Node.handleRequest, hstate]
      exact hdropped _

/-- A `DATA` brings a key and a value. -/
theorem Knows.handleData (h : v.Knows config n) (hspoke : v.Says msg) (htype : msg.type = .data)
    (env : Env) : v.Knows config (n.handleData env msg) := by
  have hless := Node.wantsLess_handleData n env msg
  obtain ⟨-, -, hkey, hvalue⟩ := hspoke.of_data htype
  unfold Node.handleData at hless ⊢
  cases hstate : (DataPipeline.run n.config msg).state with
  | dropInvalid => exact h
  | dropNotOrigin => exact h
  | storeLocal =>
    simp only [hstate] at hless ⊢
    split_ifs at hless ⊢
    · exact h
    · have hstored : v.Knows config
          { n with
            redis := Function.update n.redis msg.key (some msg.value)
            content_bf_fallback := (n.content_bf_fallback.cancel msg.key msg.origin).1 } := by
        refine h.store msg.key hvalue ⟨rfl, rfl, fun k e he => ?_, rfl, rfl⟩ rfl rfl
        exact (ContentBfFallbackTable.lookup_cancel he).1
      exact hstored.recordLocalKey hkey

/-- The answers to a Query-BF bear ids that the node makes, local keys and values of Redis. -/
theorem Knows.answerKeys (hclosed : v.Closed) (h : v.Knows config n)
    (horigin : v.node_id msg.origin) {env : Env} (hclock : ∀ i, v.clock (env.id_ms i))
    (hspeaks : v.node_id config.node_id) (filter : BloomFilter) (sender : SockaddrIn)
    {keys : List Bytes} (hkeys : ∀ key ∈ keys, v.key key) (i : ℕ) :
    v.Good config (Node.answerKeys env msg filter sender keys i n) := by
  induction keys generalizing i n with
  | nil => exact ⟨h, by simp [Node.answerKeys]⟩
  | cons key keys ih =>
    obtain ⟨hkey, hkeys⟩ := List.forall_mem_cons.mp hkeys
    unfold Node.answerKeys
    split_ifs
    · cases hget : n.redisGet env key with
      | none => exact ih h hkeys i
      | some value =>
        have hcounted : v.Knows config (n.makeRequestId (env.id_ms i)).1 :=
          h.of_frame (.of_frame rfl rfl rfl rfl) rfl rfl
        obtain ⟨hnode, hsends⟩ := ih hcounted hkeys (i + 1)
        refine ⟨hnode, fun send hsend => ?_⟩
        rcases List.mem_cons.mp hsend with rfl | hsend
        · refine ⟨?_, horigin, hkey, h.redis _ _ (Node.redis_of_redisGet hget)⟩
          rw [← h.config_eq] at hspeaks
          exact hclosed.made _ _ _ hspeaks (hclock i)
        · exact hsends send hsend
    · exact ih h hkeys i

/-- A Query-BF is answered and relayed. -/
theorem Knows.handleQueryBloom (hclosed : v.Closed) (h : v.Knows config n) (hspoke : v.Says msg)
    {env : Env} (hclock : ∀ i, v.clock (env.id_ms i)) (hspeaks : v.node_id config.node_id)
    (sender : SockaddrIn) : v.Good config (n.handleQueryBloom env msg sender) := by
  unfold Node.handleQueryBloom
  split
  · exact ⟨h, by simp⟩
  · next filter _ =>
    have hkeys : ∀ key ∈ env.order.order n.local_keys.keys, v.key key := fun key hkey =>
      h.local_keys key (AList.mem_keys.mpr (env.order.mem_order.mp hkey))
    obtain ⟨hnode, hanswers⟩ :=
      h.answerKeys hclosed hspoke.origin hclock hspeaks filter sender hkeys 0
    have hlimited : ∀ query_bloom_limiter, v.Knows config
        { (Node.answerKeys env msg filter sender (env.order.order n.local_keys.keys) 0 n).1 with
          query_bloom_limiter } := fun query_bloom_limiter =>
      hnode.of_frame (.of_frame rfl rfl rfl rfl) rfl rfl
    dsimp only
    split_ifs
    · exact ⟨hnode, hanswers⟩
    · refine ⟨hlimited _, fun send hsend => ?_⟩
      rcases List.mem_append.mp hsend with hsend | hsend
      · exact hanswers send hsend
      · rw [List.mem_singleton.mp hsend]
        exact hspoke.withTtl _
    · exact ⟨hlimited _, hanswers⟩

/-- Whatever arrives, a node goes on keeping to the vocabulary. -/
theorem Knows.handleWireMessage (hclosed : v.Closed) (h : v.Knows config n) {wire : Bytes}
    (hspoke : ∀ msg, fromWire wire = some msg → v.Says msg) {env : Env}
    (hclock : ∀ i, v.clock (env.id_ms i)) (hspeaks : v.node_id config.node_id)
    (sender : SockaddrIn) : v.Good config (n.handleWireMessage env wire sender) := by
  unfold Node.handleWireMessage
  cases hmsg : fromWire wire with
  | none => exact ⟨h, by simp⟩
  | some msg =>
    have hspoke := hspoke msg hmsg
    cases htype : msg.type with
    | request => simpa only [htype] using h.handleRequest hspoke htype env sender
    | data => simpa only [htype] using ⟨h.handleData hspoke htype env, by simp⟩
    | contentBloom =>
      obtain ⟨content_bloom, hbloom⟩ := Node.handleContentBloom_eq n env msg sender
      have hless := Node.wantsLess_handleContentBloom n env msg sender
      simp only [htype]
      exact ⟨h.of_frame hless (by rw [hbloom]) (by rw [hbloom]), by simp⟩
    | queryBloom => simpa only [htype] using h.handleQueryBloom hclosed hspoke hclock hspeaks sender
    | unknown => simpa only [htype] using ⟨h, by simp⟩

/-- A round of `schedule_requests` asks for its key. -/
theorem Knows.scheduleRequest (hclosed : v.Closed) (h : v.Knows config n)
    (hspeaks : v.node_id config.node_id) {env : Env} (hclock : ∀ i, v.clock (env.id_ms i))
    {key : Bytes} (hkey : v.key key) : v.Good config (n.scheduleRequest env key) := by
  have hnode_id : v.node_id n.config.node_id := by rwa [h.config_eq]
  have hformed : (n.scheduleRequest env key).1.Formed := h.formed.scheduleRequest env key
  have hmade : v.request_id (n.makeRequestId (env.id_ms 0)).2 :=
    hclosed.made _ _ _ hnode_id (hclock 0)
  cases hget : n.redisGet env key with
  | some value =>
    simp only [Node.scheduleRequest, hget]
    exact ⟨(h.recordLocalKey hkey).of_frame (.of_frame rfl rfl rfl rfl) rfl rfl, by simp⟩
  | none =>
    cases hselect : (n.content_bloom.selectNeighbor env.order env.steady key).2 with
    | some addr =>
      simp only [Node.scheduleRequest, hget, Node.makeRequestId, hselect] at hformed hmade ⊢
      refine ⟨⟨h.config_eq, hformed, h.redis, h.local_keys⟩, fun send hsend => ?_⟩
      rw [List.mem_singleton.mp hsend]
      exact ⟨hmade, hnode_id, hkey, rfl⟩
    | none =>
      simp only [Node.scheduleRequest, hget, Node.makeRequestId, hselect] at hformed ⊢
      exact ⟨⟨h.config_eq, hformed, h.redis, h.local_keys⟩, by simp⟩

/-- The batches of a flush are the node's. -/
theorem Knows.flushQueryBlooms (hclosed : v.Closed) (h : v.Knows config n)
    (hspeaks : v.node_id config.node_id) (env : Env) : v.Good config (n.flushQueryBlooms env) := by
  have hformed : (n.flushQueryBlooms env).1.Formed := h.formed.runTask env .flushQueryBlooms
  refine ⟨⟨h.config_eq, hformed, h.redis, h.local_keys⟩, fun send hsend => ?_⟩
  obtain ⟨batch, hbatch, rfl⟩ := List.mem_map.mp hsend
  have hof := h.formed.aggregator.batchOf_of_flushDue env.order env.steady env.flush_ms hbatch
  rw [← h.config_eq] at hspeaks
  refine ⟨?_, Node.delimiterFree_batchMessage (hclosed.bar_node_id _ hspeaks) hof⟩
  rw [show (Send.broadcast (n.batchMessage batch) none).msg.origin = batch.origin from rfl,
    hof.origin]
  exact hspeaks

/-- The requests that a task makes are for keys. -/
def AsksFor (v : Vocabulary) : Node.Task → Prop
  | .request key => v.key key
  | _ => True

/-- Whatever its own threads do, a node goes on keeping to the vocabulary. -/
theorem Knows.runTask (hclosed : v.Closed) (h : v.Knows config n) (hspeaks : v.Speaks config)
    {env : Env} (hclock : ∀ i, v.clock (env.id_ms i)) {task : Node.Task} (hasks : v.AsksFor task) :
    v.Good config (n.runTask env task) := by
  cases task with
  | seed position =>
    cases hseed : n.config.seed_keys[position]? with
    | none => simpa only [Node.runTask, hseed] using ⟨h, by simp⟩
    | some kv =>
      rw [h.config_eq] at hseed
      obtain ⟨hkey, hvalue⟩ := hspeaks.seeds kv (List.mem_of_getElem? hseed)
      rw [← h.config_eq] at hseed
      simp only [Node.runTask, hseed, Node.seedKey]
      refine ⟨?_, by simp⟩
      split_ifs
      · exact h
      · have hstored : v.Knows config
            { n with redis := Function.update n.redis kv.key (some kv.value) } :=
          h.store kv.key hvalue (.of_frame rfl rfl rfl rfl) rfl rfl
        exact hstored.recordLocalKey hkey
  | request key => exact h.scheduleRequest hclosed hspeaks.node_id hclock hasks
  | exchangeContentBloom =>
    refine ⟨h, fun send hsend => ?_⟩
    have hnode_id := hspeaks.node_id
    rw [← h.config_eq] at hnode_id
    rw [List.mem_singleton.mp hsend]
    exact ⟨hnode_id, Node.delimiterFree_summary (hclosed.bar_node_id _ hnode_id)⟩
  | takeFallbacks =>
    exact ⟨⟨h.config_eq, h.formed.runTask env .takeFallbacks, h.redis, h.local_keys⟩,
      by simp [Node.runTask]⟩
  | flushQueryBlooms => exact h.flushQueryBlooms hclosed hspeaks.node_id env
  | reloadTopology neighbors =>
    exact ⟨h.of_frame (.of_frame rfl rfl rfl rfl) rfl rfl, by simp [Node.runTask]⟩

end Vocabulary

namespace NetworkState

/-! ## The runs of a network -/

variable {ι : Type*}

/-- The nodes request the keys of their configurations, at clock readings of the vocabulary. -/
def Spoken (v : Vocabulary) (configs : ι → Config) : Action ι → Prop
  | .deliver _ _ env => ∀ i, v.clock (env.id_ms i)
  | .work node env task => (∀ i, v.clock (env.id_ms i)) ∧
      ∀ key, task = .request key → key ∈ (configs node).request_keys
  | .lose _ => True
  | .duplicate _ => True
  | .dispatch _ _ => True
  | .dropQueued _ => True

/-- The nodes and the pools keep to a vocabulary. -/
def vocabularyPools (v : Vocabulary) (configs : ι → Config) : Pools ι Unit where
  view _ := ()
  node _ i n := v.Knows (configs i) n
  send _ _ send := v.Says send.msg
  datagram _ d := v.Says d.sent ∧ d.payload = d.sent.toWire

/-- The network at the start keeps to the vocabulary. -/
theorem vocabularyPools_init (v : Vocabulary) (configs : ι → Config) :
    (vocabularyPools v configs).Hold (init configs) where
  nodes _ := ⟨rfl, Node.formed_construct _ _, fun _ _ h => absurd h.symm (Option.some_ne_none _),
    fun _ hkey => absurd hkey (AList.notMem_empty _)⟩
  queued _ hq := absurd hq List.not_mem_nil
  flight _ hd := absurd hd List.not_mem_nil

variable [DecidableEq ι]

/-- The handlers keep to it. -/
theorem kept_vocabularyPools {v : Vocabulary} (hclosed : v.Closed) {configs : ι → Config}
    (hspeaks : ∀ i, v.Speaks (configs i)) (W : Wiring ι) :
    (vocabularyPools v configs).Kept W (Spoken v configs) where
  node_mono _ h := h
  send_mono _ h := h
  datagram_mono _ h := h
  receive := by
    intro views position i env n datagram wire hclock _ _ hknows hdatagram hwire
    obtain ⟨hspoke, hpayload⟩ := hdatagram
    -- What arrives is what is left of the message that was encoded.
    have harrived : ∀ msg, fromWire wire = some msg → v.Says msg := fun msg hmsg => by
      refine hspoke.of_arrives hclosed ?_
      rw [← hpayload, UdpTransport.arrives, hwire]
      exact hmsg
    obtain ⟨hnode, hsends⟩ := hknows.handleWireMessage hclosed harrived hclock (hspeaks i).node_id
      datagram.src
    exact ⟨le_refl _, hnode, hsends⟩
  work := by
    intro views i env task n hguard _ hknows
    obtain ⟨hclock, hrequests⟩ := hguard
    have hasks : v.AsksFor task := by
      cases task with
      | request key => exact (hspeaks i).requests key (hrequests key rfl)
      | _ => trivial
    obtain ⟨hnode, hsends⟩ := hknows.runTask hclosed (hspeaks i) hclock hasks
    exact ⟨le_refl _, hnode, hsends⟩
  sent _ _ _ h := ⟨rfl, h.of_frame (.of_frame rfl rfl rfl rfl) rfl rfl⟩
  emit _ hspoke hemitted :=
    ⟨hemitted.sent.symm ▸ hspoke, by rw [hemitted.payload, hemitted.sent]⟩

/-- Every message in every run keeps to the vocabulary. -/
theorem says_of_run {v : Vocabulary} (hclosed : v.Closed) {configs : ι → Config}
    (hspeaks : ∀ i, v.Speaks (configs i)) {W : Wiring ι} {actions : List (Action ι)}
    (hspoken : ∀ a ∈ actions, Spoken v configs a) {s : NetworkState ι}
    (hrun : Machine.run (step W) (init configs) actions = some s) :
    (vocabularyPools v configs).Hold s :=
  (vocabularyPools_init v configs).run (kept_vocabularyPools hclosed hspeaks W) hspoken hrun

omit [DecidableEq ι] in
/-- What is in flight arrives as it was sent, up to what the receive buffer cuts off the key or the
value. -/
theorem fields_of_arrives {v : Vocabulary} (hclosed : v.Closed) {configs : ι → Config}
    {s : NetworkState ι} (h : (vocabularyPools v configs).Hold s) {d : Datagram ι}
    (hd : d ∈ s.flight) :
    (d.payload.length ≤ 2047 → UdpTransport.arrives d.payload = some d.sent) ∧
      ∀ msg, UdpTransport.arrives d.payload = some msg → msg.type = d.sent.type ∧
        msg.request_id = d.sent.request_id ∧ msg.origin = d.sent.origin ∧ msg.ttl = d.sent.ttl ∧
        msg.key <+: d.sent.key ∧ msg.value <+: d.sent.value := by
  obtain ⟨hspoke, hpayload⟩ := h.flight d hd
  have hfree := hspoke.delimiterFree hclosed
  rw [hpayload]
  exact ⟨fun hlength => UdpTransport.arrives_of_fits ⟨hfree, Or.inl hlength⟩,
    fun msg harrives => UdpTransport.prefixes_of_arrives hfree harrives⟩

/-- All words without a bar. -/
def barFree : Vocabulary where
  node_id w := bar ∉ w
  request_id w := bar ∉ w
  key w := bar ∉ w
  value w := bar ∉ w
  clock _ := True

/-- What is cut off a word without a bar leaves one. -/
theorem closed_barFree : barFree.Closed where
  bar_node_id _ h := h
  bar_request_id _ h := h
  bar_key _ h := h
  bar_value _ h := h
  key_prefix _ _ h hfront := fun hmem => h (hfront.subset hmem)
  value_prefix _ _ h hfront := fun hmem => h (hfront.subset hmem)
  made node_id millis counter h _ := by
    have hdash : bar ∉ ascii "-" := by decide
    have hid : bar ∉ node_id := h
    show bar ∉ _
    simp [hid, hdash, bar_not_mem_intToString, bar_not_mem_natToString]

/-- Nothing is misread in a network without bars. For any nodes whose ids, seeds and requested keys
contain no bar, any addresses and resolvers, and in every run in which the nodes request the keys of
their configurations, whatever is lost, duplicated, reordered or late: a datagram in flight that is
not longer than the receive buffer arrives as the message that was sent, and a longer one arrives
with its type, id, origin and hop limit, and with nothing in its key and value but the front of what
was sent there. -/
theorem nothing_misread (W : Wiring ι) (configs : ι → Config)
    (hfree : ∀ i, bar ∉ (configs i).node_id ∧
      (∀ kv ∈ (configs i).seed_keys, bar ∉ kv.key ∧ bar ∉ kv.value) ∧
      ∀ key ∈ (configs i).request_keys, bar ∉ key)
    (actions : List (Action ι))
    (hown : ∀ node env key, .work node env (.request key) ∈ actions →
      key ∈ (configs node).request_keys)
    (s : NetworkState ι) (hrun : Machine.run (step W) (init configs) actions = some s) :
    ∀ d ∈ s.flight,
      (d.payload.length ≤ 2047 → UdpTransport.arrives d.payload = some d.sent) ∧
      ∀ msg, UdpTransport.arrives d.payload = some msg → msg.type = d.sent.type ∧
        msg.request_id = d.sent.request_id ∧ msg.origin = d.sent.origin ∧ msg.ttl = d.sent.ttl ∧
        msg.key <+: d.sent.key ∧ msg.value <+: d.sent.value := by
  have hspeaks : ∀ i, barFree.Speaks (configs i) := fun i =>
    ⟨(hfree i).1, (hfree i).2.1, (hfree i).2.2⟩
  have hspoken : ∀ a ∈ actions, Spoken barFree configs a := by
    intro a ha
    cases a with
    | deliver => exact fun _ => trivial
    | work node env task =>
      refine ⟨fun _ => trivial, fun key htask => hown node env key ?_⟩
      rwa [← htask]
    | lose => trivial
    | duplicate => trivial
    | dispatch => trivial
    | dropQueued => trivial
  have hhold := says_of_run closed_barFree hspeaks hspoken hrun
  exact fun d hd => fields_of_arrives closed_barFree hhold hd

/-- The Query-BF of the origin is not longer than the buffer, so it arrives as it was sent. -/
theorem nothing_misread_pull : ∃ s,
    Machine.run (step peerWiring) (init (peerConfig (ascii "a"))) (pull.take 4) = some s ∧
      ∃ d ∈ s.flight, d.sent.type = .queryBloom ∧
        UdpTransport.arrives d.payload = some d.sent := by
  have hflight : (Machine.run (step peerWiring) (init (peerConfig (ascii "a"))) (pull.take 4)).map
      (fun s => s.flight.map fun d => (decide (d.payload.length ≤ 2047), d.sent.type)) =
        some [(true, .queryBloom)] := by decide +kernel
  obtain ⟨s, hrun, hvalues⟩ := Option.map_eq_some_iff.mp hflight
  obtain ⟨d, hd, hfacts⟩ := List.map_eq_singleton_iff.mp hvalues
  obtain ⟨hlength, htype⟩ := Prod.mk.inj hfacts
  have hmem : d ∈ s.flight := by simp [hd]
  have hmisread := nothing_misread peerWiring (peerConfig (ascii "a"))
    (fun p => by cases p <;> decide) (pull.take 4)
    (fun node env key hmem => by
      obtain ⟨rfl, -, rfl⟩ : node = .origin ∧ env = { wall_ms := 1000 } ∧ key = ascii "k" := by
        simpa [pull] using hmem
      decide) s hrun d hmem
  exact ⟨s, hrun, d, hmem, htype, hmisread.1 (of_decide_eq_true hlength)⟩

/-! ## Short words -/

/-- Words without a bar, of limited length: node ids, keys and values. -/
def shortWords (ids keys values : ℕ) : Vocabulary where
  node_id w := bar ∉ w ∧ w.length ≤ ids
  request_id w := bar ∉ w ∧ w.length ≤ ids + 42
  key w := bar ∉ w ∧ w.length ≤ keys
  value w := bar ∉ w ∧ w.length ≤ values
  clock millis := millis.natAbs ≤ 2 ^ 63

/-- A request id has two numbers and two hyphens after the node id. -/
theorem closed_shortWords (ids keys values : ℕ) : (shortWords ids keys values).Closed where
  bar_node_id _ h := h.1
  bar_request_id _ h := h.1
  bar_key _ h := h.1
  bar_value _ h := h.1
  key_prefix _ _ h hfront :=
    ⟨fun hmem => h.1 (hfront.subset hmem), hfront.length_le.trans h.2⟩
  value_prefix _ _ h hfront :=
    ⟨fun hmem => h.1 (hfront.subset hmem), hfront.length_le.trans h.2⟩
  made node_id millis counter h hclock := by
    refine ⟨closed_barFree.made node_id millis counter h.1 trivial, ?_⟩
    have hdash : (ascii "-").length = 1 := by decide
    have hmillis : (intToString millis).length ≤ 19 + 1 :=
      length_intToString_le_of_lt (by decide) (lt_of_le_of_lt hclock (by decide))
    have hcounter : (natToString counter.toNat).length ≤ 20 :=
      length_natToString_le_of_lt (by decide) (lt_trans counter.toNat_lt (by decide))
    have hid : node_id.length ≤ ids := h.2
    simp only [List.length_append, hdash]
    omega

/-- A request or a `DATA` of short words fits the receive buffer. -/
theorem fits_of_spoken {ids keys values : ℕ} (hshort : 2 * ids + keys + values + 62 ≤ 2047)
    {msg : Message} (hspoke : (shortWords ids keys values).Says msg)
    (htype : msg.type = .request ∨ msg.type = .data) : UdpTransport.Fits msg := by
  refine ⟨hspoke.delimiterFree (closed_shortWords ids keys values), Or.inl ?_⟩
  -- A request has no value.
  have hwords : (messageTypeLabel msg.type).length ≤ 4 ∧ msg.request_id.length ≤ ids + 42 ∧
      msg.origin.length ≤ ids ∧ msg.key.length ≤ keys ∧ msg.value.length ≤ values := by
    rcases htype with htype | htype
    · obtain ⟨⟨-, hid⟩, ⟨-, horigin⟩, ⟨-, hkey⟩, hvalue⟩ := hspoke.of_request htype
      rw [htype, hvalue]
      exact ⟨by decide, hid, horigin, hkey, Nat.zero_le _⟩
    · obtain ⟨⟨-, hid⟩, ⟨-, horigin⟩, ⟨-, hkey⟩, -, hvalue⟩ := hspoke.of_data htype
      rw [htype]
      exact ⟨by decide, hid, horigin, hkey, hvalue⟩
  have httl : (intToString msg.ttl.toInt).length ≤ 10 + 1 := by
    refine length_intToString_le_of_lt (by decide) ?_
    have hlow := msg.ttl.le_toInt
    have hhigh := msg.ttl.toInt_lt
    omega
  rw [UdpTransport.length_toWire]
  unfold UdpTransport.bufferSize
  omega

/-- The peers use short words. -/
theorem speaks_peerConfig (p : Peer) :
    (shortWords 6 1 1).Speaks (peerConfig (ascii "a") p) := by
  refine ⟨?_, ?_, ?_⟩ <;> simp only [shortWords] <;> cases p <;> decide

/-- So does the pull. -/
theorem spoken_pull : ∀ a ∈ pull, Spoken (shortWords 6 1 1) (peerConfig (ascii "a")) a := by
  simp [pull, Spoken, shortWords, peerConfig]

end NetworkState

end Netos
