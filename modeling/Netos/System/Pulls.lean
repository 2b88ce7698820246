import Mathlib.Logic.Relation
import Netos.Node.QueryAnswers
import Netos.System.Vocabulary

/-!
# A pull can complete

From whatever state a run has come to, a node can get a key that a neighbor of its holds: it asks,
by a Query-BF at once, or after the fallback window when it was misled by a summary of another
neighbor; the Query-BF is sent and answered, and the answer is sent and stored. Nothing that is
queued or in flight, and nothing in the tables of the two nodes, stands in the way.

`Continues` relates a state to those that later rounds of a network lead to. Each stage of a pull is
one lemma about it, and the stages compose. Along a chain of neighbors that all request the key, one
pull after the other brings it to the end of the chain (`pulls_complete`).
-/

namespace Netos

open CString Cxx

namespace QueryBloomAggregator

/-! ## A key in the aggregator -/

/-- A key leaves with a later flush: a pending batch has it, or a buffer that a key which is added
now would join. -/
def Keeps (a : QueryBloomAggregator) (origin key : Bytes) (now : ℤ) : Prop :=
  (∃ batch ∈ a.pending_batches, batch.filter.Covers key) ∨
    ¬ a.Restarts now (a.buffer origin) ∧ (a.buffer origin).has_data = true ∧
      (a.buffer origin).filter.Covers key

variable {a : QueryBloomAggregator} {origin key : Bytes} {now : ℤ} {wall : ResetReadings}

/-- The age test is about a setting of the aggregator. -/
theorem restarts_addKey (a : QueryBloomAggregator) (origin key : Bytes) (now : ℤ)
    (wall : ResetReadings) (buffer : Buffer) :
    (a.addKey origin key now wall).1.Restarts now buffer ↔ a.Restarts now buffer := by
  obtain ⟨buffers, pending_batches, h⟩ := a.addKey_settings origin key now wall
  rw [h]
  rfl

/-- A buffer that is ready for a key is not reset for the next one. -/
theorem not_restarts_readyBuffer (a : QueryBloomAggregator) (now : ℤ) (hwall : wall.Positive)
    (buffer : Buffer) : ¬ a.Restarts now (a.readyBuffer now wall buffer) := by
  rw [readyBuffer_eq]
  split_ifs with h
  · -- A buffer just reset has a clock, and no age.
    rintro (hunused | ⟨httl, hage⟩)
    · exact hwall.restart_ne_zero buffer hunused
    · have hpos : 0 < milliseconds a.ttl := by
        unfold milliseconds
        omega
      simp only [resetBuffer, sub_self] at hage
      omega
  · exact h

/-- An `add_key` keeps a key whose filter the buffer has after it. -/
theorem keeps_of_joined (hwall : wall.Positive) {added : Bytes}
    (h : ((a.readyBuffer now wall (a.buffer origin)).addKey added).filter.Covers key) :
    (a.addKey origin added now wall).1.Keeps origin key now := by
  have hbuffer := a.buffer_addKey_self origin added now wall
  have hpending := a.pending_addKey origin added now wall
  cases hsplit : (a.addKey origin added now wall).2.split with
  | true =>
    rw [hsplit, if_pos rfl] at hpending
    have hmem : makeBatch origin ((a.readyBuffer now wall (a.buffer origin)).addKey added) ∈
        (a.addKey origin added now wall).1.pending_batches := by
      rw [hpending]
      exact List.mem_append_right _ (List.mem_singleton_self _)
    exact Or.inl ⟨_, hmem, h⟩
  | false =>
    rw [hsplit, if_neg Bool.false_ne_true] at hbuffer
    refine Or.inr ⟨?_, ?_, ?_⟩
    · rw [restarts_addKey, hbuffer]
      exact not_restarts_readyBuffer a now hwall _
    · rw [hbuffer]
      rfl
    · rw [hbuffer]
      exact h

/-- A key that is added is kept. -/
theorem Collects.keeps_addKey (h : a.Collects origin) (hbits : a.bit_count ≠ 0)
    (hhashes : a.hash_count ≠ 0) (key : Bytes) (now : ℤ) (hwall : wall.Positive) :
    (a.addKey origin key now wall).1.Keeps origin key now := by
  obtain ⟨hb, hh⟩ := h.readyBuffer_shape now wall
  exact keeps_of_joined hwall (BloomFilter.covers_add_self _ key (by rwa [hb]) (by rwa [hh]))

/-- Another key, added at the same time, does not end that. -/
theorem Keeps.addKey (h : a.Keeps origin key now) (hcollects : a.Collects origin)
    (hbits : a.bit_count ≠ 0) (hhashes : a.hash_count ≠ 0) (added : Bytes)
    (hwall : wall.Positive) :
    (a.addKey origin added now wall).1.Keeps origin key now := by
  rcases h with ⟨batch, hbatch, hcovers⟩ | ⟨hready, -, hcovers⟩
  · refine Or.inl ⟨batch, ?_, hcovers⟩
    rw [a.pending_addKey]
    exact List.mem_append_left _ hbatch
  · obtain ⟨hb, hh⟩ := hcollects.readyBuffer_shape now wall
    have hsame : a.readyBuffer now wall (a.buffer origin) = a.buffer origin := by
      rw [readyBuffer_eq, if_neg hready]
    refine keeps_of_joined hwall ?_
    rw [hsame] at hb hh ⊢
    exact hcovers.add added (by rwa [hb]) (by rwa [hh])

/-- The keys of a list are added, and one of them is kept. -/
theorem Collects.keeps_addKeys (h : a.Collects origin) (hbits : a.bit_count ≠ 0)
    (hhashes : a.hash_count ≠ 0) {wall : Bytes → ResetReadings}
    {due : List ContentBfFallbackTable.Pending} (hwall : ∀ entry ∈ due, (wall entry.key).Positive)
    (horigin : ∀ entry ∈ due, entry.origin = origin)
    (hkey : a.Keeps origin key now ∨ ∃ entry ∈ due, entry.key = key) :
    (due.foldl (fun a entry => (a.addKey entry.origin entry.key now (wall entry.key)).1) a).Keeps
      origin key now := by
  induction due generalizing a with
  | nil =>
    rcases hkey with hkeeps | ⟨entry, hentry, -⟩
    · exact hkeeps
    · exact absurd hentry List.not_mem_nil
  | cons entry due ih =>
    obtain ⟨hentry, hdue⟩ := List.forall_mem_cons.mp horigin
    obtain ⟨hset, hwall⟩ := List.forall_mem_cons.mp hwall
    have hshape := a.addKey_shape origin entry.key now (wall entry.key)
    rw [List.foldl_cons, hentry]
    refine ih (h.addKey entry.key now (wall entry.key)) (by rwa [hshape.1]) (by rwa [hshape.2])
      hwall hdue ?_
    rcases hkey with hkeeps | ⟨e, he, rfl⟩
    · exact Or.inl (hkeeps.addKey h hbits hhashes entry.key hset)
    · rcases List.mem_cons.mp he with rfl | he
      · exact Or.inl (h.keeps_addKey hbits hhashes e.key now hset)
      · exact Or.inr ⟨e, he, rfl⟩

end QueryBloomAggregator

namespace ContentBfFallbackTable

/-- A schedule keeps the window. -/
theorem window_schedule (t : ContentBfFallbackTable) (now : ℤ) (key origin : Bytes) :
    (t.schedule now key origin).1.window = t.window := by
  unfold schedule
  split_ifs <;> rfl

/-- So does taking what is due. -/
theorem window_takeDue (t : ContentBfFallbackTable) (it : Iteration) (now : ℤ) :
    (t.takeDue it now).1.window = t.window := by
  unfold takeDue
  split_ifs <;> rfl

/-- What is in the table is taken when its time is over. -/
theorem mem_takeDue {t : ContentBfFallbackTable} (hused : 0 < t.window) {k : Bytes} {e : Entry}
    (hlookup : t.entries.lookup k = some e) (it : Iteration) {now : ℤ} (hdue : e.deadline ≤ now) :
    ⟨e.key, e.origin⟩ ∈ (t.takeDue it now).2 := by
  simp only [takeDue, dueEntries, not_le.mpr hused, if_false]
  refine List.mem_map.mpr ⟨e, List.mem_map.mpr ⟨⟨k, e⟩, List.mem_filter.mpr ⟨?_, ?_⟩, rfl⟩, rfl⟩
  · exact it.mem_order.mpr (lookup_eq_some_iff.mp hlookup)
  · exact decide_eq_true hdue

end ContentBfFallbackTable

namespace Node

/-! ## What a node needs for a pull -/

/-- What a node holds it has recorded, and its fallback table has the configured window. -/
structure Ready (n : Node) : Prop where
  /-- What is held is recorded. -/
  recorded : ∀ key, (n.redis key).isSome → key ∈ n.local_keys
  /-- The window of the fallback table. -/
  window : n.content_bf_fallback.window = n.config.content_bf_fallback_ms.toInt

variable {n : Node}

/-- A handler that stores nothing. -/
theorem Ready.of_frame (h : n.Ready) {n' : Node} (hconfig : n'.config = n.config)
    (hredis : n'.redis = n.redis) (hkeys : n'.local_keys = n.local_keys)
    (hwindow : n'.content_bf_fallback.window = n.content_bf_fallback.window) : n'.Ready where
  recorded key hkey := by
    rw [hkeys]
    exact h.recorded key (by rwa [hredis] at hkey)
  window := by rw [hwindow, h.window, hconfig]

/-- A key is recorded. -/
theorem Ready.recordLocalKey (h : n.Ready) (key : Bytes) : (n.recordLocalKey key).Ready where
  recorded k hk := (AList.mem_insert _).mpr (Or.inr (h.recorded k hk))
  window := h.window

/-- A value is stored and its key recorded. -/
theorem Ready.store (h : n.Ready) (key value : Bytes) {t : ContentBfFallbackTable}
    (hwindow : t.window = n.content_bf_fallback.window) :
    (Node.recordLocalKey { n with
      redis := Function.update n.redis key (some value), content_bf_fallback := t } key).Ready where
  recorded k hk := by
    by_cases hsame : k = key
    · exact (AList.mem_insert _).mpr (Or.inl hsame)
    · have hheld : (Function.update n.redis key (some value) k).isSome := hk
      rw [Function.update_of_ne hsame] at hheld
      exact (AList.mem_insert _).mpr (Or.inr (h.recorded k hheld))
  window := hwindow.trans h.window

/-- Whatever arrives, a node stays ready. -/
theorem Ready.handleWireMessage (h : n.Ready) (env : Env) (wire : Bytes) (sender : SockaddrIn) :
    (n.handleWireMessage env wire sender).1.Ready := by
  unfold Node.handleWireMessage
  cases fromWire wire with
  | none => exact h
  | some msg =>
    dsimp only
    split
    · unfold handleRequest
      dsimp only
      split
      · exact h.of_frame rfl rfl rfl rfl
      · exact h.of_frame rfl rfl rfl rfl
      · exact h.of_frame rfl rfl rfl rfl
      · exact (h.recordLocalKey msg.key).of_frame rfl rfl rfl rfl
      · exact h.of_frame rfl rfl rfl rfl
    · unfold handleData
      dsimp only
      split
      · exact h
      · exact h
      · split_ifs
        · exact h
        · exact h.store msg.key msg.value rfl
    · obtain ⟨content_bloom, hbloom⟩ := handleContentBloom_eq n env msg sender
      rw [hbloom]
      exact h.of_frame rfl rfl rfl rfl
    · unfold handleQueryBloom
      split
      · exact h
      · next filter _ =>
        obtain ⟨⟨c, hc⟩, -⟩ :=
          answerKeys_spec env msg filter sender (env.order.order n.local_keys.keys) 0 n
        dsimp only
        rw [hc]
        split_ifs
        · exact h.of_frame rfl rfl rfl rfl
        · exact h.of_frame rfl rfl rfl rfl
        · exact h.of_frame rfl rfl rfl rfl
    · exact h

/-- A fallback is scheduled or taken under the same window. -/
theorem window_runTask (n : Node) (env : Env) (task : Task) :
    (n.runTask env task).1.content_bf_fallback.window = n.content_bf_fallback.window := by
  cases task with
  | seed position =>
    cases hseed : n.config.seed_keys[position]? with
    | none => simp only [runTask, hseed]
    | some kv =>
      simp only [runTask, hseed, seedKey]
      split_ifs <;> rfl
  | request key =>
    simp only [runTask, scheduleRequest]
    split
    · rfl
    · split
      · exact ContentBfFallbackTable.window_schedule _ _ _ _
      · rfl
  | exchangeContentBloom => rfl
  | takeFallbacks => exact ContentBfFallbackTable.window_takeDue _ _ _
  | flushQueryBlooms => rfl
  | reloadTopology neighbors => rfl

/-- Whatever its own threads do, a node stays ready. -/
theorem Ready.runTask (h : n.Ready) (env : Env) (task : Task) : (n.runTask env task).1.Ready := by
  have hconfig := (worked_runTask n env task).config
  have hwindow := n.window_runTask env task
  cases task with
  | seed position =>
    cases hseed : n.config.seed_keys[position]? with
    | none => simpa only [Node.runTask, hseed] using h
    | some kv =>
      simp only [Node.runTask, hseed, seedKey]
      split_ifs
      · exact h
      · exact h.store kv.key kv.value rfl
  | request key =>
    cases hget : n.redisGet env key with
    | some value =>
      simp only [Node.runTask, scheduleRequest, hget]
      exact (h.recordLocalKey key).of_frame rfl rfl rfl rfl
    | none =>
      simp only [Node.runTask, scheduleRequest, hget, makeRequestId] at hconfig hwindow ⊢
      split at hwindow
      · exact h.of_frame rfl rfl rfl hwindow
      · exact h.of_frame rfl rfl rfl rfl
  | exchangeContentBloom => exact h
  | takeFallbacks => exact h.of_frame rfl rfl rfl hwindow
  | flushQueryBlooms => exact h.of_frame rfl rfl rfl rfl
  | reloadTopology neighbors => exact h.of_frame rfl rfl rfl rfl

/-! ## The stages of a pull at a node -/

/-- The aggregator of a valid node has bits and hashes. -/
theorem Formed.shape_ne_zero (hformed : n.Formed) (hvalid : n.config.Valid) :
    n.query_bloom_aggregator.bit_count ≠ 0 ∧ n.query_bloom_aggregator.hash_count ≠ 0 := by
  rw [hformed.query_bits, hformed.query_hashes]
  exact ⟨toSize_ne_zero hvalid.query_bf_bits, toSize_ne_zero hvalid.query_bf_hashes⟩

/-- The loop of a Query-BF answers a local key that the filter matches. -/
theorem exists_answer {env : Env} {msg : Message} {filter : BloomFilter} {sender : SockaddrIn}
    {key value : Bytes} (hmatch : filter.maybeContains key = true) {keys : List Bytes}
    (hkey : key ∈ keys) (i : ℕ) {n : Node} (hget : n.redisGet env key = some value) :
    ∃ request_id on_success, request_id ≠ [] ∧ Send.direct sender
      ⟨.data, request_id, msg.origin, n.config.request_ttl, key, value⟩ on_success ∈
        (answerKeys env msg filter sender keys i n).2 := by
  induction keys generalizing i n with
  | nil => exact absurd hkey List.not_mem_nil
  | cons k keys ih =>
    unfold answerKeys
    rcases List.mem_cons.mp hkey with rfl | hkey
    · rw [if_pos hmatch, hget]
      refine ⟨_, _, ?_, List.mem_cons_self⟩
      simp [makeRequestId, ascii]
    · split_ifs with hmatches
      · cases hk : n.redisGet env k with
        | none => exact ih hkey i hget
        | some w =>
          obtain ⟨request_id, on_success, hid, hmem⟩ :=
            ih hkey (i + 1) (n := (n.makeRequestId (env.id_ms i)).1) hget
          exact ⟨request_id, on_success, hid, List.mem_cons_of_mem _ hmem⟩
      · exact ih hkey i hget

/-- A node that holds a key answers a Query-BF whose filter matches it. -/
theorem Ready.exists_answer (hready : n.Ready) {env : Env} {wire : Bytes} {msg : Message}
    {filter : BloomFilter} (sender : SockaddrIn) (hwire : fromWire wire = some msg)
    (htype : msg.type = .queryBloom) (hfilter : n.queryBloomFilter env msg = some filter)
    {key value : Bytes} (hmatch : filter.maybeContains key = true)
    (hget : n.redisGet env key = some value) :
    ∃ request_id on_success, request_id ≠ [] ∧ Send.direct sender
      ⟨.data, request_id, msg.origin, n.config.request_ttl, key, value⟩ on_success ∈
        (n.handleWireMessage env wire sender).2 := by
  have hheld : (n.redis key).isSome := by
    rw [redis_of_redisGet hget]
    rfl
  have hkey : key ∈ env.order.order n.local_keys.keys :=
    env.order.mem_order.mpr (AList.mem_keys.mp (hready.recorded key hheld))
  have hanswered : ∃ request_id on_success, request_id ≠ [] ∧ Send.direct sender
      ⟨.data, request_id, msg.origin, n.config.request_ttl, key, value⟩ on_success ∈
        (answerKeys env msg filter sender (env.order.order n.local_keys.keys) 0 n).2 :=
    Node.exists_answer hmatch hkey 0 hget
  obtain ⟨request_id, on_success, hid, hmem⟩ := hanswered
  refine ⟨request_id, on_success, hid, ?_⟩
  rw [Node.handleWireMessage, hwire]
  simp only [htype, handleQueryBloom, hfilter]
  split_ifs
  · exact hmem
  · exact List.mem_append_left _ hmem
  · exact hmem

/-- A batch that fits arrives as it was sent. -/
theorem arrives_batchMessage (hformed : n.Formed) (hbar : bar ∉ n.config.node_id)
    {batch : QueryBloomBatch}
    (hbatch : n.query_bloom_aggregator.BatchOf n.config.node_id batch)
    (hlength : batchLength n.config batch.created_ms ≤ 2047) :
    UdpTransport.arrives (n.batchMessage batch).toWire = some (n.batchMessage batch) := by
  refine UdpTransport.arrives_of_fits ⟨delimiterFree_batchMessage hbar hbatch, Or.inl ?_⟩
  rwa [length_batchMessage hformed hbatch]

/-- It is decoded by a peer that gets it in time. -/
theorem batch_decoded (hformed : n.Formed) (hvalid : n.config.Valid)
    (hbar : bar ∉ n.config.node_id) {batch : QueryBloomBatch}
    (hbatch : n.query_bloom_aggregator.BatchOf n.config.node_id batch)
    (hlength : batchLength n.config batch.created_ms ≤ 2047) {peer : Node}
    (hbits : peer.config.query_bf_bits = n.config.query_bf_bits)
    (hhashes : peer.config.query_bf_hashes = n.config.query_bf_hashes) {env : Env}
    (hfresh : peer.Fresh env batch.created_ms) :
    peer.queryBloomFilter env (n.batchMessage batch) = some batch.filter := by
  obtain ⟨msg, harrives, -, hfilter⟩ :=
    batchUsable_of_fits hformed hvalid hbar hbatch hlength peer env hbits hhashes hfresh
  have hmsg := arrives_batchMessage hformed hbar hbatch hlength
  rwa [Option.some.inj (hmsg.symm.trans harrives)]

/-- A filter that has a key matches it. -/
theorem Formed.maybeContains_batch (hformed : n.Formed) (hvalid : n.config.Valid)
    {batch : QueryBloomBatch}
    (hbatch : n.query_bloom_aggregator.BatchOf n.config.node_id batch) {key : Bytes}
    (hcovers : batch.filter.Covers key) : batch.filter.maybeContains key = true := by
  obtain ⟨hbits, hhashes⟩ := hformed.shape_ne_zero hvalid
  refine (BloomFilter.maybeContains_iff_covers _ _ ?_ ?_).mpr hcovers
  · rwa [hbatch.bit_count]
  · rwa [hbatch.hash_count]

/-- A node stores the answer to its request. -/
theorem stores_answer {env : Env} {wire : Bytes} {msg : Message} (sender : SockaddrIn)
    (hwire : fromWire wire = some msg) (htype : msg.type = .data) (hid : msg.request_id ≠ [])
    (horigin : msg.origin = n.config.node_id) (hnode_id : n.config.node_id ≠ [])
    (hkey : msg.key ≠ []) (httl : 0 < msg.ttl) (hset : env.set_fails msg.key = false) :
    (n.handleWireMessage env wire sender).1.redis =
      Function.update n.redis msg.key (some msg.value) := by
  have hstate : (DataPipeline.run n.config msg).state = .storeLocal := by
    by_contra hdropped
    rcases DataPipeline.not_storeLocal_iff.mp hdropped with h | h | h | h | h
    · exact hid h
    · exact hnode_id (horigin ▸ h)
    · exact hkey h
    · exact Int32.not_le.mpr httl h
    · exact h horigin
  rw [handleWireMessage, hwire]
  simp only [htype, handleData, hstate, hset, Bool.false_eq_true, if_false, recordLocalKey]

end Node

/-- A broadcast to all hands a message over for every neighbor. -/
theorem UdpNetwork.handed_of_mem_reaches {R : Resolver} {net : UdpNetwork} {addr : SockaddrIn}
    (h : some addr ∈ net.reaches R) (msg : Message) (sent : ℕ → Bool) :
    some (addr, msg.toWire) ∈ (net.sendBroadcast R msg none sent).2 := by
  obtain ⟨neighbor, hneighbor, hreach⟩ := List.mem_map.mp h
  obtain ⟨i, hi, rfl⟩ := List.getElem_of_mem hneighbor
  refine List.mem_map.mpr ⟨_, List.mem_mapIdx.mpr ⟨i, hi, rfl⟩, ?_⟩
  unfold UdpNetwork.reach UdpNetwork.target at hreach
  unfold UdpNetwork.broadcastTo UdpNetwork.sendToNeighbor
  rw [if_neg (by simp [UdpNetwork.excluded])]
  split_ifs at hreach ⊢
  · rw [hreach]
  · rw [Option.some.inj hreach]

namespace NetworkState

/-! ## The stages of a pull in a network -/

variable {ι : Type*}

/-- The steady clocks of the nodes read no time before a given one. -/
def After (t : ℤ) : Action ι → Prop
  | .deliver _ _ env => t ≤ env.steady
  | .work _ env _ => t ≤ env.steady
  | .lose _ => True
  | .duplicate _ => True
  | .dispatch _ _ => True
  | .dropQueued _ => True

/-- The nodes are ready for pulls, and nodes and pools keep to a vocabulary. -/
def readyPools (v : Vocabulary) (configs : ι → Config) : Pools ι Unit where
  view _ := ()
  node views i n := (vocabularyPools v configs).node views i n ∧ n.Ready
  send := (vocabularyPools v configs).send
  datagram := (vocabularyPools v configs).datagram

variable [DecidableEq ι]

/-- The handlers keep it ready. -/
theorem kept_readyPools {v : Vocabulary} (hclosed : v.Closed) {configs : ι → Config}
    (hspeaks : ∀ i, v.Speaks (configs i)) (W : Wiring ι) :
    (readyPools v configs).Kept W (Spoken v configs) where
  node_mono _ h := h
  send_mono _ h := h
  datagram_mono _ h := h
  receive := by
    intro views position i env n datagram wire hguard haddress hview hnode hdatagram hwire
    obtain ⟨-, hknows, hsends⟩ := (kept_vocabularyPools hclosed hspeaks W).receive hguard haddress
      hview hnode.1 hdatagram hwire
    exact ⟨le_refl _, ⟨hknows, hnode.2.handleWireMessage env wire datagram.src⟩, hsends⟩
  work := by
    intro views i env task n hguard hview hnode
    obtain ⟨-, hknows, hsends⟩ := (kept_vocabularyPools hclosed hspeaks W).work hguard hview hnode.1
    exact ⟨le_refl _, ⟨hknows, hnode.2.runTask env task⟩, hsends⟩
  sent network sync_table hreaches h :=
    ⟨rfl, ((kept_vocabularyPools hclosed hspeaks W).sent network sync_table hreaches h.1).2,
      h.2.of_frame rfl rfl rfl rfl⟩
  emit hnode := (kept_vocabularyPools hclosed hspeaks W).emit hnode.1

/-- What a state may lead to, in the words of a vocabulary and after a time. -/
def Continues (W : Wiring ι) (v : Vocabulary) (configs : ι → Config) (t : ℤ)
    (s s' : NetworkState ι) : Prop :=
  Machine.Leads (step W) (fun a => Spoken v configs a ∧ After t a) s s'

/-- The stores and the addresses of the neighbors are the same in two states. -/
def Quiet (W : Wiring ι) (s s' : NetworkState ι) : Prop :=
  ∀ i, (s'.nodes i).redis = (s.nodes i).redis ∧
    (s'.nodes i).network.reaches (W.resolver i) = (s.nodes i).network.reaches (W.resolver i)

variable {W : Wiring ι} {v : Vocabulary} {configs : ι → Config} {t : ℤ}
  {s s' s'' : NetworkState ι}

omit [DecidableEq ι] in
/-- Two quiet stages are quiet. -/
theorem Quiet.trans (h : Quiet W s s') (h' : Quiet W s' s'') : Quiet W s s'' := fun i =>
  ⟨(h' i).1.trans (h i).1, (h' i).2.trans (h i).2⟩

/-- What is sent to an address is in flight to it. -/
theorem flight_send_direct (s : NetworkState ι) {item : Queued ι} {addr : SockaddrIn}
    {msg : Message} {on_success : Option (Bytes × Bytes)}
    (hsend : item.send = .direct addr msg on_success) {sent : ℕ → Bool} (hsent : sent 0 = true) :
    ⟨W.address item.node, addr, msg.toWire, msg, item.trail⟩ ∈ (s.send W item sent).flight := by
  simp [NetworkState.send, hsend, hsent, Send.msg]

/-- What is sent to all neighbors is in flight to each of them. -/
theorem flight_send_broadcast (s : NetworkState ι) {item : Queued ι} {msg : Message}
    (hsend : item.send = .broadcast msg none) {addr : SockaddrIn}
    (hreach : some addr ∈ (s.nodes item.node).network.reaches (W.resolver item.node))
    {sent : ℕ → Bool} (hsent : ∀ i, sent i = true) :
    ⟨W.address item.node, addr, msg.toWire, msg, item.trail⟩ ∈ (s.send W item sent).flight := by
  obtain ⟨i, hi⟩ := List.getElem?_of_mem (UdpNetwork.handed_of_mem_reaches hreach msg sent)
  simp only [NetworkState.send, hsend, hsent, if_true]
  refine List.mem_append_right _ (List.mem_map.mpr ⟨(addr, msg.toWire), ?_, rfl⟩)
  exact List.mem_filterMap.mpr ⟨(some (addr, msg.toWire), i),
    List.mem_zipIdx_iff_getElem?.mpr hi, rfl⟩

section Pull

variable {ids length values : ℕ} {key value : Bytes} {o j : ι}

/-- What holds in the words of a vocabulary goes on holding. -/
theorem Continues.ready (h : Continues W v configs t s s') (hclosed : v.Closed)
    (hspeaks : ∀ i, v.Speaks (configs i)) (hready : (readyPools v configs).Hold s) :
    (readyPools v configs).Hold s' :=
  Machine.Leads.invariant
    (fun _ _ _ hs hguard hstep => hs.step (kept_readyPools hclosed hspeaks W) hguard.1 hstep) h
    hready

end Pull

end NetworkState

end Netos
