import Netos.Node.BloomDatagrams
import Netos.Node.RejectedInput
import Netos.System.Pools
import Netos.System.Summaries

/-!
# A request acts once at every node

Requests are flooded, so a node may be sent the same one by all of its neighbors, and the network
may duplicate them and bring them back to the node that made them. A node remembers the id of every
request that it acted on or made, and forgets none of them before the ttl of the query table is
over. Within that time every node serves or relays a request at most once, and the node that made it
never does.

Whether a request is a node's own is decided by its id alone, so it matters that the id and the
origin of a request arrive together. `Traced` says of a message that an origin which is the id of a
node comes with a request id that this node remembers.
-/

namespace Netos

open CString Cxx

namespace Node

/-- The request ids that a node remembers. -/
def remembered (n : Node) : Set Bytes := {id | id ∈ n.query_table.table}

/-! ## What a handler does to the query table -/

/-- What a handler does to the query table with a request: a valid one is recorded, and answered or
relayed only when it is new. -/
def Recorded (n : Node) (env : Env) (msg : Message) (r : Node × List Send) : Prop :=
  (r.1.query_table = n.query_table ∧ r.2 = []) ∨
    (r.1.query_table = (n.query_table.recordIfNew msg.request_id env.prune_now env.record_now).1 ∧
      (r.2 ≠ [] →
        (n.query_table.recordIfNew msg.request_id env.prune_now env.record_now).2 = true))

/-- `handle_request` records a valid request. -/
theorem recorded_handleRequest (n : Node) (env : Env) (msg : Message) (sender : SockaddrIn) :
    Recorded n env msg (n.handleRequest env msg sender) := by
  by_cases hvalid : RequestPipeline.Valid msg
  · refine Or.inr ?_
    simp only [handleRequest, RequestPipeline.run_of_valid _ _ _ _ hvalid]
    cases hnew : (n.query_table.recordIfNew msg.request_id env.prune_now env.record_now).2 with
    | false => exact ⟨rfl, fun h => absurd rfl h⟩
    | true => cases n.redisGet env msg.key <;> exact ⟨rfl, fun _ => rfl⟩
  · refine Or.inl ?_
    rw [handleRequest_of_not_valid n env sender hvalid]
    exact ⟨rfl, rfl⟩

/-- `handle_data` leaves the query table alone. -/
theorem query_table_handleData (n : Node) (env : Env) (msg : Message) :
    (n.handleData env msg).query_table = n.query_table := by
  unfold handleData
  split
  · rfl
  · rfl
  · split_ifs <;> rfl

/-- `handle_query_bloom` leaves the query table alone. -/
theorem query_table_handleQueryBloom (n : Node) (env : Env) (msg : Message)
    (sender : SockaddrIn) :
    (n.handleQueryBloom env msg sender).1.query_table = n.query_table := by
  unfold handleQueryBloom
  cases n.queryBloomFilter env msg with
  | none => rfl
  | some filter =>
    obtain ⟨⟨request_counter, hcounter⟩, -⟩ :=
      answerKeys_spec env msg filter sender (env.order.order n.local_keys.keys) 0 n
    dsimp only
    rw [hcounter]
    split_ifs <;> rfl

/-- A datagram other than a request leaves the query table alone. -/
theorem query_table_handleWireMessage (n : Node) (env : Env) {wire : Bytes} {msg : Message}
    (sender : SockaddrIn) (hmsg : fromWire wire = some msg) :
    (msg.type = .request ∧ Recorded n env msg (n.handleWireMessage env wire sender)) ∨
      (msg.type ≠ .request ∧
        (n.handleWireMessage env wire sender).1.query_table = n.query_table) := by
  rw [handleWireMessage, hmsg]
  cases htype : msg.type with
  | request =>
    refine Or.inl ⟨rfl, ?_⟩
    simpa only [htype] using recorded_handleRequest n env msg sender
  | data =>
    refine Or.inr ⟨by simp, ?_⟩
    simpa only [htype] using query_table_handleData n env msg
  | contentBloom =>
    obtain ⟨content_bloom, hbloom⟩ := handleContentBloom_eq n env msg sender
    exact Or.inr ⟨by simp, by simp only [htype, hbloom]⟩
  | queryBloom =>
    refine Or.inr ⟨by simp, ?_⟩
    simpa only [htype] using query_table_handleQueryBloom n env msg sender
  | unknown => exact Or.inr ⟨by simp, by simp only [htype]⟩

/-- The request that a node makes for a key. -/
def ownRequest (n : Node) (env : Env) (key : Bytes) : Message :=
  ⟨.request, (n.makeRequestId (env.id_ms 0)).2, n.config.node_id, n.config.request_ttl, key, []⟩

/-- A node's own threads record the ids of its requests, and send no others. -/
theorem query_table_runTask (n : Node) (env : Env) (task : Task) :
    ((n.runTask env task).1.query_table = n.query_table ∧
        ∀ send ∈ (n.runTask env task).2, send.msg.type ≠ .request) ∨
      ∃ key, task = .request key ∧
        (n.runTask env task).1.query_table = (n.query_table.recordIfNew
          (n.ownRequest env key).request_id env.prune_now env.record_now).1 ∧
        ∀ send ∈ (n.runTask env task).2, send.msg = n.ownRequest env key := by
  cases task with
  | seed position =>
    simp only [runTask]
    cases n.config.seed_keys[position]? with
    | none => exact Or.inl ⟨rfl, by simp⟩
    | some kv =>
      simp only [seedKey]
      split_ifs <;> exact Or.inl ⟨rfl, by simp⟩
  | request key =>
    simp only [runTask, scheduleRequest]
    cases n.redisGet env key with
    | some value => exact Or.inl ⟨rfl, by simp⟩
    | none =>
      refine Or.inr ⟨key, rfl, ?_⟩
      dsimp only
      split
      · refine ⟨rfl, fun send hsend => ?_⟩
        rw [List.mem_singleton.mp hsend]
        rfl
      · exact ⟨rfl, by simp⟩
  | exchangeContentBloom => exact Or.inl ⟨rfl, by simp [runTask, exchangeContentBloom, Send.msg]⟩
  | takeFallbacks => exact Or.inl ⟨rfl, by simp [runTask]⟩
  | flushQueryBlooms =>
    refine Or.inl ⟨rfl, fun send hsend => ?_⟩
    obtain ⟨batch, -, rfl⟩ := List.mem_map.mp hsend
    simp [Send.msg, batchMessage]
  | reloadTopology neighbors => exact Or.inl ⟨rfl, by simp [runTask]⟩

end Node

namespace NetworkState

variable {ι : Type*}

/-- A request from a node bears an id that the node remembers. -/
structure Traced (configs : ι → Config) (views : ι → Set Bytes) (msg : Message) : Prop where
  /-- No field contains the delimiter. -/
  free : msg.DelimiterFree
  /-- The id is remembered. -/
  origin : ∀ j, msg.origin = (configs j).node_id → msg.request_id ∈ views j

/-- What a node remembers is what it recorded since a time. -/
structure Remembers (config : Config) (lo : ℤ) (n : Node) : Prop where
  /-- The configuration stays. -/
  config_eq : n.config = config
  /-- So does the time to live. -/
  ttl_eq : n.query_table.ttl = config.query_ttl_ms.toInt
  /-- Nothing was recorded before. -/
  since : n.query_table.Since lo

/-- The nodes remember since given times, and every request is traced. -/
def requestPools (configs : ι → Config) (lo : ι → ℤ) : Pools ι (Set Bytes) where
  view := Node.remembered
  node _ i n := Remembers (configs i) (lo i) n
  send views _ send := send.msg.type = .request → Traced configs views send.msg
  datagram views d := d.payload = d.sent.toWire ∧
    (d.sent.type = .request → Traced configs views d.sent)

/-- The query table is used within its ttl after a time, and requests are for keys without a bar. -/
def WithinTtl (configs : ι → Config) (lo : ι → ℤ) : Action ι → Prop
  | .deliver _ node env => lo node ≤ env.record_now ∧
      env.prune_now ≤ lo node + milliseconds (configs node).query_ttl_ms.toInt
  | .work node env task => (lo node ≤ env.record_now ∧
      env.prune_now ≤ lo node + milliseconds (configs node).query_ttl_ms.toInt) ∧
        ∀ key, task = .request key → bar ∉ key
  | .lose _ => True
  | .duplicate _ => True
  | .dispatch _ _ => True
  | .dropQueued _ => True

variable {configs : ι → Config} {lo : ι → ℤ} {views views' : ι → Set Bytes} {msg : Message}

/-- More may be remembered. -/
theorem Traced.mono (h : Traced configs views msg) (hviews : views ≤ views') :
    Traced configs views' msg :=
  ⟨h.free, fun j hj => hviews j (h.origin j hj)⟩

/-- What arrives of a request is traced as well. -/
theorem Traced.of_arrives (h : Traced configs views msg) {m : Message}
    (harrives : UdpTransport.arrives msg.toWire = some m) : Traced configs views m := by
  obtain ⟨-, hid, horigin, -, -, -⟩ := UdpTransport.prefixes_of_arrives h.free harrives
  rw [UdpTransport.arrives_eq] at harrives
  refine ⟨delimiterFree_of_fromWire harrives, fun j hj => ?_⟩
  rw [hid]
  exact h.origin j (horigin ▸ hj)

/-- A node records an id. -/
theorem Remembers.record {config : Config} {n n' : Node} {lo : ℤ} (h : Remembers config lo n)
    {id : Bytes} {env : Env} (hconfig : n'.config = n.config)
    (htable : n'.query_table =
      (n.query_table.recordIfNew id env.prune_now env.record_now).1)
    (hwithin : lo ≤ env.record_now ∧
      env.prune_now ≤ lo + milliseconds config.query_ttl_ms.toInt) :
    Remembers config lo n' ∧ n.remembered ⊆ n'.remembered ∧ id ∈ n'.remembered ∧
      ((n.query_table.recordIfNew id env.prune_now env.record_now).2 = true →
        id ∉ n.remembered) := by
  have hprune : env.prune_now ≤ lo + milliseconds n.query_table.ttl := by
    rw [h.ttl_eq]
    exact hwithin.2
  obtain ⟨hnew, hmem, hsince⟩ := h.since.recordIfNew id hprune hwithin.1
  refine ⟨⟨hconfig.trans h.config_eq, ?_, by rwa [htable]⟩, fun k hk => ?_, ?_, hnew.mp⟩
  · rw [htable, QueryTable.recordIfNew_ttl, h.ttl_eq]
  · show k ∈ n'.query_table.table
    rw [htable, hmem]
    exact Or.inr hk
  · show id ∈ n'.query_table.table
    rw [htable, hmem]
    exact Or.inl rfl

/-- A handler that does not touch the query table. -/
theorem Remembers.of_frame {config : Config} {n n' : Node} {lo : ℤ} (h : Remembers config lo n)
    (hconfig : n'.config = n.config) (htable : n'.query_table = n.query_table) :
    Remembers config lo n' ∧ n.remembered ⊆ n'.remembered := by
  refine ⟨⟨hconfig.trans h.config_eq, by rw [htable, h.ttl_eq], by rw [htable]; exact h.since⟩,
    ?_⟩
  unfold Node.remembered
  rw [htable]

/-- The request that a node makes is traced, once its id is remembered. -/
theorem traced_ownRequest {n : Node} {i : ι}
    (hids : Function.Injective fun i => (configs i).node_id) (hconfig : n.config = configs i)
    (hfree : bar ∉ (configs i).node_id) {key : Bytes} (hkey : bar ∉ key) {env : Env}
    (hrecorded : (n.ownRequest env key).request_id ∈ views i) :
    Traced configs views (n.ownRequest env key) := by
  have hdash : bar ∉ ascii "-" := by decide
  rw [← hconfig] at hfree
  refine ⟨⟨?_, hfree, hkey, List.not_mem_nil⟩, fun j hj => ?_⟩
  · simp [Node.ownRequest, Node.makeRequestId, hfree, hdash, bar_not_mem_intToString,
      bar_not_mem_natToString]
  · -- No other node has this id.
    have hsame : (configs i).node_id = (configs j).node_id := by rw [← hconfig]; exact hj
    rwa [← hids hsame]

variable [DecidableEq ι]

/-- Within the ttl, the handlers keep every request traced. -/
theorem kept_requestPools (W : Wiring ι) (lo : ι → ℤ)
    (hids : Function.Injective fun i => (configs i).node_id)
    (hfree : ∀ i, bar ∉ (configs i).node_id) :
    (requestPools configs lo).Kept W (WithinTtl configs lo) where
  node_mono _ h := h
  send_mono hviews h htype := (h htype).mono hviews
  datagram_mono hviews h := ⟨h.1, fun htype => (h.2 htype).mono hviews⟩
  receive := by
    intro views position i env n datagram wire hwithin _ hview hnode hdatagram hwire
    obtain ⟨hpayload, htraced⟩ := hdatagram
    cases hmsg : fromWire wire with
    | none =>
      rw [Node.handleWireMessage_of_none n env datagram.src hmsg]
      exact ⟨le_refl _, hnode, fun send hsend => absurd hsend List.not_mem_nil⟩
    | some msg =>
      have harrives : UdpTransport.arrives datagram.sent.toWire = some msg := by
        rw [← hpayload, UdpTransport.arrives, hwire]
        exact hmsg
      have hhandled := Node.handled_wireMessage n env datagram.src hmsg
      obtain ⟨hremembers, hgrows⟩ : Remembers (configs i) (lo i)
          (n.handleWireMessage env wire datagram.src).1 ∧
          n.remembered ⊆ (n.handleWireMessage env wire datagram.src).1.remembered := by
        rcases Node.query_table_handleWireMessage n env datagram.src hmsg with
          ⟨-, ⟨htable, -⟩ | ⟨htable, -⟩⟩ | ⟨-, htable⟩
        · exact hnode.of_frame hhandled.config htable
        · have hrecorded := hnode.record hhandled.config htable hwithin
          exact ⟨hrecorded.1, hrecorded.2.1⟩
        · exact hnode.of_frame hhandled.config htable
      refine ⟨hgrows, hremembers, fun send hsend htype => ?_⟩
      -- A request that is sent is relayed.
      obtain ⟨-, -, hreply⟩ := hhandled.sends send hsend
      cases hreply with
      | answer request_id key value on_success held => exact absurd htype (by simp [Send.msg])
      | relay =>
        have hrequest : msg.type = .request := htype
        have harrived := (htraced ((UdpTransport.type_of_arrives harrives).symm.trans
          hrequest)).of_arrives harrives
        have hrelayed : Traced configs views { msg with ttl := msg.ttl - 1 } :=
          ⟨harrived.free.withTtl _, harrived.origin⟩
        exact hrelayed.mono (le_update_self_iff.mpr (hview.le.trans hgrows))
  work := by
    intro views i env task n hwithin hview hnode
    have hconfig := (Node.worked_runTask n env task).config
    rcases Node.query_table_runTask n env task with ⟨htable, hsends⟩ | ⟨key, htask, htable, hsends⟩
    · obtain ⟨hremembers, hgrows⟩ := hnode.of_frame hconfig htable
      exact ⟨hgrows, hremembers, fun send hsend htype => absurd htype (hsends send hsend)⟩
    · obtain ⟨hremembers, hgrows, hid, -⟩ := hnode.record hconfig htable hwithin.1
      refine ⟨hgrows, hremembers, fun send hsend _ => ?_⟩
      rw [hsends send hsend]
      refine traced_ownRequest hids hnode.config_eq (hfree i) (hwithin.2 key htask) ?_
      rw [Function.update_self]
      exact hid
  sent _ _ _ h := ⟨rfl, h.config_eq, h.ttl_eq, h.since⟩
  emit _ h hemitted := by
    refine ⟨by rw [hemitted.payload, hemitted.sent], fun htype => ?_⟩
    rw [hemitted.sent] at htype ⊢
    exact h htype

/-- The log of the requests that nodes served or relayed. -/
structure ActedOnce (configs : ι → Config) (s : NetworkState ι) : Prop where
  /-- The nodes remember them, and did not make them. -/
  remembered : ∀ a ∈ s.acted, a.hop.msg.type = .request →
    a.hop.msg.request_id ∈ (s.nodes a.hop.node).remembered ∧
      a.hop.msg.origin ≠ (configs a.hop.node).node_id
  /-- There are no two of one node with one id. -/
  nodup : ((s.acted.filter fun a => a.hop.msg.type = .request).map
    fun a => (a.hop.node, a.hop.msg.request_id)).Nodup

omit [DecidableEq ι] in
/-- Nothing is added to the log. -/
theorem ActedOnce.of_same {s s' : NetworkState ι} (h : ActedOnce configs s)
    (hviews : (requestPools configs lo).views s ≤ (requestPools configs lo).views s')
    (hacted : s'.acted = s.acted) : ActedOnce configs s' := by
  refine ⟨fun a ha htype => ?_, by rw [hacted]; exact h.nodup⟩
  obtain ⟨hid, horigin⟩ := h.remembered a (hacted ▸ ha) htype
  exact ⟨hviews a.hop.node hid, horigin⟩

omit [DecidableEq ι] in
/-- A datagram is added to the log: when it is a request, its id is new to the node. -/
theorem ActedOnce.concat {s s' : NetworkState ι} (h : ActedOnce configs s)
    (hviews : (requestPools configs lo).views s ≤ (requestPools configs lo).views s')
    {a : Acted ι} (hacted : s'.acted = s.acted ++ [a])
    (hnew : a.hop.msg.type = .request →
      a.hop.msg.request_id ∉ (s.nodes a.hop.node).remembered ∧
        a.hop.msg.request_id ∈ (s'.nodes a.hop.node).remembered ∧
          a.hop.msg.origin ≠ (configs a.hop.node).node_id) : ActedOnce configs s' := by
  constructor
  · intro b hb htype
    rw [hacted] at hb
    rcases List.mem_append.mp hb with hb | hb
    · obtain ⟨hid, horigin⟩ := h.remembered b hb htype
      exact ⟨hviews b.hop.node hid, horigin⟩
    · obtain rfl := List.mem_singleton.mp hb
      exact (hnew htype).2
  · rw [hacted, List.filter_append, List.map_append]
    by_cases htype : a.hop.msg.type = .request
    · rw [List.filter_singleton, decide_eq_true htype, cond_true, List.map_singleton]
      rw [← List.concat_eq_append]
      refine h.nodup.concat fun hmem => ?_
      obtain ⟨b, hb, heq⟩ := List.mem_map.mp hmem
      obtain ⟨hb, hrequest⟩ := List.mem_filter.mp hb
      obtain ⟨hnode, hid⟩ := Prod.mk.inj heq
      have hremembered := (h.remembered b hb (of_decide_eq_true hrequest)).1
      rw [hnode, hid] at hremembered
      exact (hnew htype).1 hremembered
    · rw [List.filter_singleton, decide_eq_false htype, cond_false, List.map_nil, List.append_nil]
      exact h.nodup

/-- Every step within the ttl keeps the log right. -/
theorem ActedOnce.step {W : Wiring ι} {s s' : NetworkState ι} (h : ActedOnce configs s)
    (hids : Function.Injective fun i => (configs i).node_id)
    (hfree : ∀ i, bar ∉ (configs i).node_id) (hhold : (requestPools configs lo).Hold s)
    {a : Action ι} (hwithin : WithinTtl configs lo a)
    (hstep : NetworkState.step W s a = some s') : ActedOnce configs s' := by
  have hviews := hhold.views_le (kept_requestPools W lo hids hfree) hwithin hstep
  cases a with
  | deliver position node env =>
    obtain ⟨datagram, hmem, hstep⟩ := Option.bind_eq_some_iff.mp hstep
    split_ifs at hstep with haddress
    cases hwire : UdpTransport.receive datagram.payload with
    | none =>
      obtain rfl : _ = s' := by simpa [hwire] using hstep
      exact h.of_same hviews rfl
    | some wire =>
      obtain rfl : _ = s' := by simpa [hwire] using hstep
      cases hmsg : fromWire wire with
      | none =>
        refine h.of_same hviews ?_
        simp [handle, Node.handleWireMessage_of_none _ env _ hmsg]
      | some msg =>
        by_cases hsends : ((s.nodes node).handleWireMessage env wire datagram.src).2 = []
        · refine h.of_same hviews ?_
          simp [handle, hsends]
        · have hacted : ({ s with flight := s.flight.eraseIdx position }.handle node env datagram
              wire).acted = s.acted ++ [⟨⟨node, msg⟩, datagram.trail⟩] := by
            simp [handle, hsends, hmsg]
          refine h.concat hviews hacted fun htype => ?_
          -- It was sent something, so its id was new.
          obtain ⟨-, hrecorded⟩ | ⟨hother, -⟩ :=
            Node.query_table_handleWireMessage (s.nodes node) env datagram.src hmsg
          · obtain ⟨-, hnone⟩ | ⟨htable, hnew⟩ := hrecorded
            · exact absurd hnone hsends
            · have hconfig := (Node.handled_wireMessage (s.nodes node) env datagram.src hmsg).config
              obtain ⟨-, -, hid, hout⟩ := (hhold.nodes node).record hconfig htable hwithin
              refine ⟨hout (hnew hsends), ?_, fun horigin => ?_⟩
              · simpa only [handle, Function.update_self] using hid
              · -- The request of a node itself would not have been new.
                have hdatagram := hhold.flight datagram (List.mem_of_getElem? hmem)
                have harrives : UdpTransport.arrives datagram.sent.toWire = some msg := by
                  rw [← hdatagram.1, UdpTransport.arrives, hwire]
                  exact hmsg
                have htraced := (hdatagram.2 ((UdpTransport.type_of_arrives harrives).symm.trans
                  htype)).of_arrives harrives
                exact hout (hnew hsends) (htraced.origin node horigin)
          · exact absurd htype hother
  | lose position =>
    obtain ⟨datagram, -, rfl⟩ := Option.map_eq_some_iff.mp hstep
    exact h.of_same hviews rfl
  | duplicate position =>
    obtain ⟨datagram, -, rfl⟩ := Option.map_eq_some_iff.mp hstep
    exact h.of_same hviews rfl
  | dispatch position sent =>
    obtain ⟨item, -, rfl⟩ := Option.map_eq_some_iff.mp hstep
    refine h.of_same hviews ?_
    unfold NetworkState.send
    dsimp only
    split
    · split_ifs <;> rfl
    · rfl
  | dropQueued position =>
    obtain ⟨item, -, rfl⟩ := Option.map_eq_some_iff.mp hstep
    exact h.of_same hviews rfl
  | work node env task =>
    obtain rfl := Option.some.inj hstep
    exact h.of_same hviews rfl

/-- A request acts once at every node. For any nodes with distinct ids, none of which contains a
bar, any addresses and resolvers, and every run in which the nodes request keys without a bar and
use their query tables within the ttl after some time of their own clocks, whatever is lost, cut,
duplicated, reordered or late: no node serves or relays two requests with one id, and none serves or
relays a request of its own. -/
theorem requests_once (W : Wiring ι) (configs : ι → Config) (lo : ι → ℤ)
    (hids : Function.Injective fun i => (configs i).node_id)
    (hfree : ∀ i, bar ∉ (configs i).node_id) (actions : List (Action ι))
    (hwithin : ∀ a ∈ actions, WithinTtl configs lo a) (s : NetworkState ι)
    (hrun : Machine.run (step W) (init configs) actions = some s) :
    ((s.acted.filter fun a => a.hop.msg.type = .request).map
        fun a => (a.hop.node, a.hop.msg.request_id)).Nodup ∧
      ∀ a ∈ s.acted, a.hop.msg.type = .request →
        a.hop.msg.origin ≠ (configs a.hop.node).node_id := by
  have hinit : (requestPools configs lo).Hold (init configs) :=
    { nodes := fun i => ⟨rfl, rfl, fun id recorded h => absurd h.symm (Option.some_ne_none _)⟩
      queued := fun _ hq => absurd hq List.not_mem_nil
      flight := fun _ hd => absurd hd List.not_mem_nil }
  have hkept : ∀ (s : NetworkState ι) a s',
      ((requestPools configs lo).Hold s ∧ ActedOnce configs s) → WithinTtl configs lo a →
      step W s a = some s' → (requestPools configs lo).Hold s' ∧ ActedOnce configs s' := by
    rintro s a s' ⟨hhold, honce⟩ hwithin hstep
    exact ⟨hhold.step (kept_requestPools W lo hids hfree) hwithin hstep,
      honce.step hids hfree hhold hwithin hstep⟩
  obtain ⟨-, honce⟩ := Machine.Guarded.invariant hkept
    ⟨hinit, fun a ha => absurd ha List.not_mem_nil, List.nodup_nil⟩
    (Machine.Guarded.of_forall_mem hwithin _) hrun
  exact ⟨honce.nodup, fun a ha htype => (honce.remembered a ha htype).2⟩

/-- The direct request of the origin is duplicated, and delivered twice. -/
def repeated : List (Action Peer) :=
  hinted ++ [.dispatch 0 fun _ => true, .duplicate 0, .deliver 0 .server { wall_ms := 1003 },
    .deliver 0 .server { wall_ms := 1004 }]

/-- The server has served it once. -/
theorem requests_once_repeated : ∃ s,
    Machine.run (step peerWiring) (init (peerConfig (ascii "a"))) repeated = some s ∧
      ∃ a, s.acted = [a] ∧ a.hop.node = .server ∧ a.hop.msg.type = .request ∧
        a.hop.msg.origin ≠ (peerConfig (ascii "a") .server).node_id := by
  have hacted : (Machine.run (step peerWiring) (init (peerConfig (ascii "a"))) repeated).map
      (fun s => s.acted.map fun a => (a.hop.node, a.hop.msg.type)) =
        some [(.server, .request)] := by decide +kernel
  obtain ⟨s, hrun, hvalues⟩ := Option.map_eq_some_iff.mp hacted
  obtain ⟨a, ha, hfacts⟩ := List.map_eq_singleton_iff.mp hvalues
  obtain ⟨hnode, htype⟩ := Prod.mk.inj hfacts
  have hwithin : ∀ a ∈ repeated, WithinTtl (peerConfig (ascii "a")) (fun _ => 0) a := by
    have hkey : bar ∉ ascii "k" := by decide
    have httl : ∀ p, 0 ≤ milliseconds (peerConfig (ascii "a") p).query_ttl_ms.toInt :=
      fun p => by cases p <;> decide
    simp [repeated, hinted, WithinTtl, hkey, httl]
  have hother := (requests_once peerWiring (peerConfig (ascii "a")) (fun _ => 0) peer_ids.1
    peer_ids.2 repeated hwithin s hrun).2 a (by simp [ha]) htype
  rw [hnode] at hother
  exact ⟨s, hrun, a, ha, hnode, htype, hother⟩

end NetworkState

end Netos
