import Mathlib.Algebra.Order.Group.Multiset
import Netos.Node.ForwardDrain
import Netos.System.Network

/-!
# A network of nodes with forward queues

`Network.lean` lets any queued message be sent at any time, and lets it be dropped. Here every node
has the forward queue of `ForwardQueue.lean`, with its bound and its workers, and seven threads,
which hand over what they want to send one message after the other. A handler, a step of the queue,
a call of the network and a callback are steps of their own, which interleave in any order, and the
queue may be started at any time, as the receive thread is there before it.

`forward_queues_follow_pool` says that this network does nothing which the one with the pools cannot
do: every run is matched by a run of the pools on the same datagrams and the same rounds, which
leaves the same datagrams in flight, and the same nodes but for the sync tables: a worker runs the
callback some time after it has sent. What holds of all runs of the pools and does not mention the
sync tables thus holds of the nodes with their queues.
-/

namespace Netos

open CString

/-- The threads of a node in which its handlers and rounds run. -/
inductive Thread where
  /-- The thread of `UdpTransport::run`. -/
  | receive
  /-- The main thread, of which `seed_cache` is modelled: it sends nothing. -/
  | main
  /-- The thread of `schedule_requests`. -/
  | scheduleRequests
  /-- `start_content_bloom_exchange`. -/
  | contentBloomExchange
  /-- `start_content_bf_fallbacks`. -/
  | contentBfFallbacks
  /-- `start_query_bloom_flush`. -/
  | queryBloomFlush
  /-- `start_topology_reload`. -/
  | topologyReload
deriving DecidableEq

/-- There are seven of them. -/
instance : Fintype Thread where
  elems := {.receive, .main, .scheduleRequests, .contentBloomExchange, .contentBfFallbacks,
    .queryBloomFlush, .topologyReload}
  complete t := by cases t <;> decide

/-- The thread that does the rounds of a task. -/
def Node.Task.thread : Node.Task → Thread
  | .seed _ => .main
  | .request _ => .scheduleRequests
  | .exchangeContentBloom => .contentBloomExchange
  | .takeFallbacks => .contentBfFallbacks
  | .flushQueryBlooms => .queryBloomFlush
  | .reloadTopology _ => .topologyReload

namespace ForwardQueue

/-- The forward queue of a node with workers `W`. That a message could not be sent is only logged,
so one value stands for `on_failure`. -/
abbrev OfNode (W : Type) := State Thread W (Bytes × Bytes) Unit

/-- The item of what a handler sends. -/
def itemOf (send : Send) : Item (Bytes × Bytes) Unit := (Call.ofSend (some ()) send).item

/-- The item that a worker holds and has not sent yet. -/
def Worker.held {σ φ : Type} : Worker σ φ → Multiset (Item σ φ)
  | .waiting => 0
  | .holding _ item => {item}
  | .finishing _ _ _ => 0

/-- The configuration of the queue of a node. -/
def configOf (config : Config) : ForwardQueueConfig where
  enabled := config.async_forward_enable
  max_depth := toSize config.forward_queue_max

end ForwardQueue

open ForwardQueue (OfNode itemOf)

/-- A node with its forward queue, and what its threads have still to hand to it. -/
structure RunningNode (W : Type) where
  /-- The node. -/
  node : Node
  /-- The forward queue. -/
  forward_queue : OfNode W := ForwardQueue.construct
  /-- What a thread hands over next, the next message first. -/
  handing : Thread → List Send := fun _ => []

/-- A datagram in flight. -/
structure Packet where
  /-- The source address. -/
  src : SockaddrIn
  /-- The destination address. -/
  dst : SockaddrIn
  /-- The payload. -/
  payload : Bytes

/-- Nodes that run, and the datagrams between them. -/
structure QueuedNetwork (ι : Type*) (W : ι → Type) where
  /-- The nodes. -/
  nodes : (i : ι) → RunningNode (W i)
  /-- The datagrams in flight. -/
  flight : List Packet

namespace RunningNode

variable {W : Type}

/-- A thread is free to begin: it has handed over everything, and no callback is left to run. -/
def Free (r : RunningNode W) (t : Thread) : Prop :=
  r.handing t = [] ∧ (r.forward_queue.dropping t).isNone

/-- Decidable, as both tests are. -/
instance (r : RunningNode W) (t : Thread) : Decidable (r.Free t) :=
  inferInstanceAs (Decidable (_ ∧ _))

/-- What a call of the network does to the node, and the datagrams that the transport takes. -/
def transmit (R : Resolver) (sent : ℕ → Bool) (n : Node) :
    NetworkCall → Node × List (SockaddrIn × Bytes)
  | .sendDirect addr msg => (n, if sent 0 then [(addr, msg.toWire)] else [])
  | .sendBroadcast msg exclude =>
    let (network, handed) := n.network.sendBroadcast R msg exclude sent
    ({ n with network },
      handed.zipIdx.filterMap fun entry => if sent entry.2 then entry.1 else none)

/-- The calls of the network, one after the other. -/
def transmitAll (R : Resolver) (sent : ℕ → Bool) :
    List NetworkCall → Node → Node × List (SockaddrIn × Bytes)
  | [], n => (n, [])
  | call :: calls, n =>
    let (n, handed) := transmit R sent n call
    let (n, rest) := transmitAll R sent calls n
    (n, handed ++ rest)

/-- What a callback does to the node. -/
def callBack (n : Node) : ForwardQueue.Callback (Bytes × Bytes) Unit → Node
  | .success on_success => n.onSuccess (some on_success)
  | .failure _ _ => n

/-- A step of the forward queue, with the outcomes of the transport: the calls of the network that
it logs are made, and the callbacks that it logs run. -/
def queueStep [DecidableEq W] (R : Resolver) (sent : ℕ → Bool) (r : RunningNode W)
    (a : ForwardQueue.Action Thread W (Bytes × Bytes) Unit) :
    Option (RunningNode W × List (SockaddrIn × Bytes)) :=
  let outcome : ForwardQueue.Outcome := if sent 0 then .ok () else .error (ascii "sendto() failed")
  (ForwardQueue.step (ForwardQueue.configOf r.node.config) (fun _ => outcome) r.forward_queue a).map
    fun forward_queue =>
      let calls := (forward_queue.sent.drop r.forward_queue.sent.length).map fun entry => entry.2.1
      let callbacks := (forward_queue.ran.drop r.forward_queue.ran.length).map fun entry => entry.2
      let (node, handed) := transmitAll R sent calls r.node
      ({ r with node := callbacks.foldl callBack node, forward_queue }, handed)

end RunningNode

namespace QueuedNetwork

/-- What happens in the network. -/
inductive Action (ι : Type*) (W : ι → Type) where
  /-- A datagram is delivered to a node with its destination address. -/
  | deliver (position : ℕ) (node : ι) (env : Env)
  /-- A datagram is lost. -/
  | lose (position : ℕ)
  /-- A datagram is duplicated. -/
  | duplicate (position : ℕ)
  /-- A thread of a node does a round of a task. -/
  | work (node : ι) (env : Env) (task : Node.Task)
  /-- The forward queue of a node is started. -/
  | start (node : ι)
  /-- A thread calls the forward queue with its next message. -/
  | handOver (node : ι) (thread : Thread) (sent : ℕ → Bool)
  /-- A thread runs the callback of a message that was dropped. -/
  | drop (node : ι) (thread : Thread)
  /-- A worker takes a message. -/
  | dequeue (node : ι) (worker : W node)
  /-- A worker sends the message that it took. -/
  | send (node : ι) (worker : W node) (sent : ℕ → Bool)
  /-- A worker runs the callback. -/
  | finish (node : ι) (worker : W node)

variable {ι : Type*} {W : ι → Type} [DecidableEq ι] [∀ i, DecidableEq (W i)]

/-- A step of the forward queue of a node. The datagrams that the transport takes are in flight. -/
def queueStep (wiring : Wiring ι) (s : QueuedNetwork ι W) (node : ι) (sent : ℕ → Bool)
    (r : RunningNode (W node))
    (a : ForwardQueue.Action Thread (W node) (Bytes × Bytes) Unit) :
    Option (QueuedNetwork ι W) :=
  (r.queueStep (wiring.resolver node) sent a).map fun (r, handed) =>
    { nodes := Function.update s.nodes node r
      flight := s.flight ++ handed.map fun datagram =>
        ⟨wiring.address node, datagram.1, datagram.2⟩ }

/-- What a thread did in a handler or a round: the node is the new one, and the messages are to be
handed over. -/
def begin (s : QueuedNetwork ι W) (node : ι) (thread : Thread) (result : Node × List Send) :
    QueuedNetwork ι W :=
  let r := s.nodes node
  { s with
    nodes := Function.update s.nodes node { r with
      node := result.1
      handing := Function.update r.handing thread result.2 } }

/-- One step. -/
def step (wiring : Wiring ι) (s : QueuedNetwork ι W) : Action ι W → Option (QueuedNetwork ι W)
  | .deliver position node env =>
    let r := s.nodes node
    s.flight[position]?.bind fun packet =>
      if sameAddress (wiring.address node) packet.dst ∧ r.Free .receive then
        let s := { s with flight := s.flight.eraseIdx position }
        match UdpTransport.receive packet.payload with
        | none => some s
        | some wire =>
          some (s.begin node .receive (r.node.handleWireMessage env wire packet.src))
      else none
  | .lose position =>
    s.flight[position]?.map fun _ => { s with flight := s.flight.eraseIdx position }
  | .duplicate position =>
    s.flight[position]?.map fun packet => { s with flight := s.flight ++ [packet] }
  | .work node env task =>
    let r := s.nodes node
    if r.Free task.thread then some (s.begin node task.thread (r.node.runTask env task)) else none
  | .start node =>
    let r := s.nodes node
    some { s with
      nodes := Function.update s.nodes node { r with forward_queue := r.forward_queue.start } }
  | .handOver node thread sent =>
    let r := s.nodes node
    match r.handing thread with
    | [] => none
    | send :: sends =>
      s.queueStep wiring node sent
        { r with handing := Function.update r.handing thread sends }
        (.call thread (ForwardQueue.Call.ofSend (some ()) send))
  | .drop node thread => s.queueStep wiring node (fun _ => true) (s.nodes node) (.drop thread)
  | .dequeue node worker => s.queueStep wiring node (fun _ => true) (s.nodes node) (.dequeue worker)
  | .send node worker sent => s.queueStep wiring node sent (s.nodes node) (.send worker)
  | .finish node worker => s.queueStep wiring node (fun _ => true) (s.nodes node) (.finish worker)

/-- The network at the start: the nodes as constructed, with empty Redis servers. -/
def init (configs : ι → Config) (W : ι → Type) : QueuedNetwork ι W where
  nodes i := { node := Node.construct (configs i) fun _ => none }
  flight := []

end QueuedNetwork

/-! ## The sync table -/

namespace Node

/-- The node with another sync table. -/
def withSyncTable (n : Node) (t : SyncTable) : Node := { n with sync_table := t }

variable (n : Node) (t : SyncTable) (env : Env)

/-- The answers do not depend on it. -/
theorem answerKeys_withSyncTable (msg : Message) (filter : BloomFilter) (sender : SockaddrIn)
    (keys : List Bytes) (i : ℕ) : answerKeys env msg filter sender keys i (n.withSyncTable t) =
      ((answerKeys env msg filter sender keys i n).1.withSyncTable t,
        (answerKeys env msg filter sender keys i n).2) := by
  induction keys generalizing i n with
  | nil => rfl
  | cons key keys ih =>
    have hget : (n.withSyncTable t).redisGet env key = n.redisGet env key := rfl
    unfold answerKeys
    rw [hget]
    split_ifs with hcontains
    · cases n.redisGet env key with
      | none => exact ih n i
      | some value =>
        have hid : (n.withSyncTable t).makeRequestId (env.id_ms i) =
          ((n.makeRequestId (env.id_ms i)).1.withSyncTable t,
            (n.makeRequestId (env.id_ms i)).2) := rfl
        dsimp only
        rw [hid]
        dsimp only
        rw [ih]
        rfl
    · exact ih n i

/-- The handlers do not look at the sync table. -/
theorem handleWireMessage_withSyncTable (wire : Bytes) (sender : SockaddrIn) :
    (n.withSyncTable t).handleWireMessage env wire sender =
      ((n.handleWireMessage env wire sender).1.withSyncTable t,
        (n.handleWireMessage env wire sender).2) := by
  unfold handleWireMessage
  cases fromWire wire with
  | none => rfl
  | some msg =>
    dsimp only
    cases msg.type with
    | request =>
      have hget : (n.withSyncTable t).redisGet env = n.redisGet env := rfl
      have htable : (n.withSyncTable t).query_table = n.query_table := rfl
      unfold handleRequest
      dsimp only
      rw [hget, htable]
      rcases RequestPipeline.run n.query_table (n.redisGet env) env.prune_now env.record_now msg
        with ⟨⟨state, forward_ttl, value, reason⟩, query_table⟩
      cases state <;> rfl
    | data =>
      unfold handleData
      have hconfig : (n.withSyncTable t).config = n.config := rfl
      rw [hconfig]
      cases (DataPipeline.run n.config msg).state with
      | dropInvalid => rfl
      | dropNotOrigin => rfl
      | storeLocal =>
        dsimp only
        split_ifs <;> rfl
    | contentBloom =>
      unfold handleContentBloom
      have hconfig : (n.withSyncTable t).config = n.config := rfl
      rw [hconfig]
      split_ifs
      · rfl
      · rfl
      · cases BloomFilter.fromHex (toSize n.config.content_bf_bits)
          (toSize n.config.content_bf_hashes) msg.key <;> rfl
    | queryBloom =>
      have hfilter : (n.withSyncTable t).queryBloomFilter env msg = n.queryBloomFilter env msg :=
        rfl
      unfold handleQueryBloom
      rw [hfilter]
      cases n.queryBloomFilter env msg with
      | none => rfl
      | some filter =>
        dsimp only
        have hkeys : (n.withSyncTable t).local_keys = n.local_keys := rfl
        rw [hkeys, answerKeys_withSyncTable]
        rcases answerKeys env msg filter sender (env.order.order n.local_keys.keys) 0 n
          with ⟨m, answers⟩
        have hlimiter : (m.withSyncTable t).query_bloom_limiter = m.query_bloom_limiter := rfl
        dsimp only
        rw [hlimiter]
        split_ifs <;> rfl
    | unknown => rfl

/-- Nor do the rounds of the tasks. -/
theorem runTask_withSyncTable (task : Task) :
    (n.withSyncTable t).runTask env task =
      ((n.runTask env task).1.withSyncTable t, (n.runTask env task).2) := by
  cases task with
  | seed position =>
    have hconfig : (n.withSyncTable t).config = n.config := rfl
    unfold runTask
    dsimp only
    rw [hconfig]
    cases n.config.seed_keys[position]? with
    | none => rfl
    | some kv =>
      dsimp only [seedKey]
      split_ifs <;> rfl
  | request key =>
    have hget : (n.withSyncTable t).redisGet env key = n.redisGet env key := rfl
    unfold runTask scheduleRequest
    dsimp only
    rw [hget]
    cases n.redisGet env key with
    | some value => rfl
    | none =>
      have htable : (n.withSyncTable t).content_bloom = n.content_bloom := rfl
      dsimp only [makeRequestId]
      rw [htable]
      rcases n.content_bloom.selectNeighbor env.order env.steady key with ⟨content_bloom, neighbor⟩
      cases neighbor <;> rfl
  | exchangeContentBloom => rfl
  | takeFallbacks => rfl
  | flushQueryBlooms => rfl
  | reloadTopology neighbors => rfl

end Node

/-! ## What is still to be sent -/

/-- The items that a queue and its workers have still to send. -/
def ForwardQueue.State.inHand {W : Type} [Fintype W] (s : OfNode W) :
    Multiset (ForwardQueue.Item (Bytes × Bytes) Unit) :=
  ((s.queue.map Prod.snd : List _) : Multiset _) + ∑ w, (s.workers w).held

/-- The items of what a thread hands over. -/
def ForwardQueue.itemsOf (sends : List Send) :
    Multiset (ForwardQueue.Item (Bytes × Bytes) Unit) :=
  ((sends.map itemOf : List _) : Multiset _)

/-- The items that the threads have still to hand over. -/
def RunningNode.toHandOver {W : Type} (r : RunningNode W) :
    Multiset (ForwardQueue.Item (Bytes × Bytes) Unit) :=
  ∑ t, ForwardQueue.itemsOf (r.handing t)

/-- What a thread has to hand over is replaced. -/
theorem RunningNode.toHandOver_update {W : Type} {r r' : RunningNode W} {t : Thread}
    {sends : List Send} (h : r'.handing = Function.update r.handing t sends) :
    r'.toHandOver + ForwardQueue.itemsOf (r.handing t) =
      r.toHandOver + ForwardQueue.itemsOf sends := by
  unfold RunningNode.toHandOver
  rw [h]
  exact ForwardQueue.sum_update_add rfl rfl

namespace ForwardQueue

variable {W : Type} [DecidableEq W] [Fintype W]

/-- What a step makes of the items in hand. -/
inductive Moved (s : OfNode W) (a : Action Thread W (Bytes × Bytes) Unit)
    (outcome : Outcome) (s' : OfNode W) : Prop where
  /-- They stay, and a callback may run. -/
  | kept (hhand : s'.inHand = s.inHand + (a.item.toList : List _)) (hsent : s'.sent = s.sent)
      (runs : List (ℕ × Callback (Bytes × Bytes) Unit)) (hran : s'.ran = s.ran ++ runs)
  /-- One is dropped. -/
  | dropped (item : Item (Bytes × Bytes) Unit)
      (hhand : s.inHand + (a.item.toList : List _) = s'.inHand + {item}) (hsent : s'.sent = s.sent)
      (hran : s'.ran = s.ran)
  /-- One is sent. -/
  | sent (ticket : ℕ) (item : Item (Bytes × Bytes) Unit)
      (hhand : s.inHand + (a.item.toList : List _) = s'.inHand + {item})
      (hsent : s'.sent = s.sent ++ [(ticket, item.network, outcome)])
      (runs : List (ℕ × Callback (Bytes × Bytes) Unit)) (hran : s'.ran = s.ran ++ runs)

/-- Every step is of one of these kinds. -/
theorem moved_of_step {config : ForwardQueueConfig} {outcome : Outcome} {s s' : OfNode W}
    {a : Action Thread W (Bytes × Bytes) Unit}
    (hstep : step config (fun _ => outcome) s a = some s') : Moved s a outcome s' := by
  cases stepped_of_step hstep with
  | inline p c hfree hinline =>
    refine .sent s.calls.length c.item rfl ?_ _ rfl
    rw [network_item]
  | rejected p c hfree henabled hstarted hfull => exact .dropped c.item rfl rfl rfl
  | accepted p c hfree henabled hstarted hroom =>
    refine .kept ?_ rfl [] (List.append_nil _).symm
    simp only [State.inHand, List.map_append, ← Multiset.coe_add]
    exact add_right_comm _ _ _
  | drop p ticket item hdropping => exact .kept (add_zero _).symm rfl _ rfl
  | dequeue w ticket item queue hwaiting hqueue =>
    refine .kept ?_ rfl [] (List.append_nil _).symm
    have hsum : ∑ x, (Function.update s.workers w (.holding ticket item) x).held + 0 =
        ∑ x, (s.workers x).held + {item} := sum_update_add (by rw [hwaiting]; rfl) rfl
    rw [add_zero] at hsum
    simp only [State.inHand, hqueue, List.map_cons, hsum, ← Multiset.cons_coe,
      ← Multiset.singleton_add, Action.item, Option.toList_none, Multiset.coe_nil, add_zero]
    rw [add_comm ({item} : Multiset _), add_assoc, add_comm ({item} : Multiset _)]
  | send w ticket item hholding =>
    refine .sent ticket item ?_ rfl [] (List.append_nil _).symm
    have hsum : ∑ x, (Function.update s.workers w (.finishing ticket item outcome) x).held +
        {item} = ∑ x, (s.workers x).held + 0 := sum_update_add (by rw [hholding]; rfl) rfl
    rw [add_zero] at hsum
    simp only [State.inHand, ← hsum, Action.item, Option.toList_none, Multiset.coe_nil, add_zero,
      add_assoc]
  | finish w ticket item outcome hfinishing =>
    refine .kept ?_ rfl _ rfl
    have hsum : ∑ x, (Function.update s.workers w .waiting x).held + 0 =
        ∑ x, (s.workers x).held + 0 := sum_update_add (by rw [hfinishing]; rfl) rfl
    rw [add_zero, add_zero] at hsum
    simp only [State.inHand, hsum, Action.item, Option.toList_none, Multiset.coe_nil, add_zero]

end ForwardQueue

/-! ## The pool -/

namespace NetworkState

variable {ι : Type*} [DecidableEq ι]

/-- The items of a node in a pool. -/
def pooled (queued : List (Queued ι)) (i : ι) :
    Multiset (ForwardQueue.Item (Bytes × Bytes) Unit) :=
  ((queued.filter (·.node = i)).map fun q => itemOf q.send : List _)

/-- What a node queues is among its items. -/
theorem pooled_append (queued : List (Queued ι)) (node : ι) (sends : List Send)
    (trail : Send → List (Hop ι)) (i : ι) :
    pooled (queued ++ sends.map fun send => ⟨node, send, trail send⟩) i =
      pooled queued i + if node = i then ForwardQueue.itemsOf sends else 0 := by
  unfold pooled
  rw [List.filter_append, List.map_append, ← Multiset.coe_add]
  congr 1
  split_ifs with hnode
  · rw [List.filter_eq_self.mpr (by simp [hnode]), List.map_map]
    rfl
  · rw [List.filter_eq_nil_iff.mpr (by simp [hnode])]
    rfl

/-- An element that leaves the pool is an item less for its node. -/
theorem pooled_eraseIdx {queued : List (Queued ι)} {position : ℕ} {q : Queued ι}
    (hget : queued[position]? = some q) (i : ι) :
    pooled queued i =
      pooled (queued.eraseIdx position) i + if q.node = i then {itemOf q.send} else 0 := by
  obtain ⟨hlt, rfl⟩ := List.getElem?_eq_some_iff.mp hget
  have hperm : queued.Perm (queued[position] :: queued.eraseIdx position) :=
    (List.getElem_cons_eraseIdx_perm hlt).symm
  have hpool : pooled queued i = pooled (queued[position] :: queued.eraseIdx position) i :=
    Multiset.coe_eq_coe.mpr ((hperm.filter _).map _)
  rw [hpool, pooled, List.filter_cons]
  split_ifs with hnode hnode' hnode'
  · rw [List.map_cons, ← Multiset.cons_coe, ← Multiset.singleton_add, add_comm]
    rfl
  · exact absurd (of_decide_eq_true hnode) hnode'
  · exact absurd (decide_eq_true hnode') hnode
  · exact (add_zero _).symm

/-- An item of a node is that of an element. -/
theorem exists_pooled {queued : List (Queued ι)} {i : ι}
    {item : ForwardQueue.Item (Bytes × Bytes) Unit} (h : item ∈ pooled queued i) :
    ∃ (position : ℕ) (q : Queued ι), queued[position]? = some q ∧ q.node = i ∧
      itemOf q.send = item := by
  obtain ⟨q, hq, hitem⟩ := List.mem_map.mp (Multiset.mem_coe.mp h)
  obtain ⟨hmem, hnode⟩ := List.mem_filter.mp hq
  obtain ⟨position, hget⟩ := List.mem_iff_getElem?.mp hmem
  exact ⟨position, q, hget, of_decide_eq_true hnode, hitem⟩

/-- Sending an element is the call of the network for its item; the callback concerns the sync
table only. -/
theorem send_eq_transmit (wiring : Wiring ι) (s : NetworkState ι) (q : Queued ι) (sent : ℕ → Bool) :
    ∃ t, s.send wiring q sent =
      { s with
        nodes := Function.update s.nodes q.node
          ((RunningNode.transmit (wiring.resolver q.node) sent (s.nodes q.node)
            (itemOf q.send).network).1.withSyncTable t)
        flight := s.flight ++ (RunningNode.transmit (wiring.resolver q.node) sent (s.nodes q.node)
          (itemOf q.send).network).2.map fun handed =>
            ⟨wiring.address q.node, handed.1, handed.2, q.send.msg, q.trail⟩ } := by
  obtain ⟨node, send, trail⟩ := q
  cases send with
  | direct addr msg on_success =>
    cases hsent : sent 0 with
    | false =>
      refine ⟨(s.nodes node).sync_table, ?_⟩
      have hsame : Function.update s.nodes node ((s.nodes node).withSyncTable
          (s.nodes node).sync_table) = s.nodes := Function.update_eq_self node s.nodes
      simp only [NetworkState.send, RunningNode.transmit, ForwardQueue.Item.network, itemOf,
        ForwardQueue.Call.ofSend, ForwardQueue.Call.item, hsent, Bool.false_eq_true, if_false,
        List.map_nil, List.append_nil, hsame]
    | true =>
      refine ⟨((s.nodes node).onSuccess on_success).sync_table, ?_⟩
      have hsync : (s.nodes node).onSuccess on_success = (s.nodes node).withSyncTable
          ((s.nodes node).onSuccess on_success).sync_table := by
        cases on_success <;> rfl
      simp only [NetworkState.send, RunningNode.transmit, ForwardQueue.Item.network, itemOf,
        ForwardQueue.Call.ofSend, ForwardQueue.Call.item, hsent, if_true, Send.msg, List.map_cons,
        List.map_nil, ← hsync]
  | broadcast msg exclude =>
    refine ⟨(s.nodes node).sync_table, ?_⟩
    simp only [NetworkState.send]
    cases exclude with
    | none => rfl
    | some addr => rfl

end NetworkState

/-! ## A step of a queue -/

namespace RunningNode

/-- A call of the network does not look at the sync table. -/
theorem transmit_withSyncTable (R : Resolver) (sent : ℕ → Bool) (n : Node) (t : SyncTable)
    (call : NetworkCall) : transmit R sent (n.withSyncTable t) call =
      ((transmit R sent n call).1.withSyncTable t, (transmit R sent n call).2) := by
  cases call <;> rfl

/-- Callbacks change the sync table only. -/
theorem foldl_callBack (runs : List (ForwardQueue.Callback (Bytes × Bytes) Unit)) (n : Node) :
    ∃ t, runs.foldl callBack n = n.withSyncTable t := by
  induction runs generalizing n with
  | nil => exact ⟨n.sync_table, rfl⟩
  | cons run runs ih =>
    obtain ⟨t, ht⟩ := ih (callBack n run)
    cases run <;> exact ⟨t, ht⟩

variable {W : Type} [DecidableEq W] [Fintype W] {R : Resolver} {sent : ℕ → Bool}
  {r r' : RunningNode W} {a : ForwardQueue.Action Thread W (Bytes × Bytes) Unit}
  {handed : List (SockaddrIn × Bytes)}

/-- What a step of the queue does to the node and its items: they stay in hand, or one of them is
dropped, or one of them is sent. -/
theorem queueStep_cases (h : r.queueStep R sent a = some (r', handed)) :
    r'.handing = r.handing ∧
      ((r'.forward_queue.inHand = r.forward_queue.inHand + (a.item.toList : List _) ∧
          handed = [] ∧ ∃ t, r'.node = r.node.withSyncTable t) ∨
        ∃ item, r.forward_queue.inHand + (a.item.toList : List _) =
            r'.forward_queue.inHand + {item} ∧
          (handed = [] ∧ r'.node = r.node ∨
            handed = (transmit R sent r.node item.network).2 ∧
              ∃ t, r'.node = (transmit R sent r.node item.network).1.withSyncTable t)) := by
  obtain ⟨forward_queue, hstep, hresult⟩ := Option.map_eq_some_iff.mp h
  obtain ⟨hr, hhanded⟩ := Prod.mk.inj hresult
  subst hr
  refine ⟨rfl, ?_⟩
  have hmoved := ForwardQueue.moved_of_step hstep
  cases hmoved with
  | kept hhand hsent runs hran =>
    left
    simp only [hsent, List.drop_length, List.map_nil, transmitAll] at hhanded ⊢
    exact ⟨hhand, hhanded.symm, foldl_callBack _ _⟩
  | dropped item hhand hsent hran =>
    right
    simp only [hsent, hran, List.drop_length, List.map_nil, transmitAll, List.foldl_nil]
      at hhanded ⊢
    exact ⟨item, hhand, Or.inl ⟨hhanded.symm, trivial⟩⟩
  | sent ticket item hhand hsent runs hran =>
    right
    simp only [hsent, List.drop_left, List.map_cons, List.map_nil, transmitAll, List.append_nil]
      at hhanded ⊢
    exact ⟨item, hhand, Or.inr ⟨hhanded.symm, foldl_callBack _ _⟩⟩

end RunningNode

/-! ## The simulation -/

/-- What of a datagram is not a ghost. -/
def Datagram.packet {ι : Type*} (d : Datagram ι) : Packet := ⟨d.src, d.dst, d.payload⟩

/-- The actions other than those of the forward queues. -/
def NetworkState.Action.outside {ι : Type*} :
    NetworkState.Action ι → Option (NetworkState.Action ι)
  | .dispatch _ _ => none
  | .dropQueued _ => none
  | .deliver position node env => some (.deliver position node env)
  | .lose position => some (.lose position)
  | .duplicate position => some (.duplicate position)
  | .work node env task => some (.work node env task)

namespace QueuedNetwork

/-- The actions other than those of the forward queues. -/
def Action.outside {ι : Type*} {W : ι → Type} : Action ι W → Option (NetworkState.Action ι)
  | .deliver position node env => some (.deliver position node env)
  | .lose position => some (.lose position)
  | .duplicate position => some (.duplicate position)
  | .work node env task => some (.work node env task)
  | .start _ => none
  | .handOver _ _ _ => none
  | .drop _ _ => none
  | .dequeue _ _ => none
  | .send _ _ _ => none
  | .finish _ _ => none

variable {ι : Type*} {W : ι → Type} [DecidableEq ι] [∀ i, DecidableEq (W i)] [∀ i, Fintype (W i)]

omit [∀ i, DecidableEq (W i)] in
/-- A network with queues is in the state of one with pools: the nodes are the same but for the sync
tables, the pool has what the threads, the queues and the workers have still to send, and the
same datagrams are in flight. -/
structure PooledAs (s : QueuedNetwork ι W) (p : NetworkState ι) : Prop where
  /-- The nodes. -/
  nodes : ∀ i, ∃ t, p.nodes i = (s.nodes i).node.withSyncTable t
  /-- What is still to be sent. -/
  pending : ∀ i, NetworkState.pooled p.queued i =
    (s.nodes i).toHandOver + (s.nodes i).forward_queue.inHand
  /-- The datagrams in flight. -/
  flight : p.flight.map Datagram.packet = s.flight

variable {wiring : Wiring ι} {s s' : QueuedNetwork ι W} {p : NetworkState ι}

omit [∀ i, DecidableEq (W i)] in
/-- One node is replaced in both networks, and the pool and the datagrams with it. -/
theorem PooledAs.update (h : s.PooledAs p) {node : ι} {r : RunningNode (W node)} {n : Node}
    (hnode : ∃ t, n = r.node.withSyncTable t) {queued : List (Queued ι)}
    (hpending : NetworkState.pooled queued node = r.toHandOver + r.forward_queue.inHand)
    (hother : ∀ i ≠ node, NetworkState.pooled queued i = NetworkState.pooled p.queued i)
    {flight : List (Datagram ι)} {packets : List Packet}
    (hflight : flight.map Datagram.packet = packets) (acted : List (Acted ι))
    (answered : List (Answered ι)) :
    PooledAs { nodes := Function.update s.nodes node r, flight := packets }
      { nodes := Function.update p.nodes node n, queued, flight, acted, answered } where
  nodes i := by
    by_cases hi : i = node
    · subst hi
      simpa only [Function.update_self] using hnode
    · simpa only [Function.update_of_ne hi] using h.nodes i
  pending i := by
    by_cases hi : i = node
    · subst hi
      simpa only [Function.update_self] using hpending
    · simpa only [Function.update_of_ne hi, hother i hi] using h.pending i
  flight := hflight

/-- A step of a queue is followed by at most one step of the pool. -/
theorem PooledAs.queueStep (h : s.PooledAs p) {node : ι} {sent : ℕ → Bool}
    {r : RunningNode (W node)}
    {a : ForwardQueue.Action Thread (W node) (Bytes × Bytes) Unit}
    (hr : r.node = (s.nodes node).node)
    (hpending : NetworkState.pooled p.queued node =
      r.toHandOver + (r.forward_queue.inHand + (a.item.toList : List _)))
    (hstep : s.queueStep wiring node sent r a = some s') :
    ∃ bs p', Machine.run (NetworkState.step wiring) p bs = some p' ∧ s'.PooledAs p' ∧
      bs.filterMap NetworkState.Action.outside = [] := by
  obtain ⟨⟨r', handed⟩, hqueue, rfl⟩ := Option.map_eq_some_iff.mp hstep
  obtain ⟨hhanding, hcases⟩ := r.queueStep_cases hqueue
  have hover : r'.toHandOver = r.toHandOver := by
    unfold RunningNode.toHandOver
    rw [hhanding]
  obtain ⟨t, ht⟩ := h.nodes node
  rcases hcases with ⟨hhand, rfl, t', ht'⟩ | ⟨item, hhand, hcases⟩
  · -- The items stay, so nothing happens in the pool.
    refine ⟨[], p, rfl, ?_, rfl⟩
    have hsame := h.update (n := p.nodes node) ⟨t, by rw [ht, ht', hr]; rfl⟩
      (by rw [hpending, hover, hhand]) (fun _ _ => rfl) h.flight p.acted p.answered
    rw [Function.update_eq_self] at hsame
    simpa only [List.map_nil, List.append_nil] using hsame
  · -- The item is that of an element of the pool.
    have hmem : item ∈ NetworkState.pooled p.queued node := by
      rw [hpending, hhand]
      exact Multiset.mem_add.mpr (Or.inr (Multiset.mem_add.mpr (Or.inr
        (Multiset.mem_singleton_self item))))
    obtain ⟨position, q, hget, rfl, rfl⟩ := NetworkState.exists_pooled hmem
    have hless : NetworkState.pooled (p.queued.eraseIdx position) q.node =
        r'.toHandOver + r'.forward_queue.inHand := by
      have herase := NetworkState.pooled_eraseIdx hget q.node
      rw [if_pos rfl, hpending, hhand, ← add_assoc, ← hover] at herase
      exact (add_right_cancel herase).symm
    have hother : ∀ i ≠ q.node, NetworkState.pooled (p.queued.eraseIdx position) i =
        NetworkState.pooled p.queued i := by
      intro i hi
      rw [NetworkState.pooled_eraseIdx hget i, if_neg (Ne.symm hi), add_zero]
    rcases hcases with ⟨rfl, ht'⟩ | ⟨rfl, t', ht'⟩
    · -- It is dropped.
      refine ⟨[.dropQueued position], { p with queued := p.queued.eraseIdx position }, ?_, ?_, rfl⟩
      · rw [Machine.run_cons, NetworkState.step, hget]
        rfl
      · have hsame := h.update (n := p.nodes q.node) ⟨t, by rw [ht, ht', hr]⟩ hless hother
          h.flight p.acted p.answered
        rw [Function.update_eq_self] at hsame
        simpa only [List.map_nil, List.append_nil] using hsame
    · -- It is sent.
      obtain ⟨t'', hsend⟩ := NetworkState.send_eq_transmit wiring
        { p with queued := p.queued.eraseIdx position } q sent
      refine ⟨[.dispatch position sent], ({ p with queued := p.queued.eraseIdx position } :
        NetworkState ι).send wiring q sent, ?_, ?_, rfl⟩
      · rw [Machine.run_cons, NetworkState.step, hget]
        rfl
      · have htransmit := RunningNode.transmit_withSyncTable (wiring.resolver q.node) sent
          (s.nodes q.node).node t (itemOf q.send).network
        rw [← ht, ← hr] at htransmit
        rw [hsend]
        refine h.update ⟨t'', ?_⟩ hless hother ?_ p.acted p.answered
        · rw [ht', htransmit]
          rfl
        · rw [List.map_append, h.flight, htransmit, List.map_map]
          rfl

omit [∀ i, DecidableEq (W i)] in
/-- A thread that is free has nothing to hand over, so what it did joins the pool. -/
theorem PooledAs.begin (h : s.PooledAs p) {node : ι} {thread : Thread}
    (hfree : (s.nodes node).Free thread) {result : Node × List Send} {n : Node}
    (hnode : ∃ t, n = result.1.withSyncTable t) (trail : Send → List (Hop ι))
    {flight : List (Datagram ι)} {packets : List Packet}
    (hflight : flight.map Datagram.packet = packets) (acted : List (Acted ι))
    (answered : List (Answered ι)) :
    PooledAs ({ s with flight := packets }.begin node thread result)
      { nodes := Function.update p.nodes node n
        queued := p.queued ++ result.2.map fun send => ⟨node, send, trail send⟩
        flight, acted, answered } := by
  refine h.update hnode ?_ ?_ hflight acted answered
  · have hhanding : ∀ r : RunningNode (W node),
        r.handing = Function.update (s.nodes node).handing thread result.2 →
          r.toHandOver = (s.nodes node).toHandOver + ForwardQueue.itemsOf result.2 := by
      intro r hr
      have hsum := RunningNode.toHandOver_update hr
      rw [hfree.1] at hsum
      exact (add_zero _).symm.trans hsum
    rw [NetworkState.pooled_append, if_pos rfl, h.pending node, add_right_comm]
    exact congrArg (· + _) (hhanding _ rfl).symm
  · intro i hi
    rw [NetworkState.pooled_append, if_neg (Ne.symm hi), add_zero]

/-- A step of the network with queues is followed by a run of the network with pools. -/
theorem PooledAs.step {a : Action ι W} (h : s.PooledAs p) (hstep : step wiring s a = some s') :
    ∃ bs p', Machine.run (NetworkState.step wiring) p bs = some p' ∧ s'.PooledAs p' ∧
      bs.filterMap NetworkState.Action.outside = a.outside.toList := by
  have hget : ∀ position : ℕ, s.flight[position]? = p.flight[position]?.map Datagram.packet := by
    intro position
    rw [← h.flight, List.getElem?_map]
  have herase : ∀ position : ℕ, (p.flight.eraseIdx position).map Datagram.packet =
      s.flight.eraseIdx position := by
    intro position
    rw [← h.flight, List.eraseIdx_map]
  have hnone : ∀ node, NetworkState.pooled p.queued node = (s.nodes node).toHandOver +
      ((s.nodes node).forward_queue.inHand + 0) := by
    intro node
    rw [h.pending node, add_zero]
  cases a with
  | deliver position node env =>
    obtain ⟨packet, hpacket, hstep⟩ := Option.bind_eq_some_iff.mp hstep
    obtain ⟨d, hd, rfl⟩ := Option.map_eq_some_iff.mp ((hget position).symm.trans hpacket)
    split_ifs at hstep with htest
    have hsame : sameAddress (wiring.address node) d.dst = true := htest.1
    cases hwire : UdpTransport.receive d.payload with
    | none =>
      have hwire' : UdpTransport.receive d.packet.payload = none := hwire
      rw [hwire'] at hstep
      obtain rfl := Option.some.inj hstep
      refine ⟨[.deliver position node env], { p with flight := p.flight.eraseIdx position }, ?_,
        ⟨h.nodes, h.pending, herase position⟩, rfl⟩
      simp only [Machine.run_cons, NetworkState.step, hd, Option.bind_some, hsame, if_true, hwire,
        Machine.run_nil]
    | some wire =>
      have hwire' : UdpTransport.receive d.packet.payload = some wire := hwire
      rw [hwire'] at hstep
      obtain rfl := Option.some.inj hstep
      obtain ⟨t, ht⟩ := h.nodes node
      have hhandled := Node.handleWireMessage_withSyncTable (s.nodes node).node t env wire d.src
      rw [← ht] at hhandled
      refine ⟨[.deliver position node env],
        ({ p with flight := p.flight.eraseIdx position } : NetworkState ι).handle node env d wire,
        ?_, ?_, rfl⟩
      · simp only [Machine.run_cons, NetworkState.step, hd, Option.bind_some, hsame, if_true, hwire,
          Machine.run_nil]
      · simp only [NetworkState.handle, hhandled]
        exact h.begin htest.2 ⟨t, rfl⟩ _ (herase position) _ _
  | lose position =>
    obtain ⟨packet, hpacket, rfl⟩ := Option.map_eq_some_iff.mp hstep
    obtain ⟨d, hd, rfl⟩ := Option.map_eq_some_iff.mp ((hget position).symm.trans hpacket)
    refine ⟨[.lose position], { p with flight := p.flight.eraseIdx position }, ?_,
      ⟨h.nodes, h.pending, herase position⟩, rfl⟩
    rw [Machine.run_cons, NetworkState.step, hd]
    rfl
  | duplicate position =>
    obtain ⟨packet, hpacket, rfl⟩ := Option.map_eq_some_iff.mp hstep
    obtain ⟨d, hd, rfl⟩ := Option.map_eq_some_iff.mp ((hget position).symm.trans hpacket)
    refine ⟨[.duplicate position], { p with flight := p.flight ++ [d] }, ?_,
      ⟨h.nodes, h.pending, by rw [List.map_append, h.flight]; rfl⟩, rfl⟩
    rw [Machine.run_cons, NetworkState.step, hd]
    rfl
  | work node env task =>
    unfold QueuedNetwork.step at hstep
    dsimp only at hstep
    split_ifs at hstep with hfree
    obtain rfl := Option.some.inj hstep
    obtain ⟨t, ht⟩ := h.nodes node
    have hworked := Node.runTask_withSyncTable (s.nodes node).node t env task
    rw [← ht] at hworked
    refine ⟨[.work node env task], _, ?_, h.begin hfree ⟨t, rfl⟩ (fun _ => []) h.flight p.acted
      p.answered, rfl⟩
    simp only [Machine.run_cons, NetworkState.step, hworked, Option.bind_some, Machine.run_nil]
  | start node =>
    obtain rfl := Option.some.inj hstep
    refine ⟨[], p, rfl, ?_, rfl⟩
    have hsame := h.update (n := p.nodes node)
      (r := { s.nodes node with forward_queue := (s.nodes node).forward_queue.start })
      (h.nodes node) (h.pending node) (fun _ _ => rfl) h.flight p.acted p.answered
    rwa [Function.update_eq_self] at hsame
  | handOver node thread sent =>
    unfold QueuedNetwork.step at hstep
    dsimp only at hstep
    split at hstep
    · exact absurd hstep (by simp)
    · next send sends hhanding =>
      -- The message that is handed over leaves the thread.
      have hsum : ({ s.nodes node with
          handing := Function.update (s.nodes node).handing thread sends } :
            RunningNode (W node)).toHandOver + _ = _ := RunningNode.toHandOver_update rfl
      have hcons : ForwardQueue.itemsOf (send :: sends) =
          {itemOf send} + ForwardQueue.itemsOf sends := rfl
      rw [hhanding, hcons, ← add_assoc] at hsum
      refine PooledAs.queueStep h ?_ ?_ hstep
      · rfl
      · rw [h.pending node, ← add_right_cancel hsum, add_assoc,
          add_comm ({itemOf send} : Multiset _)]
        rfl
  | drop node thread => exact h.queueStep rfl (hnone node) hstep
  | dequeue node worker => exact h.queueStep rfl (hnone node) hstep
  | send node worker sent => exact h.queueStep rfl (hnone node) hstep
  | finish node worker => exact h.queueStep rfl (hnone node) hstep

/-- The network with queues does nothing that the one with pools cannot do: every run is followed by
one of the pools with the same deliveries, losses, duplications and rounds, in the same order. -/
theorem forward_queues_follow_pool (wiring : Wiring ι) (configs : ι → Config)
    (actions : List (Action ι W)) (s : QueuedNetwork ι W)
    (hrun : Machine.run (step wiring) (init configs W) actions = some s) :
    ∃ pool_actions p,
      Machine.run (NetworkState.step wiring) (NetworkState.init configs) pool_actions = some p ∧
        pool_actions.filterMap NetworkState.Action.outside = actions.filterMap Action.outside ∧
        s.PooledAs p := by
  have hinit : (init configs W).PooledAs (NetworkState.init configs) :=
    { nodes := fun i => ⟨_, rfl⟩
      pending := fun i => by
        simp [NetworkState.pooled, NetworkState.init, init, RunningNode.toHandOver,
          ForwardQueue.itemsOf, ForwardQueue.State.inHand, ForwardQueue.construct,
          ForwardQueue.Worker.held]
      flight := rfl }
  obtain ⟨pool_actions, p, hrun', hpooled, houtside⟩ :=
    Machine.run_follows (fun s a s' p h hstep => h.step hstep) hinit hrun
  exact ⟨pool_actions, p, hrun', houtside, hpooled⟩

/-- The pull with two workers for each node. The queue of the server is not started, so its receive
thread sends the answer itself. -/
def queuedPull : List (Action NetworkState.Peer fun _ => Bool) :=
  [.work .server { wall_ms := 1000 } (.seed 0), .start .origin,
    .work .origin { wall_ms := 1000 } (.request (ascii "k")),
    .work .origin { steady := 200000000, wall_ms := 1200 } .flushQueryBlooms,
    .handOver .origin .queryBloomFlush fun _ => true, .dequeue .origin true,
    .send .origin true fun _ => true, .deliver 0 .server { wall_ms := 1201 },
    .handOver .server .receive fun _ => true, .deliver 0 .origin { wall_ms := 1202 },
    .finish .origin true]

/-- The origin holds what it pulled, and a run of the pools leads there. -/
theorem forward_queues_follow_pool_pull : ∃ s,
    Machine.run (step NetworkState.peerWiring)
        (init (NetworkState.peerConfig (ascii "a")) fun _ => Bool) queuedPull = some s ∧
      (s.nodes .origin).node.redis (ascii "k") = some (ascii "a") ∧
      ∃ pool_actions p,
        Machine.run (NetworkState.step NetworkState.peerWiring)
            (NetworkState.init (NetworkState.peerConfig (ascii "a"))) pool_actions = some p ∧
          pool_actions.filterMap NetworkState.Action.outside =
            queuedPull.filterMap Action.outside ∧
          s.PooledAs p := by
  have hpulled : (Machine.run (step NetworkState.peerWiring)
      (init (NetworkState.peerConfig (ascii "a")) fun _ => Bool) queuedPull).map
        (fun s => (s.nodes .origin).node.redis (ascii "k")) = some (some (ascii "a")) := by
    decide +kernel
  obtain ⟨s, hrun, hvalue⟩ := Option.map_eq_some_iff.mp hpulled
  exact ⟨s, hrun, hvalue, forward_queues_follow_pool _ _ queuedPull s hrun⟩

end QueuedNetwork

end Netos
