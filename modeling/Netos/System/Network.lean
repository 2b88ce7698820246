import Netos.Lib.Machine
import Netos.Network.UdpTransport
import Netos.Node.Node

/-!
# A network of nodes

Nodes that exchange datagrams. The forward queues and the datagrams in flight are pools: an action
takes any element of them, so a run covers every order of the workers and of the network. A datagram
may be lost, duplicated and delivered at any time, and the environment of every handler is chosen
anew. A handler is one step, as the receive thread of a node handles one datagram at a time, and so
is a round of a node's own threads.

`Stepped` says what a step may do, once for all proofs about runs (`stepped_of_step`).

Some fields are ghosts, which no step reads: the message that a datagram encodes, the trail of the
nodes that relayed it, and the logs `acted` and `answered`.
-/

namespace Netos

open CString

/-- The surroundings of the nodes: the address of each one, and what it resolves host names to. -/
structure Wiring (ι : Type*) where
  /-- The address that a node is bound to. -/
  address : ι → SockaddrIn
  /-- The resolver that a node uses. -/
  resolver : ι → Resolver

/-- A node that relayed a message, with the message as it decoded it. -/
structure Hop (ι : Type*) where
  /-- The node. -/
  node : ι
  /-- The message that it decoded. -/
  msg : Message

/-- The hop limit that a node decoded. -/
def Hop.limit {ι : Type*} (hop : Hop ι) : ℤ := hop.msg.ttl.toInt

/-- What a node decoded, up to the hop limit. -/
def Hop.content {ι : Type*} (hop : Hop ι) : Message := { hop.msg with ttl := 0 }

/-- What a node relays. -/
def Hop.relayed {ι : Type*} (hop : Hop ι) : Message := { hop.msg with ttl := hop.msg.ttl - 1 }

/-- A datagram in flight. -/
structure Datagram (ι : Type*) where
  /-- The source address. -/
  src : SockaddrIn
  /-- The destination address. -/
  dst : SockaddrIn
  /-- The payload. -/
  payload : Bytes
  /-- Ghost: the message that was encoded. -/
  sent : Message
  /-- Ghost: the nodes that relayed it, the latest first. -/
  trail : List (Hop ι)

/-- An element of a forward queue. -/
structure Queued (ι : Type*) where
  /-- The node that queued it. -/
  node : ι
  /-- What is to be sent. -/
  send : Send
  /-- Ghost: the nodes that relayed it, this one included. -/
  trail : List (Hop ι)

/-- A node served or relayed a request or a Query-BF. -/
structure Acted (ι : Type*) where
  /-- The node, with the message that it decoded. -/
  hop : Hop ι
  /-- The nodes that relayed the message to it, the latest first. -/
  trail : List (Hop ι)

/-- What Redis held under a key that a node answered. -/
structure Answered (ι : Type*) where
  /-- The node. -/
  node : ι
  /-- The key. -/
  key : Bytes
  /-- What Redis held. -/
  held : Option Bytes

/-- The state of the network. -/
structure NetworkState (ι : Type*) where
  /-- The nodes. -/
  nodes : ι → Node
  /-- The elements of the forward queues. -/
  queued : List (Queued ι)
  /-- The datagrams in flight. -/
  flight : List (Datagram ι)
  /-- Ghost: the requests and Query-BFs that were served or relayed. -/
  acted : List (Acted ι) := []
  /-- Ghost: what was answered. -/
  answered : List (Answered ι) := []

namespace NetworkState

/-- What happens in the network. Elements of the pools are named by their position. -/
inductive Action (ι : Type*) where
  /-- A datagram is delivered to a node with its destination address. -/
  | deliver (position : ℕ) (node : ι) (env : Env)
  /-- A datagram is lost. -/
  | lose (position : ℕ)
  /-- A datagram is duplicated. -/
  | duplicate (position : ℕ)
  /-- A worker sends an element of a forward queue, with the outcomes of the transport. -/
  | dispatch (position : ℕ) (sent : ℕ → Bool)
  /-- An element is dropped by a full forward queue. -/
  | dropQueued (position : ℕ)
  /-- A node does a round of one of its own threads. -/
  | work (node : ι) (env : Env) (task : Node.Task)

variable {ι : Type*}

/-- The trail of what a node sends on a datagram, whose trail with this node is `hops`: a relay
extends the trail, an answer starts anew. -/
def trailOf (hops : List (Hop ι)) : Send → List (Hop ι)
  | .direct .. => []
  | .broadcast .. => hops

/-- What Redis held when a node answered. -/
def answer (node : ι) (redis : RedisClient.Store) : Send → Option (Answered ι)
  | .direct _ msg _ => some ⟨node, msg.key, redis msg.key⟩
  | .broadcast .. => none

variable [DecidableEq ι]

/-- A node handles a datagram that was received as `wire`. -/
def handle (s : NetworkState ι) (node : ι) (env : Env) (datagram : Datagram ι) (wire : Bytes) :
    NetworkState ι :=
  let (n, sends) := (s.nodes node).handleWireMessage env wire datagram.src
  -- What the ghosts record of the node: there is none when the datagram cannot be decoded.
  let hop := (fromWire wire).toList.map (Hop.mk node)
  { s with
    nodes := Function.update s.nodes node n
    queued := s.queued ++ sends.map fun item => ⟨node, item, trailOf (hop ++ datagram.trail) item⟩
    acted := if sends.isEmpty then s.acted else s.acted ++ hop.map (Acted.mk · datagram.trail)
    answered := s.answered ++ sends.filterMap (answer node (s.nodes node).redis) }

/-- A worker sends an element of a forward queue. -/
def send (W : Wiring ι) (s : NetworkState ι) (item : Queued ι) (sent : ℕ → Bool) : NetworkState ι :=
  let n := s.nodes item.node
  let datagram : SockaddrIn × Bytes → Datagram ι :=
    fun handed => ⟨W.address item.node, handed.1, handed.2, item.send.msg, item.trail⟩
  match item.send with
  | .direct addr msg on_success =>
    -- The callback runs only when the transport took the datagram.
    if sent 0 then
      { s with
        nodes := Function.update s.nodes item.node (n.onSuccess on_success)
        flight := s.flight ++ [datagram (addr, msg.toWire)] }
    else s
  | .broadcast msg exclude =>
    let (network, handed) := n.network.sendBroadcast (W.resolver item.node) msg exclude sent
    -- The transport may refuse the datagram of one entry and take that of the next.
    let emitted := handed.zipIdx.filterMap fun entry => if sent entry.2 then entry.1 else none
    { s with
      nodes := Function.update s.nodes item.node { n with network }
      flight := s.flight ++ emitted.map datagram }

/-- One step of the network. -/
def step (W : Wiring ι) (s : NetworkState ι) : Action ι → Option (NetworkState ι)
  | .deliver position node env =>
    s.flight[position]?.bind fun datagram =>
      if sameAddress (W.address node) datagram.dst then
        let s := { s with flight := s.flight.eraseIdx position }
        match UdpTransport.receive datagram.payload with
        | none => some s
        | some wire => some (s.handle node env datagram wire)
      else none
  | .lose position =>
    s.flight[position]?.map fun _ => { s with flight := s.flight.eraseIdx position }
  | .duplicate position =>
    s.flight[position]?.map fun datagram => { s with flight := s.flight ++ [datagram] }
  | .dispatch position sent =>
    s.queued[position]?.map fun item =>
      { s with queued := s.queued.eraseIdx position }.send W item sent
  | .dropQueued position =>
    s.queued[position]?.map fun _ => { s with queued := s.queued.eraseIdx position }
  | .work node env task =>
    let (n, sends) := (s.nodes node).runTask env task
    some { s with
      nodes := Function.update s.nodes node n
      queued := s.queued ++ sends.map fun send => ⟨node, send, []⟩ }

/-- The network at the start: the nodes as constructed, with empty Redis servers. -/
def init (configs : ι → Config) : NetworkState ι where
  nodes i := Node.construct (configs i) fun _ => none
  queued := []
  flight := []

/-- What holds of every node holds after one node is replaced. -/
theorem forall_node_update (P : ι → Node → Prop) {nodes : ι → Node} (h : ∀ i, P i (nodes i))
    {node : ι} {n : Node} (hn : P node n) (i : ι) : P i (Function.update nodes node n i) :=
  (Function.forall_update_iff nodes P).mpr ⟨hn, fun i _ => h i⟩ i

/-! ## What a step may do -/

/-- What a step may do, with the handlers replaced by what they may do. -/
inductive Stepped (W : Wiring ι) (s : NetworkState ι) : Action ι → NetworkState ι → Prop where
  /-- A node handles a datagram that arrives as `msg`. -/
  | deliver {position : ℕ} {node : ι} {env : Env} {datagram : Datagram ι} {msg : Message} {n : Node}
      {sends : List Send} (hmem : s.flight[position]? = some datagram)
      (haddress : sameAddress (W.address node) datagram.dst = true)
      (harrives : UdpTransport.arrives datagram.payload = some msg)
      (hhandled : Node.Handled (s.nodes node) msg datagram.src (n, sends)) :
      Stepped W s (.deliver position node env)
        { nodes := Function.update s.nodes node n
          queued := s.queued ++
            sends.map fun item => ⟨node, item, trailOf (⟨node, msg⟩ :: datagram.trail) item⟩
          flight := s.flight.eraseIdx position
          acted := if sends.isEmpty then s.acted else s.acted ++ [⟨⟨node, msg⟩, datagram.trail⟩]
          answered := s.answered ++ sends.filterMap (answer node (s.nodes node).redis) }
  /-- A datagram that cannot be decoded is delivered. -/
  | discard {position : ℕ} {node : ι} {env : Env} {datagram : Datagram ι}
      (hmem : s.flight[position]? = some datagram) :
      Stepped W s (.deliver position node env) { s with flight := s.flight.eraseIdx position }
  /-- A datagram is lost. -/
  | lose {position : ℕ} {datagram : Datagram ι} (hmem : s.flight[position]? = some datagram) :
      Stepped W s (.lose position) { s with flight := s.flight.eraseIdx position }
  /-- A datagram is duplicated. -/
  | duplicate {position : ℕ} {datagram : Datagram ι} (hmem : s.flight[position]? = some datagram) :
      Stepped W s (.duplicate position) { s with flight := s.flight ++ [datagram] }
  /-- A worker emits copies of the message of an element. -/
  | dispatch {position : ℕ} {sent : ℕ → Bool} {item : Queued ι} {n : Node}
      {emitted : List (Datagram ι)} (hmem : s.queued[position]? = some item)
      (hconfig : n.config = (s.nodes item.node).config)
      (hredis : n.redis = (s.nodes item.node).redis)
      (hreaches : n.network.reaches (W.resolver item.node) =
        (s.nodes item.node).network.reaches (W.resolver item.node))
      (hcopy : ∀ d ∈ emitted, d.payload = item.send.msg.toWire ∧ d.sent = item.send.msg ∧
        d.trail = item.trail)
      (hdst : ∀ d ∈ emitted, ∀ msg exclude, item.send = .broadcast msg exclude →
        some d.dst ∈ (s.nodes item.node).network.reaches (W.resolver item.node)) :
      Stepped W s (.dispatch position sent)
        { s with
          nodes := Function.update s.nodes item.node n
          queued := s.queued.eraseIdx position
          flight := s.flight ++ emitted }
  /-- An element is dropped. -/
  | dropQueued {position : ℕ} {item : Queued ι} (hmem : s.queued[position]? = some item) :
      Stepped W s (.dropQueued position) { s with queued := s.queued.eraseIdx position }
  /-- A node does a round of one of its own threads. -/
  | work {node : ι} {env : Env} {task : Node.Task} {n : Node} {sends : List Send}
      (hworked : Node.Worked (s.nodes node) task (n, sends)) :
      Stepped W s (.work node env task)
        { s with
          nodes := Function.update s.nodes node n
          queued := s.queued ++ sends.map fun item => ⟨node, item, []⟩ }

/-- What the delivery of a datagram may do. -/
theorem stepped_deliver {W : Wiring ι} {s : NetworkState ι} {position : ℕ} {node : ι} (env : Env)
    {datagram : Datagram ι} {wire : Bytes} (hmem : s.flight[position]? = some datagram)
    (haddress : sameAddress (W.address node) datagram.dst = true)
    (hwire : UdpTransport.receive datagram.payload = some wire) :
    Stepped W s (.deliver position node env)
      ({ s with flight := s.flight.eraseIdx position }.handle node env datagram wire) := by
  cases hmsg : fromWire wire with
  | none =>
    -- The node is replaced by itself, and the ghosts record nothing.
    have hnode : (s.nodes node).handleWireMessage env wire datagram.src = (s.nodes node, []) :=
      Node.handleWireMessage_of_none _ env _ hmsg
    have hsame : ({ s with flight := s.flight.eraseIdx position } : NetworkState ι).handle
        node env datagram wire = { s with flight := s.flight.eraseIdx position } := by
      simp [handle, hnode]
    rw [hsame]
    exact .discard hmem
  | some msg =>
    have harrives : UdpTransport.arrives datagram.payload = some msg := by
      rw [UdpTransport.arrives, hwire]
      exact hmsg
    have hhandled := Node.handled_wireMessage (s.nodes node) env datagram.src hmsg
    rcases hresult : (s.nodes node).handleWireMessage env wire datagram.src with ⟨n, sends⟩
    rw [hresult] at hhandled
    have h : Stepped W s (.deliver position node env) _ := .deliver hmem haddress harrives hhandled
    simpa only [handle, hresult, hmsg, Option.toList_some, List.map_cons, List.map_nil,
      List.cons_append, List.nil_append] using h

/-- A worker that sends nothing is a special case. -/
theorem stepped_send_nothing {W : Wiring ι} {s : NetworkState ι} {position : ℕ} (sent : ℕ → Bool)
    {item : Queued ι} (hmem : s.queued[position]? = some item) :
    Stepped W s (.dispatch position sent) { s with queued := s.queued.eraseIdx position } := by
  have h : Stepped W s (.dispatch position sent) _ := .dispatch hmem rfl rfl rfl
    (fun d hd => absurd hd List.not_mem_nil) (fun d hd => absurd hd List.not_mem_nil)
  simpa only [Function.update_eq_self, List.append_nil] using h

/-- What the sending of an element may do. -/
theorem stepped_send {W : Wiring ι} {s : NetworkState ι} {position : ℕ} (sent : ℕ → Bool)
    {item : Queued ι} (hmem : s.queued[position]? = some item) :
    Stepped W s (.dispatch position sent)
      ({ s with queued := s.queued.eraseIdx position }.send W item sent) := by
  cases hsend : item.send with
  | direct addr msg on_success =>
    cases hsent : sent 0 with
    | false =>
      simp only [send, hsend, hsent, Bool.false_eq_true, if_false]
      exact stepped_send_nothing sent hmem
    | true =>
      simp only [send, hsend, hsent, if_true]
      have hframe : ∀ n : Node, (n.onSuccess on_success).config = n.config ∧
          (n.onSuccess on_success).redis = n.redis ∧
          (n.onSuccess on_success).network = n.network := by
        intro n
        cases on_success <;> exact ⟨rfl, rfl, rfl⟩
      obtain ⟨hconfig, hredis, hnetwork⟩ := hframe (s.nodes item.node)
      refine .dispatch hmem hconfig hredis (by rw [hnetwork]) ?_ ?_
      · intro d hd
        obtain rfl := List.mem_singleton.mp hd
        simp [hsend, Send.msg]
      · intro d hd m exclude hbroadcast
        rw [hsend] at hbroadcast
        exact absurd hbroadcast (by simp)
  | broadcast msg exclude =>
    simp only [send, hsend]
    -- Every datagram emitted is an entry that the broadcast handed to the transport.
    have hhanded : ∀ handed ∈ (((s.nodes item.node).network.sendBroadcast (W.resolver item.node) msg
        exclude sent).2.zipIdx.filterMap fun entry => if sent entry.2 then entry.1 else none),
        some handed ∈ ((s.nodes item.node).network.sendBroadcast (W.resolver item.node) msg
          exclude sent).2 := by
      intro handed hmem'
      obtain ⟨⟨entry, i⟩, hentry, hsome⟩ := List.mem_filterMap.mp hmem'
      split_ifs at hsome
      rw [← hsome]
      exact List.fst_mem_of_mem_zipIdx hentry
    refine .dispatch hmem rfl rfl (UdpNetwork.reaches_sendBroadcast _ _ _ _ _) ?_ ?_
    · intro d hd
      obtain ⟨handed, hhanded', rfl⟩ := List.mem_map.mp hd
      obtain ⟨-, hpayload⟩ := UdpNetwork.mem_reaches_of_handed (hhanded handed hhanded')
      exact ⟨by rw [hpayload, hsend]; rfl, by rw [hsend], rfl⟩
    · intro d hd m x hbroadcast
      obtain ⟨handed, hhanded', rfl⟩ := List.mem_map.mp hd
      exact (UdpNetwork.mem_reaches_of_handed (hhanded handed hhanded')).1

/-- What a step may do. -/
theorem stepped_of_step {W : Wiring ι} {s s' : NetworkState ι} {a : Action ι}
    (h : step W s a = some s') : Stepped W s a s' := by
  cases a with
  | deliver position node env =>
    obtain ⟨datagram, hmem, h⟩ := Option.bind_eq_some_iff.mp h
    split_ifs at h with haddress
    cases hwire : UdpTransport.receive datagram.payload with
    | none =>
      obtain rfl : _ = s' := by simpa [hwire] using h
      exact .discard hmem
    | some wire =>
      obtain rfl : _ = s' := by simpa [hwire] using h
      exact stepped_deliver env hmem haddress hwire
  | lose position =>
    obtain ⟨datagram, hmem, rfl⟩ := Option.map_eq_some_iff.mp h
    exact .lose hmem
  | duplicate position =>
    obtain ⟨datagram, hmem, rfl⟩ := Option.map_eq_some_iff.mp h
    exact .duplicate hmem
  | dispatch position sent =>
    obtain ⟨item, hmem, rfl⟩ := Option.map_eq_some_iff.mp h
    exact stepped_send sent hmem
  | dropQueued position =>
    obtain ⟨item, hmem, rfl⟩ := Option.map_eq_some_iff.mp h
    exact .dropQueued hmem
  | work node env task =>
    obtain rfl := Option.some.inj h
    exact .work (Node.worked_runTask (s.nodes node) env task)

/-! ## Two peers -/

/-- Two nodes that know each other. -/
inductive Peer where
  /-- The node that is seeded. -/
  | server
  /-- The node that requests the key. -/
  | origin
deriving DecidableEq

/-- The host name of a peer, also its node id. -/
def Peer.host : Peer → Bytes
  | .server => ascii "server"
  | .origin => ascii "origin"

/-- The peer that a peer knows. -/
def Peer.other : Peer → Peer
  | .server => .origin
  | .origin => .server

/-- The address of a peer. -/
def Peer.address : Peer → SockaddrIn
  | .server => ⟨afInet, 9000, 2886860801⟩
  | .origin => ⟨afInet, 9000, 2886860802⟩

/-- The surroundings of the peers. -/
def peerWiring : Wiring Peer where
  address := Peer.address
  resolver _ :=
    { getaddrinfo := fun host _ =>
        if host = Peer.server.host then some Peer.server.address
        else if host = Peer.origin.host then some Peer.origin.address else none
      family := fun {host service addr} h => by
        split_ifs at h
        · rw [← Option.some.inj h]
          rfl
        · rw [← Option.some.inj h]
          rfl }

/-- The configuration of a peer: the server is seeded with a value under `k`. -/
def peerConfig (value : Bytes) (p : Peer) : Config where
  node_id := p.host
  config_source := []
  log_level := ascii "info"
  bind_ip := ascii "0.0.0.0"
  bind_port := 9000
  redis_socket := ascii "/tmp/redis.sock"
  neighbors := [⟨p.other.host, 9000⟩]
  seed_keys := match p with
    | .server => [⟨ascii "k", value⟩]
    | .origin => []
  request_keys := match p with
    | .server => []
    | .origin => [ascii "k"]

/-- The origin floods a Query-BF for `k`, the server answers, and the answer is delivered. -/
def pull : List (Action Peer) :=
  [.work .server { wall_ms := 1000 } (.seed 0),
    .work .origin { wall_ms := 1000 } (.request (ascii "k")),
    .work .origin { steady := 200000000, wall_ms := 1200 } .flushQueryBlooms,
    .dispatch 0 fun _ => true,
    .deliver 0 .server { wall_ms := 1201 },
    .dispatch 0 fun _ => true,
    .deliver 0 .origin { wall_ms := 1202 }]

end NetworkState

end Netos
