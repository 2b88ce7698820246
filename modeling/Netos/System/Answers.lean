import Netos.Node.OwnRequests
import Netos.System.Network

/-!
# Where answers go

A node answers a request or a Query-BF to the address that the datagram came from. When no node
relayed the datagram, that is the address of the node that wants the key: `answer_to_sender` says so
for every run, and also where the answer to a relayed request goes, which is the last relay. No
message carries the address of its origin, and no node keeps one, so the answer to a relayed request
does not reach the origin (`relayed_answer_misses_origin`).

The invariant is `Issued`. The trail of a datagram, a ghost, lists the nodes that relayed it: its
head sent the datagram, and a request with an empty trail carries the id of the node that sent it.
-/

namespace Netos

open CString

namespace NetworkState

variable {ι : Type*}

/-- A message asks for keys. -/
def Asks (msg : Message) : Prop := msg.type = .request ∨ msg.type = .queryBloom

/-- A node may send a request with this trail: it relayed it last, or, when nobody relayed it, it
issued the request in its own name. -/
def SentBy (configs : ι → Config) (node : ι) (msg : Message) : List (Hop ι) → Prop
  | [] => msg.origin = (configs node).node_id
  | hop :: _ => hop.node = node

/-- The invariant: every request that is queued or in flight was issued or relayed by the node that
sends it. -/
structure Issued (W : Wiring ι) (configs : ι → Config) (s : NetworkState ι) : Prop where
  /-- The configurations stay. -/
  config : ∀ i, (s.nodes i).config = configs i
  /-- What a node wants, it wants for itself. -/
  formed : ∀ i, (s.nodes i).Formed
  /-- A queued request. -/
  queued : ∀ q ∈ s.queued, Asks q.send.msg → SentBy configs q.node q.send.msg q.trail
  /-- A datagram is the encoding of a message. -/
  encoded : ∀ d ∈ s.flight, d.payload = d.sent.toWire
  /-- A request in flight. -/
  flight : ∀ d ∈ s.flight, Asks d.sent →
    ∃ o, d.src = W.address o ∧ SentBy configs o d.sent d.trail

/-- The datagrams that a worker emits come from the address of its node. -/
theorem src_of_send {W : Wiring ι} [DecidableEq ι] {s : NetworkState ι} {item : Queued ι}
    {sent : ℕ → Bool} {d : Datagram ι} (h : d ∈ (s.send W item sent).flight) :
    d ∈ s.flight ∨
      d.src = W.address item.node ∧ d.payload = d.sent.toWire ∧ d.sent = item.send.msg ∧
        d.trail = item.trail := by
  unfold send at h
  cases hsend : item.send with
  | direct addr msg on_success =>
    simp only [hsend] at h
    split_ifs at h with hsent
    · rcases List.mem_append.mp h with h | h
      · exact Or.inl h
      · obtain rfl := List.mem_singleton.mp h
        exact Or.inr ⟨rfl, rfl, rfl, rfl⟩
    · exact Or.inl h
  | broadcast msg exclude =>
    simp only [hsend] at h
    rcases List.mem_append.mp h with h | h
    · exact Or.inl h
    · obtain ⟨⟨addr, payload⟩, hmem, rfl⟩ := List.mem_map.mp h
      -- The payload is one that the broadcast handed to the transport.
      obtain ⟨⟨entry, i⟩, hentry, hsome⟩ := List.mem_filterMap.mp hmem
      split_ifs at hsome with hsent
      have hpayload := (UdpNetwork.mem_reaches_of_handed
        (hsome ▸ List.fst_mem_of_mem_zipIdx hentry)).2
      exact Or.inr ⟨rfl, hpayload, rfl, rfl⟩

variable [DecidableEq ι]

/-- Every node is well formed after a worker sent an element. -/
theorem formed_send {s : NetworkState ι} (h : ∀ i, (s.nodes i).Formed) (W : Wiring ι)
    (item : Queued ι) (sent : ℕ → Bool) (i : ι) : ((s.send W item sent).nodes i).Formed := by
  unfold send
  cases item.send with
  | direct addr msg on_success =>
    dsimp only
    split_ifs with hsent
    · exact forall_node_update (fun _ n => n.Formed) h ((h item.node).onSuccess on_success) i
    · exact h i
  | broadcast msg exclude =>
    have hnetwork : ∀ network, ({ s.nodes item.node with network } : Node).Formed :=
      fun network => (h item.node).of_wantsLess (.of_frame rfl rfl rfl rfl)
    exact forall_node_update (fun _ n => n.Formed) h (hnetwork _) i

/-- Every step leaves every node well formed. -/
theorem formed_step {W : Wiring ι} {s s' : NetworkState ι} {a : Action ι}
    (h : ∀ i, (s.nodes i).Formed) (hstep : step W s a = some s') (i : ι) :
    (s'.nodes i).Formed := by
  cases a with
  | deliver position node env =>
    obtain ⟨d, -, hstep⟩ := Option.bind_eq_some_iff.mp hstep
    split_ifs at hstep with haddress
    cases hwire : UdpTransport.receive d.payload with
    | none =>
      obtain rfl : _ = s' := by simpa [hwire] using hstep
      exact h i
    | some wire =>
      obtain rfl : _ = s' := by simpa [hwire] using hstep
      exact forall_node_update (fun _ n => n.Formed) h
        ((h node).handleWireMessage env wire d.src) i
  | lose position =>
    obtain ⟨d, -, rfl⟩ := Option.map_eq_some_iff.mp hstep
    exact h i
  | duplicate position =>
    obtain ⟨d, -, rfl⟩ := Option.map_eq_some_iff.mp hstep
    exact h i
  | dispatch position sent =>
    obtain ⟨item, -, rfl⟩ := Option.map_eq_some_iff.mp hstep
    exact formed_send (s := { s with queued := s.queued.eraseIdx position }) h W item sent i
  | dropQueued position =>
    obtain ⟨item, -, rfl⟩ := Option.map_eq_some_iff.mp hstep
    exact h i
  | work node env task =>
    obtain rfl := Option.some.inj hstep
    exact forall_node_update (fun _ n => n.Formed) h ((h node).runTask env task) i

omit [DecidableEq ι] in
/-- What a node queues on a datagram: an answer, or a relay that its trail records. -/
theorem sentBy_of_reply {configs : ι → Config} {n : Node} {msg : Message} {sender : SockaddrIn}
    {item : Send} (node : ι) (trail : List (Hop ι)) (hreply : Node.Reply n msg sender item)
    (hasks : Asks item.msg) :
    SentBy configs node item.msg (trailOf (⟨node, msg⟩ :: trail) item) := by
  cases hreply with
  | answer request_id key value on_success held => simp [Asks, Send.msg] at hasks
  | relay => exact rfl

omit [DecidableEq ι] in
/-- A step that changes the pools only, and nothing in them, keeps the invariant. -/
theorem Issued.of_pools {W : Wiring ι} {configs : ι → Config} {s : NetworkState ι}
    (h : Issued W configs s) {queued : List (Queued ι)} {flight : List (Datagram ι)}
    (hqueued : queued ⊆ s.queued) (hflight : flight ⊆ s.flight) :
    Issued W configs { s with queued, flight } where
  config := h.config
  formed := h.formed
  queued q hq := h.queued q (hqueued hq)
  encoded d hd := h.encoded d (hflight hd)
  flight d hd := h.flight d (hflight hd)

/-- Every step keeps the invariant. -/
theorem Issued.step {W : Wiring ι} {configs : ι → Config} {s s' : NetworkState ι} {a : Action ι}
    (h : Issued W configs s) (hstep : step W s a = some s') : Issued W configs s' := by
  have hformed := formed_step h.formed hstep
  cases stepped_of_step hstep with
  | @deliver position node env datagram msg n sends hmem haddress harrives hhandled =>
    refine ⟨?_, hformed, ?_, ?_, ?_⟩
    · exact forall_node_update (fun i m => m.config = configs i) h.config
        (hhandled.config.trans (h.config node))
    · refine List.forall_mem_append.mpr ⟨h.queued, List.forall_mem_map.mpr ?_⟩
      intro item hitem hasks
      obtain ⟨-, -, hreply⟩ := hhandled.sends item hitem
      exact sentBy_of_reply node datagram.trail hreply hasks
    · exact fun d hd => h.encoded d (List.mem_of_mem_eraseIdx hd)
    · exact fun d hd => h.flight d (List.mem_of_mem_eraseIdx hd)
  | discard hmem => exact h.of_pools (List.Subset.refl _) List.eraseIdx_subset
  | lose hmem => exact h.of_pools (List.Subset.refl _) List.eraseIdx_subset
  | duplicate hmem =>
    -- The copy was in flight before.
    refine h.of_pools (List.Subset.refl _) (List.append_subset.mpr ⟨List.Subset.refl _, ?_⟩)
    exact List.cons_subset.mpr ⟨List.mem_of_getElem? hmem, List.nil_subset _⟩
  | @dispatch position sent item n emitted hmem hconfig hredis hreaches hcopy hdst =>
    have hmem' : item ∈ s.queued := List.mem_of_getElem? hmem
    have hsent : NetworkState.step W s (.dispatch position sent) = some
        ({ s with queued := s.queued.eraseIdx position }.send W item sent) := by
      simp only [NetworkState.step, hmem, Option.map_some]
    have hflight : (s.flight ++ emitted) =
        ({ s with queued := s.queued.eraseIdx position }.send W item sent).flight :=
      congrArg NetworkState.flight (Option.some.inj (hstep.symm.trans hsent))
    refine ⟨?_, hformed, ?_, ?_, ?_⟩
    · exact forall_node_update (fun i m => m.config = configs i) h.config
        (hconfig.trans (h.config item.node))
    · exact fun q hq => h.queued q (List.mem_of_mem_eraseIdx hq)
    · intro d hd
      rw [hflight] at hd
      rcases src_of_send hd with hd | ⟨-, hpayload, -⟩
      · exact h.encoded d hd
      · exact hpayload
    · intro d hd hasks
      rw [hflight] at hd
      rcases src_of_send hd with hd | ⟨hsrc, -, hmsg, htrail⟩
      · exact h.flight d hd hasks
      · -- The element that is sent here was queued by the node.
        rw [hmsg] at hasks ⊢
        rw [htrail]
        exact ⟨item.node, hsrc, h.queued item hmem' hasks⟩
  | dropQueued hmem => exact h.of_pools List.eraseIdx_subset (List.Subset.refl _)
  | @work node env task n sends hworked =>
    have hsends : (n, sends) = (s.nodes node).runTask env task := by
      have hnode := congrArg (fun t => (t.nodes node, t.queued)) (Option.some.inj hstep)
      simp only [Function.update_self, Prod.mk.injEq, List.append_cancel_left_eq] at hnode
      refine Prod.ext hnode.1.symm (List.map_injective_iff.mpr ?_ hnode.2.symm)
      exact fun x y hxy => (Queued.mk.inj hxy).2.1
    refine ⟨?_, hformed, ?_, h.encoded, h.flight⟩
    · exact forall_node_update (fun i m => m.config = configs i) h.config
        (hworked.config.trans (h.config node))
    · refine List.forall_mem_append.mpr ⟨h.queued, List.forall_mem_map.mpr ?_⟩
      intro item hitem hasks
      have hitem' : item ∈ ((s.nodes node).runTask env task).2 := by rwa [← hsends]
      exact ((h.formed node).origin_of_runTask hitem' hasks).trans
        (congrArg Config.node_id (h.config node))

omit [DecidableEq ι] in
/-- The invariant holds at the start. -/
theorem Issued.init (W : Wiring ι) (configs : ι → Config) : Issued W configs (init configs) where
  config _ := rfl
  formed _ := Node.formed_construct _ _
  queued _ hq := absurd hq List.not_mem_nil
  encoded _ hd := absurd hd List.not_mem_nil
  flight _ hd := absurd hd List.not_mem_nil

/-- The claim about an answer: it goes to a node with the id that it names as the origin. -/
def AnswersReachOrigin (W : Wiring ι) (configs : ι → Config) : Prop :=
  ∀ (actions : List (Action ι)) (s : NetworkState ι) (position : ℕ) (node : ι) (env : Env)
    (d : Datagram ι) (wire : Bytes) (addr : SockaddrIn) (resp : Message)
    (on_success : Option (Bytes × Bytes)),
    Machine.run (step W) (init configs) actions = some s →
    s.flight[position]? = some d → sameAddress (W.address node) d.dst = true →
    UdpTransport.receive d.payload = some wire →
    .direct addr resp on_success ∈ ((s.nodes node).handleWireMessage env wire d.src).2 →
    ∃ o, (configs o).node_id = resp.origin ∧ addr = W.address o

/-- Where answers go. For any nodes, configurations, addresses and resolvers, in every run from the
start, with any loss, duplication and reordering: what a node sends directly when a datagram is
delivered to it is a `DATA` that names the origin of the request. When no node relayed the request,
it goes to the address of the node that issued it, with its id as the origin; the answer to a `REQ`
goes to the sender of the datagram, which is the last relay when there is one. -/
theorem answer_to_sender (W : Wiring ι) (configs : ι → Config) (actions : List (Action ι))
    (s : NetworkState ι) (hrun : Machine.run (step W) (init configs) actions = some s)
    (position : ℕ) (node : ι) (env : Env) (d : Datagram ι) (wire : Bytes) (addr : SockaddrIn)
    (resp : Message) (on_success : Option (Bytes × Bytes))
    (hmem : s.flight[position]? = some d) (hwire : UdpTransport.receive d.payload = some wire)
    (hanswer : .direct addr resp on_success ∈
      ((s.nodes node).handleWireMessage env wire d.src).2) :
    ∃ msg, fromWire wire = some msg ∧ resp.type = .data ∧ resp.origin = msg.origin ∧
      (d.trail = [] → ∃ o, (configs o).node_id = d.sent.origin ∧ addr = W.address o) ∧
      (msg.type = .request → addr = d.src ∧
        ∀ hop rest, d.trail = hop :: rest → addr = W.address hop.node) := by
  have hinv : Issued W configs s :=
    Machine.run_invariant (fun _ _ _ h hstep => h.step hstep) (Issued.init W configs) hrun
  have hmem' : d ∈ s.flight := List.mem_of_getElem? hmem
  cases hmsg : fromWire wire with
  | none =>
    rw [Node.handleWireMessage_of_none _ env _ hmsg] at hanswer
    exact absurd hanswer List.not_mem_nil
  | some msg =>
    obtain ⟨hasks, -, hreply⟩ :=
      (Node.handled_wireMessage (s.nodes node) env d.src hmsg).sends _ hanswer
    -- The type survives the cut, so a request was sent.
    have harrives : UdpTransport.arrives d.sent.toWire = some msg := by
      rw [← hinv.encoded d hmem', UdpTransport.arrives, hwire]
      exact hmsg
    have htype : msg.type = d.sent.type := UdpTransport.type_of_arrives harrives
    obtain ⟨o, hsrc, hsent⟩ := hinv.flight d hmem' (by rwa [Asks, ← htype])
    cases hreply with
    | answer request_id key value on_success held =>
      refine ⟨msg, rfl, rfl, rfl, fun htrail => ?_, fun _ => ⟨rfl, fun hop rest htrail => ?_⟩⟩
      · rw [htrail] at hsent
        exact ⟨o, hsent.symm, hsrc⟩
      · rw [htrail] at hsent
        rw [hsrc, show hop.node = o from hsent]

/-- The destination of an answer, with the origin that it names. -/
def answerOf : Send → Option (SockaddrIn × Bytes)
  | .direct addr resp _ => some (addr, resp.origin)
  | .broadcast .. => none

/-- The answers of a node when the datagram at a position is delivered to it. -/
def answersAt (W : Wiring ι) (s : NetworkState ι) (node : ι) (position : ℕ) :
    List (SockaddrIn × Bytes) :=
  match s.flight[position]? with
  | none => []
  | some d =>
    if sameAddress (W.address node) d.dst then
      match UdpTransport.receive d.payload with
      | none => []
      | some wire => ((s.nodes node).handleWireMessage {} wire d.src).2.filterMap answerOf
    else []

omit [DecidableEq ι] in
/-- An answer is sent on the delivery of a datagram. -/
theorem of_mem_answersAt {W : Wiring ι} {s : NetworkState ι} {node : ι} {position : ℕ}
    {addr : SockaddrIn} {name : Bytes} (h : (addr, name) ∈ answersAt W s node position) :
    ∃ d wire resp on_success, s.flight[position]? = some d ∧
      sameAddress (W.address node) d.dst = true ∧ UdpTransport.receive d.payload = some wire ∧
      .direct addr resp on_success ∈ ((s.nodes node).handleWireMessage {} wire d.src).2 ∧
      resp.origin = name := by
  unfold answersAt at h
  split at h
  · exact absurd h List.not_mem_nil
  · next d hd =>
    split_ifs at h with haddress
    · split at h
      · exact absurd h List.not_mem_nil
      · next wire hwire =>
        obtain ⟨item, hitem, hanswer⟩ := List.mem_filterMap.mp h
        cases item with
        | direct a resp on_success =>
          obtain ⟨rfl, rfl⟩ := Prod.mk.inj (Option.some.inj hanswer)
          exact ⟨d, wire, resp, on_success, hd, haddress, hwire, hitem, rfl⟩
        | broadcast m exclude => exact absurd hanswer (by simp [answerOf])
    · exact absurd h List.not_mem_nil

/-- The answer to the Query-BF of a peer, which no node relayed, goes to that peer. -/
theorem answer_to_sender_pull : ∃ (s : NetworkState Peer) (d : Datagram Peer) (wire : Bytes)
    (resp : Message) (on_success : Option (Bytes × Bytes)),
    Machine.run (step peerWiring) (init (peerConfig (ascii "a"))) (pull.take 4) = some s ∧
      .direct Peer.origin.address resp on_success ∈
        ((s.nodes .server).handleWireMessage {} wire d.src).2 ∧
      resp.type = .data ∧
      ∃ o, (peerConfig (ascii "a") o).node_id = d.sent.origin ∧
        Peer.origin.address = peerWiring.address o := by
  have hanswers : (Machine.run (step peerWiring) (init (peerConfig (ascii "a")))
      (pull.take 4)).map (fun s => (answersAt peerWiring s .server 0,
        s.flight.map fun d => d.trail.length)) =
        some ([(Peer.origin.address, Peer.origin.host)], [0]) := by
    decide +kernel
  obtain ⟨s, hrun, hs⟩ := Option.map_eq_some_iff.mp hanswers
  obtain ⟨hs, htrails⟩ := Prod.mk.inj hs
  obtain ⟨d, wire, resp, on_success, hmem, -, hwire, hsend, -⟩ :=
    of_mem_answersAt (hs ▸ List.mem_singleton.mpr rfl)
  have htrail : d.trail = [] := by
    have hlength : d.trail.length ∈ s.flight.map fun d => d.trail.length :=
      List.mem_map.mpr ⟨d, List.mem_of_getElem? hmem, rfl⟩
    rw [htrails] at hlength
    exact List.length_eq_zero_iff.mp (List.mem_singleton.mp hlength)
  obtain ⟨msg, -, htype, -, hdirect, -⟩ := answer_to_sender peerWiring _ _ s hrun 0 .server {} d
    wire _ resp on_success hmem hwire hsend
  exact ⟨s, d, wire, resp, on_success, hrun, hsend, htype, hdirect htrail⟩

/-! ## A line of three nodes -/

/-- Three nodes in a line. -/
inductive Line where
  /-- The node that has the key. -/
  | server
  /-- The node between. -/
  | relay
  /-- The node that wants the key. -/
  | origin
deriving DecidableEq

/-- The host name of a node, also its node id. -/
def Line.host : Line → Bytes
  | .server => ascii "server"
  | .relay => ascii "relay"
  | .origin => ascii "origin"

/-- The address of a node. -/
def Line.address : Line → SockaddrIn
  | .server => ⟨afInet, 9000, 2886860801⟩
  | .relay => ⟨afInet, 9000, 2886860802⟩
  | .origin => ⟨afInet, 9000, 2886860803⟩

/-- The surroundings of the line. -/
def lineWiring : Wiring Line where
  address := Line.address
  resolver _ :=
    { getaddrinfo := fun host _ =>
        ([.server, .relay, .origin].find? fun p : Line => p.host = host).map Line.address
      family := fun {host service addr} h => by
        obtain ⟨p, -, rfl⟩ := Option.map_eq_some_iff.mp h
        cases p <;> rfl }

/-- The configuration of a node of the line. The filters for summaries have eight bits, so that the
relay's key `s` looks like `k`. -/
def lineConfig (p : Line) : Config where
  node_id := p.host
  config_source := []
  log_level := ascii "info"
  bind_ip := ascii "0.0.0.0"
  bind_port := 9000
  redis_socket := ascii "/tmp/redis.sock"
  neighbors := match p with
    | .relay => [⟨Line.server.host, 9000⟩, ⟨Line.origin.host, 9000⟩]
    | _ => [⟨Line.relay.host, 9000⟩]
  seed_keys := match p with
    | .server => [⟨ascii "k", ascii "v"⟩]
    | .relay => [⟨ascii "s", ascii "w"⟩]
    | .origin => []
  request_keys := match p with
    | .origin => [ascii "k"]
    | _ => []
  content_bf_bits := 8
  content_bf_hashes := 1

/-- The relay sends its summary, the origin asks it for `k`, and the relay passes the request on. -/
def relayed : List (Action Line) :=
  [.work .server { wall_ms := 1000 } (.seed 0),
    .work .relay { wall_ms := 1000 } (.seed 0),
    .work .relay { wall_ms := 1000 } .exchangeContentBloom,
    .dispatch 0 fun _ => true,
    .deliver 1 .origin { wall_ms := 1001 },
    .work .origin { wall_ms := 1002 } (.request (ascii "k")),
    .dispatch 0 fun _ => true,
    .deliver 1 .relay { wall_ms := 1003 },
    .dispatch 0 fun _ => true]

/-- The answer to a relayed request misses the origin: it goes to the relay, which has another id.
All three configurations are valid. -/
theorem relayed_answer_misses_origin :
    (∀ p, validateConfig (lineConfig p) = .ok ()) ∧
      ¬ AnswersReachOrigin lineWiring lineConfig := by
  have hanswers : (Machine.run (step lineWiring) (init lineConfig) relayed).map
      (fun s => answersAt lineWiring s .server 1) =
        some [(Line.relay.address, Line.origin.host)] := by
    decide +kernel
  obtain ⟨s, hrun, hs⟩ := Option.map_eq_some_iff.mp hanswers
  obtain ⟨d, wire, resp, on_success, hmem, haddress, hwire, hsend, horigin⟩ :=
    of_mem_answersAt (hs ▸ List.mem_singleton.mpr rfl)
  refine ⟨fun p => ?_, fun hclaim => ?_⟩
  · rw [validateConfig_eq_ok_iff, Config.valid_iff]
    cases p <;> decide +kernel
  · obtain ⟨o, hid, haddr⟩ := hclaim relayed s 1 .server {} d wire _ resp on_success hrun hmem
      haddress hwire hsend
    rw [horigin] at hid
    cases o with
    | server => exact absurd haddr (by decide)
    | relay => exact absurd hid (by decide)
    | origin => exact absurd haddr (by decide)

end NetworkState

end Netos
