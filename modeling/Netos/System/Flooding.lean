import Netos.Lib.Flood
import Netos.System.Network

/-!
# Flooding is contained

A request or a Query-BF makes every node that receives it send more, but with a hop limit that is
counted down. `flooding_contained` says what follows, for any nodes and any state: without new
messages, every sequence of deliveries, losses and steps of the forward queues is finite; and a copy
relayed `h` times from the node that received it first, with the limit `T`, arrives with `T - h`, so
no node acts on it that is more than `T - 1` hops away.

The first part is a descent: the rank of a datagram is twice the hops that it has left, the rank of
an element of a forward queue is one more, and a step replaces one of them by smaller ones. The
second part is an invariant about the trails.
-/

namespace Netos

open CString UdpTransport

namespace NetworkState

variable {ι : Type*}

/-! ## Descent -/

/-- The hops that a datagram has left: those of a request or a Query-BF. -/
def hopsLeft (payload : Bytes) : ℕ :=
  match arrives payload with
  | none => 0
  | some msg => if msg.type = .request ∨ msg.type = .queryBloom then msg.ttl.toInt.toNat else 0

/-- The rank of a datagram. -/
def rank (datagram : Datagram ι) : ℕ := 2 * hopsLeft datagram.payload

/-- The rank of an element of a forward queue: more than the rank of the datagrams it becomes. -/
def queuedRank (item : Queued ι) : ℕ := 2 * hopsLeft item.send.msg.toWire + 1

/-- The ranks of everything that is queued or in flight. -/
def ranks (s : NetworkState ι) : Multiset ℕ :=
  (s.queued.map queuedRank : List ℕ) + (s.flight.map rank : List ℕ)

/-- The steps that bring nothing new: a datagram is delivered or lost, or an element of a forward
queue is sent or dropped. -/
def Contained : Action ι → Prop
  | .deliver .. | .lose _ | .dispatch .. | .dropQueued _ => True
  | .duplicate _ | .work .. => False

/-- What a node sends on a datagram has fewer hops left than the datagram. -/
theorem hopsLeft_reply_lt {n : Node} {payload : Bytes} {msg : Message} {sender : SockaddrIn}
    {item : Send} (harrives : arrives payload = some msg)
    (htype : msg.type = .request ∨ msg.type = .queryBloom) (hpos : 0 < msg.ttl)
    (hreply : Node.Reply n msg sender item) : hopsLeft item.msg.toWire < hopsLeft payload := by
  have hpos' : 0 < msg.ttl.toInt := toInt_pos hpos
  have hbefore : hopsLeft payload = msg.ttl.toInt.toNat := by
    rw [hopsLeft, harrives]
    exact if_pos htype
  -- An answer has no hops left, a relay one less.
  rw [hbefore]
  cases hreply with
  | answer request_id key value on_success held =>
    -- However the answer arrives, it is a `DATA`.
    have hafter : hopsLeft (Send.direct sender ⟨.data, request_id, msg.origin,
        n.config.request_ttl, key, value⟩ on_success).msg.toWire = 0 := by
      unfold hopsLeft
      split
      · rfl
      · next m hm =>
        have hdata : m.type = .data := type_of_arrives hm
        rw [if_neg (by rw [hdata]; decide)]
    rw [hafter]
    omega
  | relay =>
    have hafter : hopsLeft (Send.broadcast { msg with ttl := msg.ttl - 1 } (some sender)).msg.toWire
        = (msg.ttl - 1).toInt.toNat := by
      rw [hopsLeft, Send.msg, arrives_relay harrives htype hpos]
      exact if_pos htype
    rw [hafter, toInt_sub_one hpos]
    omega

/-- A datagram that is taken away may be replaced by elements of forward queues of lower rank. -/
theorem cutExpand_of_take_flight {s s' : NetworkState ι} {position : ℕ} {datagram : Datagram ι}
    {new : List (Queued ι)} (hmem : s.flight[position]? = some datagram)
    (hnew : ∀ q ∈ new, queuedRank q < rank datagram) (hqueued : s'.queued = s.queued ++ new)
    (hflight : s'.flight = s.flight.eraseIdx position) :
    Relation.CutExpand (· < ·) (ranks s') (ranks s) := by
  have hnew' : ∀ k ∈ (new.map queuedRank : Multiset ℕ), k < rank datagram := by
    intro k hk
    obtain ⟨q, hq, rfl⟩ := List.mem_map.mp (Multiset.mem_coe.mp hk)
    exact hnew q hq
  have hcut := Flood.cutExpand_pool rank hmem hnew' (s.queued.map queuedRank : List ℕ)
  have hbefore : ranks s = (s.flight.map rank : List ℕ) + (s.queued.map queuedRank : List ℕ) :=
    add_comm _ _
  have hafter : ranks s' = ((s.flight.eraseIdx position).map rank : List ℕ) +
      (new.map queuedRank : List ℕ) + (s.queued.map queuedRank : List ℕ) := by
    rw [ranks, hqueued, hflight, List.map_append, ← Multiset.coe_add]
    ac_rfl
  rw [hbefore, hafter]
  exact hcut

/-- An element of a forward queue that is taken away may be replaced by datagrams of lower rank. -/
theorem cutExpand_of_take_queued {s s' : NetworkState ι} {position : ℕ} {item : Queued ι}
    {new : List (Datagram ι)} (hmem : s.queued[position]? = some item)
    (hnew : ∀ d ∈ new, rank d < queuedRank item) (hflight : s'.flight = s.flight ++ new)
    (hqueued : s'.queued = s.queued.eraseIdx position) :
    Relation.CutExpand (· < ·) (ranks s') (ranks s) := by
  have hnew' : ∀ k ∈ (new.map rank : Multiset ℕ), k < queuedRank item := by
    intro k hk
    obtain ⟨d, hd, rfl⟩ := List.mem_map.mp (Multiset.mem_coe.mp hk)
    exact hnew d hd
  have hcut := Flood.cutExpand_pool queuedRank hmem hnew' (s.flight.map rank : List ℕ)
  have hafter : ranks s' = ((s.queued.eraseIdx position).map queuedRank : List ℕ) +
      (new.map rank : List ℕ) + (s.flight.map rank : List ℕ) := by
    rw [ranks, hqueued, hflight, List.map_append, ← Multiset.coe_add]
    ac_rfl
  rw [hafter]
  exact hcut

variable [DecidableEq ι]

/-- Every step that brings nothing new replaces one rank by smaller ones. -/
theorem ranks_step {W : Wiring ι} {s s' : NetworkState ι} {a : Action ι} (hcontained : Contained a)
    (hstep : step W s a = some s') : Relation.CutExpand (· < ·) (ranks s') (ranks s) := by
  have hnone : ∀ {α : Type _} {P : α → Prop}, ∀ x ∈ ([] : List α), P x :=
    fun x hx => absurd hx List.not_mem_nil
  cases stepped_of_step hstep with
  | deliver hmem haddress harrives hhandled =>
    refine cutExpand_of_take_flight hmem (fun q hq => ?_) rfl rfl
    obtain ⟨item, hitem, rfl⟩ := List.mem_map.mp hq
    obtain ⟨htype, hpos, hreply⟩ := hhandled.sends item hitem
    have hlt := hopsLeft_reply_lt harrives htype hpos hreply
    simp only [queuedRank, rank]
    omega
  | discard hmem => exact cutExpand_of_take_flight hmem hnone (List.append_nil _).symm rfl
  | lose hmem => exact cutExpand_of_take_flight hmem hnone (List.append_nil _).symm rfl
  | duplicate hmem => exact absurd hcontained not_false
  | dispatch hmem hconfig hredis hreaches hcopy hdst =>
    refine cutExpand_of_take_queued hmem (fun d hd => ?_) rfl rfl
    obtain ⟨hpayload, -, -⟩ := hcopy d hd
    simp only [queuedRank, rank, hpayload]
    omega
  | dropQueued hmem => exact cutExpand_of_take_queued hmem hnone (List.append_nil _).symm rfl
  | work hworked => exact absurd hcontained not_false

/-- No sequence of steps that bring nothing new is infinite. -/
theorem not_infinite_of_contained (W : Wiring ι) :
    ¬ ∃ (states : ℕ → NetworkState ι) (actions : ℕ → Action ι),
      ∀ n, Contained (actions n) ∧ step W (states n) (actions n) = some (states (n + 1)) :=
  Machine.not_infinite_of_measure wellFounded_lt.cutExpand ranks
    fun _ _ _ hcontained hstep => ranks_step hcontained hstep

/-! ## Trails -/

/-- A node may send to another: a broadcast of the one uses the address of the other. -/
def Linked (W : Wiring ι) (s : NetworkState ι) (a b : ι) : Prop :=
  ∃ addr, some addr ∈ (s.nodes a).network.reaches (W.resolver a) ∧
    sameAddress (W.address b) addr = true

/-- The steps that leave the topologies as they are: all but a reload. -/
def KeepsTopology : Action ι → Prop
  | .work _ _ (.reloadTopology _) => False
  | _ => True

/-- The same state with empty trails and logs, from where trails are followed. -/
def unmarked (s : NetworkState ι) : NetworkState ι :=
  { s with
    queued := s.queued.map fun q => { q with trail := [] }
    flight := s.flight.map fun d => { d with trail := [] }
    acted := []
    answered := [] }

/-- A trail: every node decoded a copy of the message of the node before it, with hops left. -/
structure Trail (link : ι → ι → Prop) (trail : List (Hop ι)) : Prop where
  /-- There were hops left. -/
  alive : ∀ hop ∈ trail, 0 < hop.msg.ttl
  /-- Every node relayed to the next. -/
  copied : trail.IsChain (Flood.Copied Hop.node Hop.content Hop.limit link)

/-- The invariant: what is queued or in flight with a trail was relayed by the latest node of it. -/
structure Flooded (W : Wiring ι) (link : ι → ι → Prop) (s : NetworkState ι) : Prop where
  /-- The links stay. -/
  linked : ∀ a b, Linked W s a b → link a b
  /-- A relay in a forward queue will arrive as what the node relays. -/
  queued : ∀ q ∈ s.queued, ∀ hop rest, q.trail = hop :: rest → Trail link q.trail ∧
    q.node = hop.node ∧ (∃ msg exclude, q.send = .broadcast msg exclude) ∧
    arrives q.send.msg.toWire = some hop.relayed
  /-- A relay in flight will arrive as what the node relayed, and at a linked node. -/
  flight : ∀ d ∈ s.flight, ∀ hop rest, d.trail = hop :: rest → Trail link d.trail ∧
    arrives d.payload = some hop.relayed ∧
    ∀ node, sameAddress (W.address node) d.dst = true → link hop.node node
  /-- A node that acted is on a trail itself. -/
  acted : ∀ e ∈ s.acted, Trail link (e.hop :: e.trail)

omit [DecidableEq ι] in
/-- A node that has hops left when a copy arrives extends the trail. -/
theorem Flooded.extend {W : Wiring ι} {link : ι → ι → Prop} {s : NetworkState ι}
    (h : Flooded W link s) {datagram : Datagram ι} {node : ι} {msg : Message}
    (hmem : datagram ∈ s.flight) (haddress : sameAddress (W.address node) datagram.dst = true)
    (harrives : arrives datagram.payload = some msg) (hpos : 0 < msg.ttl) :
    Trail link (⟨node, msg⟩ :: datagram.trail) := by
  cases htrail : datagram.trail with
  | nil => exact ⟨by simpa using hpos, List.isChain_singleton _⟩
  | cons hop rest =>
    -- What arrived is what the latest node of the trail relayed.
    obtain ⟨htrail', hrelayed, hlink⟩ := h.flight datagram hmem hop rest htrail
    rw [htrail] at htrail'
    obtain rfl : hop.relayed = msg := Option.some.inj (hrelayed.symm.trans harrives)
    have halive : 0 < hop.msg.ttl := htrail'.alive hop List.mem_cons_self
    refine ⟨List.forall_mem_cons.mpr ⟨hpos, htrail'.alive⟩, ?_⟩
    exact List.isChain_cons_cons.mpr
      ⟨⟨hlink node haddress, rfl, toInt_sub_one halive⟩, htrail'.copied⟩

omit [DecidableEq ι] in
/-- A step that changes the pools only, and nothing in them, keeps the invariant. -/
theorem Flooded.of_pools {W : Wiring ι} {link : ι → ι → Prop} {s : NetworkState ι}
    (h : Flooded W link s) {queued : List (Queued ι)} {flight : List (Datagram ι)}
    (hqueued : queued ⊆ s.queued) (hflight : flight ⊆ s.flight) :
    Flooded W link { s with queued, flight } where
  linked := h.linked
  queued q hq := h.queued q (hqueued hq)
  flight d hd := h.flight d (hflight hd)
  acted := h.acted

/-- A node that is replaced by one with the same addresses keeps its links. -/
theorem Flooded.linked_update {W : Wiring ι} {link : ι → ι → Prop} {s : NetworkState ι}
    (h : Flooded W link s) {node : ι} {n : Node}
    (hreaches : n.network.reaches (W.resolver node) =
      (s.nodes node).network.reaches (W.resolver node)) (a b : ι) (addr : SockaddrIn)
    (hmem : some addr ∈ (Function.update s.nodes node n a).network.reaches (W.resolver a))
    (haddress : sameAddress (W.address b) addr = true) : link a b := by
  refine forall_node_update (fun a m => some addr ∈ m.network.reaches (W.resolver a) → link a b)
    (fun a hmem => h.linked a b ⟨addr, hmem, haddress⟩) (fun hmem => ?_) a hmem
  rw [hreaches] at hmem
  exact h.linked node b ⟨addr, hmem, haddress⟩

/-- Every step that leaves the topologies keeps the invariant. -/
theorem Flooded.step {W : Wiring ι} {link : ι → ι → Prop} {s s' : NetworkState ι} {a : Action ι}
    (h : Flooded W link s) (hkeeps : KeepsTopology a) (hstep : step W s a = some s') :
    Flooded W link s' := by
  cases stepped_of_step hstep with
  | @deliver position node env datagram msg n sends hmem haddress harrives hhandled =>
    have hmem' : datagram ∈ s.flight := List.mem_of_getElem? hmem
    have hnetwork : n.network = (s.nodes node).network := hhandled.network
    have hextend : 0 < msg.ttl → Trail link (⟨node, msg⟩ :: datagram.trail) :=
      h.extend hmem' haddress harrives
    refine ⟨?_, ?_, fun d hd => h.flight d (List.mem_of_mem_eraseIdx hd), ?_⟩
    · rintro a b ⟨addr, hreach, haddr⟩
      exact h.linked_update (by rw [hnetwork]) a b addr hreach haddr
    · -- An answer has no trail, and a relay has the trail with this node in front.
      intro q hq hop rest htrail
      rcases List.mem_append.mp hq with hq | hq
      · exact h.queued q hq hop rest htrail
      · obtain ⟨item, hitem, rfl⟩ := List.mem_map.mp hq
        obtain ⟨htype, hpos, hreply⟩ := hhandled.sends item hitem
        cases hreply with
        | answer => exact absurd htrail (List.cons_ne_nil hop rest).symm
        | relay =>
          obtain ⟨rfl, rfl⟩ := List.cons.inj htrail
          exact ⟨hextend hpos, rfl, ⟨_, _, rfl⟩, arrives_relay harrives htype hpos⟩
    · -- Something was sent, so there were hops left.
      intro e he
      dsimp only at he
      split_ifs at he with hempty
      · exact h.acted e he
      · rcases List.mem_append.mp he with he | he
        · exact h.acted e he
        · obtain rfl := List.mem_singleton.mp he
          obtain ⟨item, hitem⟩ := List.exists_mem_of_ne_nil sends (by simpa using hempty)
          exact hextend (hhandled.sends item hitem).2.1
  | discard hmem => exact h.of_pools (List.Subset.refl _) List.eraseIdx_subset
  | lose hmem => exact h.of_pools (List.Subset.refl _) List.eraseIdx_subset
  | duplicate hmem =>
    refine h.of_pools (List.Subset.refl _) (List.append_subset.mpr ⟨List.Subset.refl _, ?_⟩)
    exact List.cons_subset.mpr ⟨List.mem_of_getElem? hmem, List.nil_subset _⟩
  | @dispatch position sent item n emitted hmem hconfig hredis hreaches hcopy hdst =>
    -- A copy of a relay goes to an address that the node's broadcasts use, so it crosses a link.
    have hmem' : item ∈ s.queued := List.mem_of_getElem? hmem
    refine ⟨?_, fun q hq => h.queued q (List.mem_of_mem_eraseIdx hq), ?_, h.acted⟩
    · rintro a b ⟨addr, hreach, haddr⟩
      exact h.linked_update hreaches a b addr hreach haddr
    · intro d hd hop rest htrail
      rcases List.mem_append.mp hd with hd | hd
      · exact h.flight d hd hop rest htrail
      · obtain ⟨hpayload, -, hsame⟩ := hcopy d hd
        rw [hsame] at htrail ⊢
        obtain ⟨htrail', hnode, ⟨msg, exclude, hbroadcast⟩, hrelayed⟩ :=
          h.queued item hmem' hop rest htrail
        refine ⟨htrail', by rw [hpayload]; exact hrelayed, fun node haddress => ?_⟩
        rw [← hnode]
        exact h.linked item.node node ⟨d.dst, hdst d hd msg exclude hbroadcast, haddress⟩
  | dropQueued hmem => exact h.of_pools List.eraseIdx_subset (List.Subset.refl _)
  | @work node env task n sends hworked =>
    have hnetwork : n.network = (s.nodes node).network := by
      rcases hworked.network with hsame | ⟨neighbors, rfl⟩
      · exact hsame
      · exact absurd hkeeps not_false
    refine ⟨?_, ?_, h.flight, h.acted⟩
    · rintro a b ⟨addr, hreach, haddr⟩
      exact h.linked_update (by rw [hnetwork]) a b addr hreach haddr
    · intro q hq hop rest htrail
      rcases List.mem_append.mp hq with hq | hq
      · exact h.queued q hq hop rest htrail
      · obtain ⟨item, -, rfl⟩ := List.mem_map.mp hq
        exact absurd htrail (List.cons_ne_nil hop rest).symm

omit [DecidableEq ι] in
/-- The invariant holds before anything was relayed. -/
theorem Flooded.unmarked (W : Wiring ι) (s : NetworkState ι) :
    Flooded W (Linked W s) s.unmarked := by
  refine ⟨fun _ _ h => h, fun q hq hop rest htrail => ?_, fun d hd hop rest htrail => ?_,
    fun e he => absurd he List.not_mem_nil⟩
  · obtain ⟨q, -, rfl⟩ := List.mem_map.mp hq
    exact absurd htrail (List.cons_ne_nil hop rest).symm
  · obtain ⟨d, -, rfl⟩ := List.mem_map.mp hd
    exact absurd htrail (List.cons_ne_nil hop rest).symm

/-- Flooding is contained. For any nodes, addresses and resolvers:

* From any state, no sequence of deliveries, losses and steps of the forward queues is infinite.
* In every run in which the topologies stay, from any state in which trails start: a copy in flight
  that was relayed `h` times since the node `r` arrives as what `r` decoded, with a hop limit lower
  by `h`; and a node that serves or relays a copy of what `r` decoded is reached from `r` in fewer
  hops than the limit that `r` decoded. -/
theorem flooding_contained (W : Wiring ι) :
    (¬ ∃ (states : ℕ → NetworkState ι) (actions : ℕ → Action ι),
      ∀ n, Contained (actions n) ∧ step W (states n) (actions n) = some (states (n + 1))) ∧
    ∀ (s₀ : NetworkState ι) (actions : List (Action ι)) (s : NetworkState ι),
      (∀ a ∈ actions, KeepsTopology a) → Machine.run (step W) s₀.unmarked actions = some s →
        (∀ d ∈ s.flight, ∀ r, d.trail.getLast? = some r → 0 < r.limit ∧
          ∃ msg, arrives d.payload = some msg ∧ { msg with ttl := 0 } = r.content ∧
            msg.ttl.toInt = r.limit - d.trail.length) ∧
        ∀ e ∈ s.acted, ∀ r, (e.hop :: e.trail).getLast? = some r → e.hop.content = r.content ∧
          e.hop.limit = r.limit - e.trail.length ∧
          ∃ h : ℕ, (h : ℤ) ≤ r.limit - 1 ∧ Flood.Hops (Linked W s₀) r.node h e.hop.node := by
  refine ⟨not_infinite_of_contained W, fun s₀ actions s hkeeps hrun => ?_⟩
  have hinv : Flooded W (Linked W s₀) s :=
    Machine.Guarded.invariant (fun _ _ _ h hkeeps hstep => Flooded.step h hkeeps hstep)
      (Flooded.unmarked W s₀) (Machine.Guarded.of_forall_mem hkeeps _) hrun
  constructor
  · intro d hd r hr
    obtain ⟨hop, rest, htrail⟩ : ∃ hop rest, d.trail = hop :: rest :=
      List.exists_cons_of_ne_nil fun hnil => by simp [hnil] at hr
    obtain ⟨htrail', hrelayed, -⟩ := hinv.flight d hd hop rest htrail
    rw [htrail] at htrail' hr
    obtain ⟨-, hcontent, hlimit⟩ := Flood.Copied.hops htrail'.copied hr
    have hpos : 0 < r.limit := toInt_pos (htrail'.alive r (List.mem_of_getLast? hr))
    refine ⟨hpos, hop.relayed, hrelayed, hcontent, ?_⟩
    have hnext : hop.relayed.ttl.toInt = hop.limit - 1 :=
      toInt_sub_one (htrail'.alive hop List.mem_cons_self)
    rw [hnext, hlimit, htrail, List.length_cons]
    push_cast
    omega
  · intro e he r hr
    have htrail : Trail (Linked W s₀) (e.hop :: e.trail) := hinv.acted e he
    obtain ⟨hhops, hcontent, hlimit⟩ := Flood.Copied.hops htrail.copied hr
    have hpos : 0 < e.hop.limit := toInt_pos (htrail.alive e.hop List.mem_cons_self)
    exact ⟨hcontent, hlimit, e.trail.length, by omega, hhops⟩

/-- The pull up to its answer, with the relay of the Query-BF sent too. -/
def relay : List (Action Peer) := pull.take 5 ++ [.dispatch 1 fun _ => true]

/-- The Query-BF of the origin, decoded by the server with limit 3 and relayed once, arrives with
limit 2. -/
theorem flooding_contained_relay : ∃ s,
    Machine.run (step peerWiring) (init (peerConfig [])).unmarked relay = some s ∧
      ∃ d ∈ s.flight, ∃ msg, arrives d.payload = some msg ∧ msg.ttl.toInt = 2 := by
  have hlimits : (Machine.run (step peerWiring) (init (peerConfig [])).unmarked relay).map
      (fun s => s.flight.map fun d => d.trail.map Hop.limit) = some [[3]] := by decide +kernel
  obtain ⟨s, hrun, hflight⟩ := Option.map_eq_some_iff.mp hlimits
  obtain ⟨d, hd, htrail⟩ := List.map_eq_singleton_iff.mp hflight
  obtain ⟨r, hr, hlimit⟩ := List.map_eq_singleton_iff.mp htrail
  have hmem : d ∈ s.flight := by simp [hd]
  have hkeeps : ∀ a ∈ relay, KeepsTopology a := by simp [relay, pull, KeepsTopology]
  obtain ⟨-, msg, harrives, -, hmsg⟩ :=
    ((flooding_contained peerWiring).2 _ relay s hkeeps hrun).1 d hmem r (by simp [hr])
  refine ⟨s, hrun, d, hmem, msg, harrives, ?_⟩
  rw [hmsg, hlimit, hr]
  rfl

end NetworkState

end Netos
