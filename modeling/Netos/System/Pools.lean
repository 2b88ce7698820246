import Mathlib.Data.Set.BooleanAlgebra
import Mathlib.Order.CompletePartialOrder
import Netos.System.Network

/-!
# Invariants of the pools

Many invariants of a network say one thing of every node, one of everything that waits in a forward
queue and one of every datagram in flight, each with an eye on what is seen of the other nodes, and
what is seen of a node only grows. `Kept` says what the handlers have to do for such a property, and
`Pools.run` that it then holds in every run. A handler is looked at once, with one node and one
datagram; loss, duplication, reordering and the rest of the network are settled here.
-/

namespace Netos

open CString

namespace NetworkState

variable {ι : Type*} {V : Type*}

/-- A property of the nodes, of what they queue and of what is in flight. The first argument of each
is what is seen of all nodes. -/
structure Pools (ι V : Type*) where
  /-- What is seen of a node. -/
  view : Node → V
  /-- The property of a node. -/
  node : (ι → V) → ι → Node → Prop
  /-- The property of what a node queues. -/
  send : (ι → V) → ι → Send → Prop
  /-- The property of a datagram. -/
  datagram : (ι → V) → Datagram ι → Prop

/-- What is seen of the nodes of a state. -/
def Pools.views (p : Pools ι V) (s : NetworkState ι) (i : ι) : V := p.view (s.nodes i)

/-- The property of a state. -/
structure Pools.Hold (p : Pools ι V) (s : NetworkState ι) : Prop where
  /-- It holds of every node. -/
  nodes : ∀ i, p.node (p.views s) i (s.nodes i)
  /-- It holds of everything queued. -/
  queued : ∀ q ∈ s.queued, p.send (p.views s) q.node q.send
  /-- It holds of everything in flight. -/
  flight : ∀ d ∈ s.flight, p.datagram (p.views s) d

/-- A datagram as a node emits it for what it queued. -/
structure Emitted (W : Wiring ι) (i : ι) (n : Node) (send : Send) (d : Datagram ι) : Prop where
  /-- It comes from the node. -/
  src : d.src = W.address i
  /-- It goes to the address, or to a neighbor. -/
  dst : match send with
    | .direct addr _ _ => d.dst = addr
    | .broadcast _ _ => some d.dst ∈ n.network.reaches (W.resolver i)
  /-- It is the message on the wire. -/
  payload : d.payload = send.msg.toWire
  /-- It is the message. -/
  sent : d.sent = send.msg

/-- A node is what a datagram, a round of its own threads or the sending of an element made of it.
This holds of the node that a step is about, and of every other one, as the last case may change
nothing. -/
inductive Became (W : Wiring ι) (s s' : NetworkState ι) (a : Action ι) (i : ι) : Prop where
  /-- It handled a datagram. -/
  | handled {position : ℕ} {env : Env} {d : Datagram ι} {wire : Bytes}
      (haction : a = .deliver position i env) (hmem : s.flight[position]? = some d)
      (haddress : sameAddress (W.address i) d.dst = true)
      (hwire : UdpTransport.receive d.payload = some wire)
      (hnode : s'.nodes i = ((s.nodes i).handleWireMessage env wire d.src).1)
  /-- It did a round. -/
  | worked {env : Env} {task : Node.Task} (haction : a = .work i env task)
      (hnode : s'.nodes i = ((s.nodes i).runTask env task).1)
      (hqueued : ∀ send ∈ ((s.nodes i).runTask env task).2, ⟨i, send, []⟩ ∈ s'.queued)
  /-- It sent an element, at most. -/
  | sent (network : UdpNetwork) (sync_table : SyncTable)
      (hreaches : network.reaches (W.resolver i) = (s.nodes i).network.reaches (W.resolver i))
      (hnode : s'.nodes i = { s.nodes i with network, sync_table })

variable [Preorder V] [DecidableEq ι]

/-- A node after a handler, and what the handler queued, have the property when the node had it. -/
def Pools.Good (p : Pools ι V) (views : ι → V) (i : ι) (n : Node) (r : Node × List Send) : Prop :=
  p.view n ≤ p.view r.1 ∧ p.node (Function.update views i (p.view r.1)) i r.1 ∧
    ∀ send ∈ r.2, p.send (Function.update views i (p.view r.1)) i send

/-- What is to be shown of the handlers, for the actions that meet a guard. -/
structure Pools.Kept (p : Pools ι V) (W : Wiring ι) (guard : Action ι → Prop) : Prop where
  /-- More may be seen of the nodes. -/
  node_mono : ∀ {views views' : ι → V} {i n}, views ≤ views' → p.node views i n →
    p.node views' i n
  /-- More may be seen of the nodes. -/
  send_mono : ∀ {views views' : ι → V} {i send}, views ≤ views' → p.send views i send →
    p.send views' i send
  /-- More may be seen of the nodes. -/
  datagram_mono : ∀ {views views' : ι → V} {d}, views ≤ views' → p.datagram views d →
    p.datagram views' d
  /-- A datagram is handled. -/
  receive : ∀ {views : ι → V} {position i env n datagram wire},
    guard (.deliver position i env) → sameAddress (W.address i) datagram.dst = true →
      views i = p.view n → p.node views i n → p.datagram views datagram →
        UdpTransport.receive datagram.payload = some wire →
          p.Good views i n (n.handleWireMessage env wire datagram.src)
  /-- A round of a node's own threads. -/
  work : ∀ {views : ι → V} {i env task n}, guard (.work i env task) → views i = p.view n →
    p.node views i n → p.Good views i n (n.runTask env task)
  /-- Sending changes nothing of this in the node, and not the addresses of its neighbors. -/
  sent : ∀ {views : ι → V} {i n} (network : UdpNetwork) (sync_table : SyncTable),
    network.reaches (W.resolver i) = n.network.reaches (W.resolver i) → p.node views i n →
      p.view { n with network, sync_table } = p.view n ∧
        p.node views i { n with network, sync_table }
  /-- What is queued is sent. -/
  emit : ∀ {views : ι → V} {i n send d}, p.node views i n → p.send views i send →
    Emitted W i n send d → p.datagram views d

variable {p : Pools ι V} {W : Wiring ι} {guard : Action ι → Prop} {s s' : NetworkState ι}

omit [Preorder V] [DecidableEq ι] in
/-- Elements may leave the pools. -/
theorem Pools.Hold.of_pools (h : p.Hold s) {queued : List (Queued ι)} {flight : List (Datagram ι)}
    (hqueued : queued ⊆ s.queued) (hflight : flight ⊆ s.flight) :
    p.Hold { s with queued, flight } :=
  ⟨h.nodes, fun q hq => h.queued q (hqueued hq), fun d hd => h.flight d (hflight hd)⟩

omit [Preorder V] in
/-- What is seen when a node is replaced. -/
theorem Pools.views_update (p : Pools ι V) (s : NetworkState ι) (i : ι) (n : Node)
    (queued : List (Queued ι)) (flight : List (Datagram ι)) (acted : List (Acted ι))
    (answered : List (Answered ι)) :
    p.views ⟨Function.update s.nodes i n, queued, flight, acted, answered⟩ =
      Function.update (p.views s) i (p.view n) := by
  funext j
  exact Function.apply_update (fun _ => p.view) s.nodes i n j

/-- A node is replaced by what a handler made of it. -/
theorem Pools.Hold.handled (h : p.Hold s) (hkept : p.Kept W guard) {i : ι} {r : Node × List Send}
    (hgood : p.Good (p.views s) i (s.nodes i) r) {trail : Send → List (Hop ι)}
    {acted : List (Acted ι)} {answered : List (Answered ι)} :
    p.Hold ⟨Function.update s.nodes i r.1, s.queued ++ r.2.map fun item => ⟨i, item, trail item⟩,
      s.flight, acted, answered⟩ := by
  obtain ⟨hgrows, hnode, hsends⟩ := hgood
  have hviews : p.views s ≤ Function.update (p.views s) i (p.view r.1) :=
    le_update_self_iff.mpr hgrows
  refine ⟨fun j => ?_, fun q hq => ?_, fun d hd => ?_⟩
  · rw [p.views_update]
    exact forall_node_update (p.node _) (fun j => hkept.node_mono hviews (h.nodes j)) hnode j
  · rw [p.views_update]
    rcases List.mem_append.mp hq with hq | hq
    · exact hkept.send_mono hviews (h.queued q hq)
    · obtain ⟨item, hitem, rfl⟩ := List.mem_map.mp hq
      exact hsends item hitem
  · rw [p.views_update]
    exact hkept.datagram_mono hviews (h.flight d hd)

/-- A node is replaced by one that differs in what sending changes, and copies of a message are
emitted. -/
theorem Pools.Hold.emitted (h : p.Hold s) (hkept : p.Kept W guard) {item : Queued ι}
    (hitem : p.send (p.views s) item.node item.send) {network : UdpNetwork}
    (hreaches : network.reaches (W.resolver item.node) =
      (s.nodes item.node).network.reaches (W.resolver item.node)) (sync_table : SyncTable)
    {emitted : List (Datagram ι)}
    (hemitted : ∀ d ∈ emitted, Emitted W item.node (s.nodes item.node) item.send d) :
    p.Hold { s with
      nodes := Function.update s.nodes item.node { s.nodes item.node with network, sync_table }
      flight := s.flight ++ emitted } := by
  obtain ⟨hview, hnode⟩ := hkept.sent network sync_table hreaches (h.nodes item.node)
  have hviews : ∀ (queued : List (Queued ι)) (flight : List (Datagram ι)) acted answered,
      p.views ⟨Function.update s.nodes item.node { s.nodes item.node with network, sync_table },
        queued, flight, acted, answered⟩ = p.views s := by
    intro queued flight acted answered
    rw [p.views_update, hview]
    exact Function.update_eq_self _ _
  refine ⟨?_, fun q hq => ?_, fun d hd => ?_⟩
  · rw [hviews]
    exact forall_node_update (p.node (p.views s)) h.nodes hnode
  · rw [hviews]
    exact h.queued q hq
  · rw [hviews]
    rcases List.mem_append.mp hd with hd | hd
    · exact h.flight d hd
    · exact hkept.emit (h.nodes item.node) hitem (hemitted d hd)

/-- A node sends an element of its queue. -/
theorem Pools.Hold.send (h : p.Hold s) (hkept : p.Kept W guard) {item : Queued ι}
    (hitem : p.send (p.views s) item.node item.send) (sent : ℕ → Bool) :
    p.Hold (s.send W item sent) := by
  cases hsend : item.send with
  | direct addr msg on_success =>
    obtain ⟨sync_table, hnode⟩ : ∃ sync_table, (s.nodes item.node).onSuccess on_success =
        { s.nodes item.node with sync_table } := by
      cases on_success with
      | none => exact ⟨(s.nodes item.node).sync_table, rfl⟩
      | some entry => exact ⟨_, rfl⟩
    simp only [NetworkState.send, hsend]
    split_ifs
    · rw [hnode]
      refine h.emitted hkept hitem rfl sync_table fun d hd => ?_
      rw [List.mem_singleton.mp hd, hsend]
      exact ⟨rfl, rfl, rfl, rfl⟩
    · exact h
  | broadcast msg exclude =>
    simp only [NetworkState.send, hsend]
    refine h.emitted hkept hitem (UdpNetwork.reaches_sendBroadcast _ _ _ _ _)
      (s.nodes item.node).sync_table fun d hd => ?_
    obtain ⟨handed, hhanded, rfl⟩ := List.mem_map.mp hd
    obtain ⟨⟨entry, i⟩, hentry, hsome⟩ := List.mem_filterMap.mp hhanded
    split_ifs at hsome
    -- Every datagram is a copy of the message.
    have hmem : some handed ∈ ((s.nodes item.node).network.sendBroadcast (W.resolver item.node) msg
        exclude sent).2 := hsome ▸ List.fst_mem_of_mem_zipIdx hentry
    obtain ⟨hreach, hpayload⟩ := UdpNetwork.mem_reaches_of_handed hmem
    rw [hsend]
    exact ⟨rfl, hreach, hpayload, rfl⟩

/-- Sending replaces the topology and the sync table of a node, at most, and no address. -/
theorem nodes_send (W : Wiring ι) (s : NetworkState ι) (item : Queued ι) (sent : ℕ → Bool) :
    ∃ network sync_table, UdpNetwork.reaches (W.resolver item.node) network =
        (s.nodes item.node).network.reaches (W.resolver item.node) ∧
      (s.send W item sent).nodes =
        Function.update s.nodes item.node { s.nodes item.node with network, sync_table } := by
  have hsame : s.nodes = Function.update s.nodes item.node (s.nodes item.node) :=
    (Function.update_eq_self _ _).symm
  cases hsend : item.send with
  | direct addr msg on_success =>
    simp only [NetworkState.send, hsend]
    split_ifs
    · cases on_success with
      | none => exact ⟨_, _, rfl, rfl⟩
      | some entry => exact ⟨_, _, rfl, rfl⟩
    · exact ⟨_, _, rfl, hsame⟩
  | broadcast msg exclude =>
    simp only [NetworkState.send, hsend]
    exact ⟨_, _, UdpNetwork.reaches_sendBroadcast _ _ _ _ _, rfl⟩

/-- What a step makes of a node. -/
theorem became_of_step {a : Action ι} (hstep : step W s a = some s') (i : ι) :
    Became W s s' a i := by
  have hsame : s'.nodes i = s.nodes i → Became W s s' a i := fun h => .sent _ _ rfl h
  cases a with
  | deliver position node env =>
    obtain ⟨d, hmem, hstep⟩ := Option.bind_eq_some_iff.mp hstep
    split_ifs at hstep with haddress
    cases hwire : UdpTransport.receive d.payload with
    | none =>
      obtain rfl : _ = s' := by simpa [hwire] using hstep
      exact hsame rfl
    | some wire =>
      obtain rfl : _ = s' := by simpa [hwire] using hstep
      by_cases hi : i = node
      · subst hi
        exact .handled rfl hmem haddress hwire (Function.update_self _ _ _)
      · exact hsame (Function.update_of_ne hi _ _)
  | lose position =>
    obtain ⟨d, -, rfl⟩ := Option.map_eq_some_iff.mp hstep
    exact hsame rfl
  | duplicate position =>
    obtain ⟨d, -, rfl⟩ := Option.map_eq_some_iff.mp hstep
    exact hsame rfl
  | dispatch position sent =>
    obtain ⟨item, -, rfl⟩ := Option.map_eq_some_iff.mp hstep
    obtain ⟨network, sync_table, hreaches, hnodes⟩ :=
      nodes_send W { s with queued := s.queued.eraseIdx position } item sent
    by_cases hi : i = item.node
    · subst hi
      refine .sent network sync_table hreaches ?_
      rw [hnodes, Function.update_self]
    · refine hsame ?_
      rw [hnodes, Function.update_of_ne hi]
  | dropQueued position =>
    obtain ⟨item, -, rfl⟩ := Option.map_eq_some_iff.mp hstep
    exact hsame rfl
  | work node env task =>
    obtain rfl := Option.some.inj hstep
    by_cases hi : i = node
    · subst hi
      refine .worked rfl (Function.update_self _ _ _) fun send hsend => ?_
      exact List.mem_append_right _ (List.mem_map.mpr ⟨send, hsend, rfl⟩)
    · exact hsame (Function.update_of_ne hi _ _)

/-- What is seen of the nodes only grows. -/
theorem Pools.Hold.views_le (h : p.Hold s) (hkept : p.Kept W guard) {a : Action ι}
    (hguard : guard a) (hstep : NetworkState.step W s a = some s') : p.views s ≤ p.views s' := by
  intro i
  show p.view (s.nodes i) ≤ p.view (s'.nodes i)
  cases became_of_step hstep i with
  | handled haction hmem haddress hwire hnode =>
    rw [hnode]
    rw [haction] at hguard
    exact (hkept.receive hguard haddress rfl (h.nodes i) (h.flight _ (List.mem_of_getElem? hmem))
      hwire).1
  | worked haction hnode hqueued =>
    rw [hnode]
    rw [haction] at hguard
    exact (hkept.work hguard rfl (h.nodes i)).1
  | sent network sync_table hreaches hnode =>
    rw [hnode]
    exact (hkept.sent network sync_table hreaches (h.nodes i)).1.ge

/-- Every step that meets the guard keeps the property. -/
theorem Pools.Hold.step (h : p.Hold s) (hkept : p.Kept W guard) {a : Action ι} (hguard : guard a)
    (hstep : NetworkState.step W s a = some s') : p.Hold s' := by
  cases a with
  | deliver position node env =>
    obtain ⟨datagram, hmem, hstep⟩ := Option.bind_eq_some_iff.mp hstep
    have htaken : p.Hold { s with flight := s.flight.eraseIdx position } :=
      h.of_pools (List.Subset.refl _) List.eraseIdx_subset
    split_ifs at hstep with haddress
    cases hwire : UdpTransport.receive datagram.payload with
    | none =>
      obtain rfl : _ = s' := by simpa [hwire] using hstep
      exact htaken
    | some wire =>
      obtain rfl : _ = s' := by simpa [hwire] using hstep
      exact htaken.handled hkept (hkept.receive hguard haddress rfl (h.nodes node)
        (h.flight datagram (List.mem_of_getElem? hmem)) hwire)
  | lose position =>
    obtain ⟨datagram, hmem, rfl⟩ := Option.map_eq_some_iff.mp hstep
    exact h.of_pools (List.Subset.refl _) List.eraseIdx_subset
  | duplicate position =>
    obtain ⟨datagram, hmem, rfl⟩ := Option.map_eq_some_iff.mp hstep
    refine h.of_pools (List.Subset.refl _) (List.append_subset.mpr ⟨List.Subset.refl _, ?_⟩)
    exact List.cons_subset.mpr ⟨List.mem_of_getElem? hmem, List.nil_subset _⟩
  | dispatch position sent =>
    obtain ⟨item, hmem, rfl⟩ := Option.map_eq_some_iff.mp hstep
    have htaken : p.Hold { s with queued := s.queued.eraseIdx position } :=
      h.of_pools List.eraseIdx_subset (List.Subset.refl _)
    exact htaken.send hkept (h.queued item (List.mem_of_getElem? hmem)) sent
  | dropQueued position =>
    obtain ⟨item, hmem, rfl⟩ := Option.map_eq_some_iff.mp hstep
    exact h.of_pools List.eraseIdx_subset (List.Subset.refl _)
  | work node env task =>
    obtain rfl := Option.some.inj hstep
    exact h.handled hkept (hkept.work hguard rfl (h.nodes node))

/-- So does every run. -/
theorem Pools.Hold.run (h : p.Hold s) (hkept : p.Kept W guard) {actions : List (Action ι)}
    (hguard : ∀ a ∈ actions, guard a)
    (hrun : Machine.run (NetworkState.step W) s actions = some s') : p.Hold s' :=
  Machine.Guarded.invariant (fun _ _ _ h hguard hstep => Pools.Hold.step h hkept hguard hstep) h
    (Machine.Guarded.of_forall_mem hguard s) hrun

end NetworkState

end Netos
