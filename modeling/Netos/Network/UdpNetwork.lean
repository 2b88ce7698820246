import Netos.Core.Message
import Netos.Lib.Machine
import Netos.Network.Address

/-!
# Broadcasts

`network/udp_network.cpp`: the topology of a node, and sending to it. An entry is resolved when
something is sent to it and keeps its address, so `send_broadcast` compares the excluded address
with an entry that may still be zero. `broadcast_exact_iff` says when a broadcast reaches exactly
the neighbors other than the excluded one: when no entry that is still zero stands for a neighbor
that the comparison would have told apart.
-/

namespace Netos

open CString

/-- `UdpNetwork`: the topology. The mutex makes the operations below atomic. -/
structure UdpNetwork where
  /-- The topology, with the addresses resolved so far. -/
  topology : Topology

namespace UdpNetwork

/-- A network without neighbors. -/
def empty : UdpNetwork := ⟨⟨[]⟩⟩

/-- `set_topology`. -/
def setTopology (_ : UdpNetwork) (topology : Topology) : UdpNetwork := ⟨topology⟩

/-- `send_to_neighbor`, with the outcome `sent` of the transport: the entry, the datagram handed to
the transport, and the result. -/
def sendToNeighbor (R : Resolver) (neighbor : NeighborAddress) (msg : Message) (sent : Bool) :
    NeighborAddress × Option (SockaddrIn × Bytes) × Bool :=
  if neighbor.addr.sin_family = 0 then
    match resolveAddress R neighbor.host neighbor.port with
    | none => (neighbor, none, false)
    | some addr => ({ neighbor with addr }, some (addr, msg.toWire), sent)
  else (neighbor, some (neighbor.addr, msg.toWire), sent)

/-- The test of the loop of `send_broadcast`: the entry is excluded. -/
def excluded (exclude : Option SockaddrIn) (addr : SockaddrIn) : Bool :=
  match exclude with
  | none => false
  | some x => sameAddress addr x

/-- One round of the loop of `send_broadcast`: the entry and the datagram handed to the transport.
The result of the sending is not looked at. -/
def broadcastTo (R : Resolver) (msg : Message) (exclude : Option SockaddrIn) (sent : Bool)
    (neighbor : NeighborAddress) : NeighborAddress × Option (SockaddrIn × Bytes) :=
  -- The test sees the address held so far, which is zero before the first sending.
  if excluded exclude neighbor.addr then (neighbor, none)
  else
    let (neighbor, handed, _) := sendToNeighbor R neighbor msg sent
    (neighbor, handed)

/-- `send_broadcast`, with the transport's outcome for each entry: the network, and for each entry
the datagram handed to the transport, if any. -/
def sendBroadcast (R : Resolver) (net : UdpNetwork) (msg : Message) (exclude : Option SockaddrIn)
    (sent : ℕ → Bool) : UdpNetwork × List (Option (SockaddrIn × Bytes)) :=
  let rounds := net.topology.neighbors.mapIdx fun i n => broadcastTo R msg exclude (sent i) n
  (⟨⟨rounds.map Prod.fst⟩⟩, rounds.map Prod.snd)

/-! ## What a broadcast should do -/

/-- The address that an entry stands for, whether it was resolved yet or not. -/
def target (R : Resolver) (neighbor : NeighborAddress) : Option SockaddrIn :=
  resolveAddress R neighbor.host neighbor.port

/-- What an entry should be handed: the message, if its address resolves and is not excluded. -/
def due (R : Resolver) (msg : Message) (exclude : Option SockaddrIn) (neighbor : NeighborAddress) :
    Option (SockaddrIn × Bytes) :=
  match target R neighbor with
  | none => none
  | some addr => if excluded exclude addr then none else some (addr, msg.toWire)

/-- The condition of an exact broadcast: an entry that is not resolved yet is told from the excluded
address, or not, as its resolved address would be. -/
def Distinguished (R : Resolver) (net : UdpNetwork) (exclude : Option SockaddrIn) : Prop :=
  ∀ neighbor ∈ net.topology.neighbors, neighbor.addr.sin_family = 0 →
    ∀ addr, target R neighbor = some addr → excluded exclude addr = excluded exclude {}

/-! ## What a broadcast does -/

/-- The address that a broadcast uses for an entry: the one it holds, or the one it resolves to. -/
def reach (R : Resolver) (neighbor : NeighborAddress) : Option SockaddrIn :=
  if neighbor.addr.sin_family = 0 then target R neighbor else some neighbor.addr

/-- The addresses that the broadcasts of a network use. -/
def reaches (R : Resolver) (net : UdpNetwork) : List (Option SockaddrIn) :=
  net.topology.neighbors.map (reach R)

/-- A round does not change the address of an entry. -/
theorem reach_broadcastTo (R : Resolver) (msg : Message) (exclude : Option SockaddrIn) (sent : Bool)
    (neighbor : NeighborAddress) :
    reach R (broadcastTo R msg exclude sent neighbor).1 = reach R neighbor := by
  unfold broadcastTo sendToNeighbor
  split_ifs with hexcluded hfamily
  · rfl
  · -- An entry that is resolved here holds from now on what it resolves to.
    cases haddr : resolveAddress R neighbor.host neighbor.port with
    | none => rfl
    | some addr =>
      rw [reach, reach, if_neg (resolveAddress_family haddr), if_pos hfamily]
      exact haddr.symm
  · rfl

/-- What a round hands over: the message, to the address of the entry. -/
theorem reach_of_handed {R : Resolver} {msg : Message} {exclude : Option SockaddrIn} {sent : Bool}
    {neighbor : NeighborAddress} {addr : SockaddrIn} {payload : Bytes}
    (h : (broadcastTo R msg exclude sent neighbor).2 = some (addr, payload)) :
    reach R neighbor = some addr ∧ payload = msg.toWire := by
  unfold broadcastTo sendToNeighbor at h
  split_ifs at h with hexcluded hfamily
  · cases haddr : resolveAddress R neighbor.host neighbor.port with
    | none => simp [haddr] at h
    | some resolved =>
      obtain ⟨rfl, rfl⟩ : resolved = addr ∧ msg.toWire = payload := by simpa [haddr] using h
      exact ⟨by rw [reach, if_pos hfamily]; exact haddr, rfl⟩
  · obtain ⟨rfl, rfl⟩ : neighbor.addr = addr ∧ msg.toWire = payload := by simpa using h
    exact ⟨by rw [reach, if_neg hfamily], rfl⟩

/-- A broadcast does not change the addresses. -/
theorem reaches_sendBroadcast (R : Resolver) (net : UdpNetwork) (msg : Message)
    (exclude : Option SockaddrIn) (sent : ℕ → Bool) :
    (net.sendBroadcast R msg exclude sent).1.reaches R = net.reaches R := by
  refine List.ext_getElem (by simp [sendBroadcast, reaches]) fun i hi hi' => ?_
  simp only [sendBroadcast, reaches, List.getElem_map, List.getElem_mapIdx]
  exact reach_broadcastTo R msg exclude (sent i) _

/-- What a broadcast hands over: the message, to the addresses of entries. -/
theorem mem_reaches_of_handed {R : Resolver} {net : UdpNetwork} {msg : Message}
    {exclude : Option SockaddrIn} {sent : ℕ → Bool} {addr : SockaddrIn} {payload : Bytes}
    (h : some (addr, payload) ∈ (net.sendBroadcast R msg exclude sent).2) :
    some addr ∈ net.reaches R ∧ payload = msg.toWire := by
  obtain ⟨round, hround, hhanded⟩ := List.mem_map.mp h
  obtain ⟨i, hi, rfl⟩ := List.mem_mapIdx.mp hround
  obtain ⟨hreach, hpayload⟩ := reach_of_handed hhanded
  exact ⟨List.mem_map.mpr ⟨_, List.getElem_mem hi, hreach⟩, hpayload⟩

/-! ## Runs -/

/-- What is done to a network. -/
inductive Call where
  /-- `set_topology` with what `build_topology` makes of a configuration. -/
  | setTopology (neighbors : List NeighborConfig)
  /-- `send_broadcast`, with the outcomes of the transport. -/
  | sendBroadcast (msg : Message) (exclude : Option SockaddrIn) (sent : ℕ → Bool)

/-- One call. -/
def step (R : Resolver) (net : UdpNetwork) : Call → Option UdpNetwork
  | .setTopology neighbors => some (net.setTopology (buildTopology neighbors))
  | .sendBroadcast msg exclude sent => some (net.sendBroadcast R msg exclude sent).1

/-- An entry is zero, or it holds the address that it stands for. -/
def Settled (R : Resolver) (neighbor : NeighborAddress) : Prop :=
  neighbor.addr = {} ∨ neighbor.addr.sin_family ≠ 0 ∧ target R neighbor = some neighbor.addr

/-- One round keeps an entry settled, under the same host and port. -/
theorem Settled.broadcastTo {R : Resolver} {neighbor : NeighborAddress} (h : Settled R neighbor)
    (msg : Message) (exclude : Option SockaddrIn) (sent : Bool) :
    Settled R (UdpNetwork.broadcastTo R msg exclude sent neighbor).1 := by
  unfold UdpNetwork.broadcastTo sendToNeighbor
  split_ifs with hexcluded hfamily
  · exact h
  · -- The entry is resolved now, or stays zero when that fails.
    cases htarget : resolveAddress R neighbor.host neighbor.port with
    | none => exact h
    | some addr => exact Or.inr ⟨resolveAddress_family htarget, htarget⟩
  · exact h

/-- All entries are settled. -/
def AllSettled (R : Resolver) (net : UdpNetwork) : Prop :=
  ∀ neighbor ∈ net.topology.neighbors, Settled R neighbor

/-- A call keeps all entries settled. -/
theorem AllSettled.step {R : Resolver} {net net' : UdpNetwork} {call : Call}
    (h : AllSettled R net) (hstep : step R net call = some net') : AllSettled R net' := by
  cases call with
  | setTopology neighbors =>
    -- `build_topology` leaves every entry zero.
    obtain rfl := Option.some.inj hstep
    intro n hn
    obtain ⟨config, -, rfl⟩ := List.mem_map.mp hn
    exact Or.inl rfl
  | sendBroadcast msg exclude sent =>
    obtain rfl := Option.some.inj hstep
    intro n hn
    obtain ⟨round, hround, rfl⟩ := List.mem_map.mp hn
    obtain ⟨i, hi, rfl⟩ := List.mem_mapIdx.mp hround
    exact (h _ (List.getElem_mem hi)).broadcastTo msg exclude (sent i)

/-- In every state that calls reach, all entries are settled. -/
theorem allSettled_of_run {R : Resolver} {calls : List Call} {net : UdpNetwork}
    (hrun : Machine.run (step R) empty calls = some net) : AllSettled R net :=
  Machine.run_invariant (fun _ _ _ h hstep => AllSettled.step h hstep)
    (fun _ hn => absurd hn List.not_mem_nil) hrun

/-- What one round hands over, against what is due: they agree unless the entry is still zero,
resolves, and the test tells its address from the zero address. -/
theorem broadcastTo_eq_due_iff {R : Resolver} {neighbor : NeighborAddress}
    (h : Settled R neighbor) (msg : Message) (exclude : Option SockaddrIn) (sent : Bool) :
    (broadcastTo R msg exclude sent neighbor).2 = due R msg exclude neighbor ↔
      (neighbor.addr.sin_family = 0 → ∀ addr, target R neighbor = some addr →
        excluded exclude addr = excluded exclude {}) := by
  rcases h with hzero | ⟨hfamily, htarget⟩
  · -- Not resolved yet: the test sees the zero address, `due` sees the target.
    have hfamily : neighbor.addr.sin_family = 0 := by rw [hzero]
    have hround : (broadcastTo R msg exclude sent neighbor).2 =
        if excluded exclude {} then none
        else (target R neighbor).map fun addr => (addr, msg.toWire) := by
      unfold broadcastTo sendToNeighbor
      rw [hzero]
      split_ifs with hexcluded
      · rfl
      · cases htarget : target R neighbor with
        | none => rw [show resolveAddress R neighbor.host neighbor.port = none from htarget]; rfl
        | some addr =>
          rw [show resolveAddress R neighbor.host neighbor.port = some addr from htarget]; rfl
      · contradiction
    rw [hround, due]
    cases htarget : target R neighbor with
    | none => simp
    | some addr =>
      cases excluded exclude {} <;> cases ha : excluded exclude addr <;> simp [hfamily, ha]
  · -- Resolved: the entry holds its target.
    have hround : (broadcastTo R msg exclude sent neighbor).2 = due R msg exclude neighbor := by
      unfold broadcastTo sendToNeighbor due
      rw [htarget, if_neg hfamily]
      cases hx : excluded exclude neighbor.addr <;> simp [hx]
    exact iff_of_true hround fun hcontra => absurd hcontra hfamily

/-- When a broadcast reaches exactly the neighbors other than the excluded one. After any sequence
of `set_topology` and `send_broadcast` calls, for any outcomes of the transport, a broadcast hands
every entry what is due to it, and nothing else, if and only if every entry that is not resolved yet
is told from the excluded address, or not, as its resolved address would be. -/
theorem broadcast_exact_iff (R : Resolver) (calls : List Call) (net : UdpNetwork)
    (hrun : Machine.run (step R) empty calls = some net) (msg : Message)
    (exclude : Option SockaddrIn) (sent : ℕ → Bool) :
    (net.sendBroadcast R msg exclude sent).2 = net.topology.neighbors.map (due R msg exclude) ↔
      Distinguished R net exclude := by
  have hsettled : AllSettled R net := allSettled_of_run hrun
  -- Both sides are lists over the entries, so they agree when they agree at every entry.
  constructor
  · intro heq neighbor hmem
    obtain ⟨i, hi, rfl⟩ := List.getElem_of_mem hmem
    have hentry := congrArg (fun rounds => rounds[i]?) heq
    simp only [sendBroadcast, List.getElem?_map, List.getElem?_mapIdx, List.getElem?_eq_getElem hi,
      Option.map_some, Option.some.injEq] at hentry
    exact (broadcastTo_eq_due_iff (hsettled _ hmem) msg exclude (sent i)).mp hentry
  · intro hdistinguished
    refine List.ext_getElem (by simp [sendBroadcast]) fun i hi hi' => ?_
    have hlt : i < net.topology.neighbors.length := by simpa using hi'
    have hmem : net.topology.neighbors[i] ∈ net.topology.neighbors := List.getElem_mem hlt
    simp only [sendBroadcast, List.getElem_map, List.getElem_mapIdx]
    exact (broadcastTo_eq_due_iff (hsettled _ hmem) msg exclude (sent i)).mpr
      (hdistinguished _ hmem)

/-- The address of the neighbor `b`. -/
def addressOfB : SockaddrIn := ⟨afInet, 9000, 2886860802⟩

/-- A resolver that knows `b` only. -/
def resolverOfB : Resolver where
  getaddrinfo host _ := if host = ascii "b" then some addressOfB else none
  family {host service addr} h := by
    split_ifs at h
    obtain rfl := Option.some.inj h
    rfl

/-- The neighbor `b` of a configuration. -/
def neighborB : NeighborConfig := ⟨ascii "b", 9000⟩

/-- A request that came from `b`. -/
def requestFromB : Message := ⟨.request, ascii "b-1", ascii "b", 2, ascii "k", []⟩

/-- Once `b` is resolved, a broadcast that excludes it leaves it out. -/
theorem broadcast_exact_iff_resolved :
    ∃ net, Machine.run (step resolverOfB) empty
        [.setTopology [neighborB], .sendBroadcast requestFromB none fun _ => true] = some net ∧
      (net.sendBroadcast resolverOfB requestFromB (some addressOfB) fun _ => true).2 =
        net.topology.neighbors.map (due resolverOfB requestFromB (some addressOfB)) := by
  refine ⟨_, rfl, (broadcast_exact_iff resolverOfB
    [.setTopology [neighborB], .sendBroadcast requestFromB none fun _ => true] _ rfl _ _ _).mpr
      fun neighbor hmem hzero => ?_⟩
  obtain rfl := List.mem_singleton.mp hmem
  exact absurd hzero (by decide)

/-- The first broadcast after the topology is set echoes the request to `b`, from which it came. -/
theorem broadcast_echoes_to_sender :
    ∃ net, Machine.run (step resolverOfB) empty [.setTopology [neighborB]] = some net ∧
      (net.sendBroadcast resolverOfB requestFromB (some addressOfB) fun _ => true).2 =
        [some (addressOfB, requestFromB.toWire)] ∧
      net.topology.neighbors.map (target resolverOfB) = [some addressOfB] ∧
      (net.sendBroadcast resolverOfB requestFromB (some addressOfB) fun _ => true).2 ≠
        net.topology.neighbors.map (due resolverOfB requestFromB (some addressOfB)) :=
  ⟨_, rfl, by decide, by decide, by decide⟩

end UdpNetwork

end Netos
