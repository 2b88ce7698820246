import Netos.Lib.Machine
import Netos.Node.OwnRequests

/-!
# The runs of a node

One node with its forward queue, in surroundings that may send it any bytes: datagrams are received,
its own threads do their rounds, and a worker sends what was queued. What the transport takes is
logged. A handler is one step; the clocks, the failures of Redis and those of the transport are
chosen anew in every step.
-/

namespace Netos

open CString

/-- A node, its forward queue, and what it sent. -/
structure NodeRun where
  /-- The node. -/
  node : Node
  /-- The elements of the forward queue, the oldest first. -/
  forward_queue : List Send := []
  /-- The datagrams that the transport took, the latest last. -/
  emitted : List (SockaddrIn × Bytes) := []

namespace NodeRun

/-- What happens to a node. The outcomes of the transport are those of the elements sent in the
step, and of the datagrams of each. -/
inductive Event where
  /-- The receive thread calls the handler. -/
  | receive (wire : Bytes) (sender : SockaddrIn) (env : Env) (sent : ℕ → ℕ → Bool)
  /-- A round of one of its own threads. -/
  | work (task : Node.Task) (env : Env) (sent : ℕ → ℕ → Bool)
  /-- A worker of the forward queue sends the first element. -/
  | dispatch (sent : ℕ → Bool)

/-- The network call for an element, with the callback of a direct message that was sent. -/
def transmit (R : Resolver) (s : NodeRun) (sent : ℕ → Bool) : Send → NodeRun
  | .direct addr msg on_success =>
    if sent 0 then
      { s with
        node := s.node.onSuccess on_success
        emitted := s.emitted ++ [(addr, msg.toWire)] }
    else s
  | .broadcast msg exclude =>
    let (network, handed) := s.node.network.sendBroadcast R msg exclude sent
    { s with
      node := { s.node with network }
      emitted := s.emitted ++
        handed.zipIdx.filterMap fun entry => if sent entry.2 then entry.1 else none }

/-- What a handler hands to the forward queue: it is sent at once when the queue is disabled, and
the newest elements are dropped when it is full. -/
def handOver (R : Resolver) (sent : ℕ → ℕ → Bool) : List Send → ℕ → NodeRun → NodeRun
  | [], _, s => s
  | send :: sends, i, s =>
    if ¬ s.node.config.async_forward_enable then
      handOver R sent sends (i + 1) (s.transmit R (sent i) send)
    else if s.forward_queue.length ≥ toSize s.node.config.forward_queue_max then
      handOver R sent sends (i + 1) s
    else handOver R sent sends (i + 1) { s with forward_queue := s.forward_queue ++ [send] }

/-- One step. -/
def step (R : Resolver) (s : NodeRun) : Event → Option NodeRun
  | .receive wire sender env sent =>
    let (node, sends) := s.node.handleWireMessage env wire sender
    some (handOver R sent sends 0 { s with node })
  | .work task env sent =>
    let (node, sends) := s.node.runTask env task
    some (handOver R sent sends 0 { s with node })
  | .dispatch sent =>
    match s.forward_queue with
    | [] => none
    | send :: forward_queue => some ({ s with forward_queue }.transmit R sent send)

/-- The start: a node as constructed. -/
def init (config : Config) (redis : RedisClient.Store) : NodeRun where
  node := .construct config redis

/-! ## What sending leaves alone -/

/-- The node after a network call: the sync table and the resolved addresses may change. -/
theorem node_transmit (R : Resolver) (s : NodeRun) (sent : ℕ → Bool) (send : Send) :
    ∃ network sync_table, (s.transmit R sent send).node = { s.node with network, sync_table } := by
  cases send with
  | direct addr msg on_success =>
    unfold transmit
    dsimp only
    split_ifs with hsent
    · cases on_success with
      | none => exact ⟨_, _, rfl⟩
      | some entry => exact ⟨_, _, rfl⟩
    · exact ⟨_, _, rfl⟩
  | broadcast msg exclude => exact ⟨_, _, rfl⟩

/-- So it is after any number of elements. -/
theorem node_handOver (R : Resolver) (sent : ℕ → ℕ → Bool) (sends : List Send) (i : ℕ)
    (s : NodeRun) :
    ∃ network sync_table,
      (handOver R sent sends i s).node = { s.node with network, sync_table } := by
  induction sends generalizing i s with
  | nil => exact ⟨_, _, rfl⟩
  | cons send sends ih =>
    unfold handOver
    split_ifs with henabled hfull
    · exact ih (i + 1) s
    · exact ih (i + 1) { s with forward_queue := s.forward_queue ++ [send] }
    · obtain ⟨_, _, hfirst⟩ := node_transmit R s (sent i) send
      obtain ⟨_, _, hrest⟩ := ih (i + 1) (s.transmit R (sent i) send)
      exact ⟨_, _, by rw [hrest, hfirst]⟩

/-- Sending keeps a node well formed. -/
theorem formed_of_node_eq {n : Node} {network : UdpNetwork} {sync_table : SyncTable}
    (h : n.Formed) : ({ n with network, sync_table } : Node).Formed :=
  h.of_wantsLess (.of_frame rfl rfl rfl rfl)

/-- A step keeps the configuration and, if the node is well formed, that it is. -/
theorem frame_step {R : Resolver} {s s' : NodeRun} {e : Event} (hstep : step R s e = some s') :
    s'.node.config = s.node.config ∧ (s.node.Formed → s'.node.Formed) := by
  cases e with
  | receive wire sender env sent =>
    obtain rfl : handOver R sent (s.node.handleWireMessage env wire sender).2 0
      { s with node := (s.node.handleWireMessage env wire sender).1 } = s' := Option.some.inj hstep
    obtain ⟨_, _, hnode⟩ := node_handOver R sent (s.node.handleWireMessage env wire sender).2 0
      { s with node := (s.node.handleWireMessage env wire sender).1 }
    rw [hnode]
    have hless := Node.wantsLess_handleWireMessage s.node env wire sender
    exact ⟨hless.config, fun hformed => formed_of_node_eq (hformed.of_wantsLess hless)⟩
  | work task env sent =>
    obtain rfl : handOver R sent (s.node.runTask env task).2 0
      { s with node := (s.node.runTask env task).1 } = s' := Option.some.inj hstep
    obtain ⟨_, _, hnode⟩ := node_handOver R sent (s.node.runTask env task).2 0
      { s with node := (s.node.runTask env task).1 }
    rw [hnode]
    have hworked := Node.worked_runTask s.node env task
    exact ⟨hworked.config, fun hformed => formed_of_node_eq (hformed.runTask env task)⟩
  | dispatch sent =>
    cases hqueue : s.forward_queue with
    | nil => simp [step, hqueue] at hstep
    | cons send forward_queue =>
      obtain rfl : _ = s' := by simpa [step, hqueue] using hstep
      obtain ⟨_, _, hnode⟩ := node_transmit R { s with forward_queue } sent send
      rw [hnode]
      exact ⟨rfl, formed_of_node_eq⟩

/-- In every run, the node keeps its configuration and is well formed. -/
theorem formed_step {R : Resolver} {config : Config} {s s' : NodeRun} {e : Event}
    (h : s.node.config = config ∧ s.node.Formed) (hstep : step R s e = some s') :
    s'.node.config = config ∧ s'.node.Formed := by
  obtain ⟨hconfig, hformed⟩ := frame_step hstep
  exact ⟨hconfig.trans h.1, hformed h.2⟩

/-- In every run from the start, the node keeps its configuration and is well formed. -/
theorem formed_run {R : Resolver} {config : Config} {redis : RedisClient.Store} {s : NodeRun}
    {events : List Event} (hrun : Machine.run (step R) (init config redis) events = some s) :
    s.node.config = config ∧ s.node.Formed :=
  Machine.run_invariant (fun _ _ _ h hstep => formed_step h hstep)
    ⟨rfl, Node.formed_construct config redis⟩ hrun

/-- The node after the handler of an event, before anything is sent. -/
def Event.handle (n : Node) : Event → Node
  | .receive wire sender env _ => (n.handleWireMessage env wire sender).1
  | .work task env _ => (n.runTask env task).1
  | .dispatch _ => n

/-- The node after a step: sending may change the sync table and the resolved addresses, and all
else is as the handler left it. -/
theorem node_step {R : Resolver} {s s' : NodeRun} {e : Event} (hstep : step R s e = some s') :
    ∃ network sync_table, s'.node = { e.handle s.node with network, sync_table } := by
  cases e with
  | receive wire sender env sent =>
    obtain rfl := Option.some.inj hstep
    exact node_handOver R sent _ 0 _
  | work task env sent =>
    obtain rfl := Option.some.inj hstep
    exact node_handOver R sent _ 0 _
  | dispatch sent =>
    cases hqueue : s.forward_queue with
    | nil => simp [step, hqueue] at hstep
    | cons send forward_queue =>
      obtain rfl : _ = s' := by simpa [step, hqueue] using hstep
      exact node_transmit R { s with forward_queue } sent send

end NodeRun

end Netos
