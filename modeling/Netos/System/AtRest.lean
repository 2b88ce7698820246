import Netos.Node.KeyLedger
import Netos.System.Pulls
import Netos.System.Spread
import Netos.Tables.FallbackDeadlines

/-!
# What is asked is answered

A node asks for a key that one of its neighbors holds. From then on the key is on its way, and every
step keeps it so: it waits in the fallback table or in the aggregator of the node, a Query-BF with
it is queued or in flight to the neighbor, a `DATA` with it is queued or in flight to the node, or
the node holds it (`OnItsWay.step`). Steps of the other nodes, other requests, duplicates and any
order of the datagrams make no difference. So in every run in which nothing is lost, the transport
and Redis work and no time limit passes, the node holds the key as soon as the network is at rest
(`answered_at_rest`). What happened before the request does not matter.

The time limits are those of a Query-BF at its receiver, and of a buffer that is used again.
-/

namespace Netos

open CString Cxx

namespace QueryBloomAggregator

variable {a : QueryBloomAggregator} {origin key : Bytes} {now : ℤ}

/-- A pending batch or the buffer of an origin has a key. -/
def Contains (a : QueryBloomAggregator) (origin key : Bytes) : Prop :=
  (∃ batch ∈ a.pending_batches, batch.filter.Covers key) ∨
    (a.buffer origin).created_ms ≠ 0 ∧ (a.buffer origin).has_data = true ∧
      (a.buffer origin).filter.Covers key

/-- A key that is kept is there. -/
theorem Keeps.contains (h : a.Keeps origin key now) : a.Contains origin key :=
  h.imp_right fun ⟨hready, hdata, hcovers⟩ =>
    ⟨fun hunused => hready (Or.inl hunused), hdata, hcovers⟩

/-- A key that is there is kept, unless the buffer has outlived its time. -/
theorem Contains.keeps (h : a.Contains origin key)
    (hage : (a.buffer origin).has_data = true → ¬ a.outlived now (a.buffer origin)) :
    a.Keeps origin key now :=
  h.imp_right fun ⟨hused, hdata, hcovers⟩ => ⟨not_or.mpr ⟨hused, hage hdata⟩, hdata, hcovers⟩

/-- A flush returns the key, or leaves it there. -/
theorem Contains.flushDue (h : a.Contains origin key) (it : Iteration) (now : ℤ)
    (wall : Bytes → UInt64) :
    (a.flushDue it now wall).1.Contains origin key ∨
      ∃ batch ∈ (a.flushDue it now wall).2, batch.filter.Covers key := by
  rcases h with ⟨batch, hbatch, hcovers⟩ | ⟨hused, hdata, hcovers⟩
  · exact Or.inr ⟨batch, List.mem_append_left _ hbatch, hcovers⟩
  · cases hdue : a.due now (a.buffer origin) with
    | false =>
      have hbuffer := a.buffer_flushDue it now wall origin
      rw [hdue, if_neg Bool.false_ne_true] at hbuffer
      exact Or.inl (Or.inr (by rw [hbuffer]; exact ⟨hused, hdata, hcovers⟩))
    | true =>
      exact Or.inr ⟨_, makeBatch_mem_flushDue hdue it wall, hcovers⟩

end QueryBloomAggregator

namespace ContentBfFallbackTable

variable {t : ContentBfFallbackTable} {origin key : Bytes}

/-- A key waits for its answer. -/
def Waits (t : ContentBfFallbackTable) (origin key : Bytes) : Prop :=
  ∃ e, t.entries.lookup (makeKey origin key) = some e ∧ e.key = key

/-- A key that is scheduled waits. -/
theorem waits_schedule (hused : 0 < t.window) (now : ℤ) (key origin : Bytes) :
    (t.schedule now key origin).1.Waits origin key := by
  refine ⟨⟨key, origin, now + milliseconds t.window⟩, ?_, rfl⟩
  simp only [schedule, not_le.mpr hused, if_false, AList.lookup_insert]

/-- A schedule leaves every key waiting. -/
theorem Waits.schedule (h : t.Waits origin key) (now : ℤ) (added : Bytes) :
    (t.schedule now added origin).1.Waits origin key := by
  by_cases hwindow : t.window ≤ 0
  · simpa only [ContentBfFallbackTable.schedule, hwindow, if_true] using h
  · by_cases hkey : key = added
    · rw [hkey]
      exact waits_schedule (not_le.mp hwindow) now added origin
    · have hother : makeKey origin key ≠ makeKey origin added := fun heq =>
        hkey ((FallbackDeadlines.makeKey_inj origin).mp heq)
      obtain ⟨e, he, hsame⟩ := h
      refine ⟨e, ?_, hsame⟩
      simp only [ContentBfFallbackTable.schedule, hwindow, if_false,
        AList.lookup_insert_ne hother, he]

/-- The cancellation of another key leaves it waiting. -/
theorem Waits.cancel (h : t.Waits origin key) {other : Bytes} (hother : key ≠ other) :
    (t.cancel other origin).1.Waits origin key := by
  obtain ⟨e, he, hsame⟩ := h
  refine ⟨e, ?_, hsame⟩
  rw [ContentBfFallbackTable.cancel, AList.lookup_erase_ne, he]
  exact fun heq => hother ((FallbackDeadlines.makeKey_inj origin).mp heq)

/-- A key that waits is taken, or waits on. -/
theorem Waits.takeDue (h : t.Waits origin key) (it : Iteration) (now : ℤ) :
    (t.takeDue it now).1.Waits origin key ∨ ∃ entry ∈ (t.takeDue it now).2, entry.key = key := by
  obtain ⟨e, he, hsame⟩ := h
  by_cases hwindow : t.window ≤ 0
  · left
    simp only [ContentBfFallbackTable.takeDue, hwindow, if_true]
    exact ⟨e, he, hsame⟩
  · by_cases hdue : e.deadline ≤ now
    · exact Or.inr ⟨_, mem_takeDue (not_le.mp hwindow) he it hdue, hsame⟩
    · refine Or.inl ⟨e, ?_, hsame⟩
      simp [ContentBfFallbackTable.takeDue, hwindow, lookup_filter, he, hdue]

end ContentBfFallbackTable

namespace Node

/-! ## A node that wants a key -/

variable {n : Node} {key : Bytes}

/-- A node wants a key: the key waits for the answer to a direct request, or for a flush. -/
def Wants (n : Node) (key : Bytes) : Prop :=
  n.content_bf_fallback.Waits n.config.node_id key ∨
    n.query_bloom_aggregator.Contains n.config.node_id key

/-- Keys can be added without loss: the clock is set, and the buffer that they join has not outlived
its time. -/
def KeepsKeys (n : Node) (env : Env) (keys : List Bytes) : Prop :=
  (∀ key ∈ keys, (env.add_ms key).Positive) ∧
    ((n.query_bloom_aggregator.buffer n.config.node_id).has_data = true →
      ¬ n.query_bloom_aggregator.outlived env.steady
        (n.query_bloom_aggregator.buffer n.config.node_id))

/-- Decidable, as the tests of the code are. -/
instance (n : Node) (env : Env) (keys : List Bytes) : Decidable (n.KeepsKeys env keys) :=
  inferInstanceAs (Decidable (_ ∧ (_ → ¬ _)))

/-- A round loses nothing: keys are added without loss, and a topology that is read again still has
the neighbors of the last one. -/
def Undisturbed (R : Resolver) (n : Node) (env : Env) : Task → Prop
  | .request key => n.KeepsKeys env [key]
  | .takeFallbacks => n.KeepsKeys env
    ((n.content_bf_fallback.takeDue env.order env.steady).2.map fun entry => entry.key)
  | .reloadTopology neighbors =>
    n.network.reaches R ⊆ (n.reloadTopology neighbors).network.reaches R
  | .seed _ => True
  | .exchangeContentBloom => True
  | .flushQueryBlooms => True

/-- Decidable, as the lists are finite. -/
instance (R : Resolver) (n : Node) (env : Env) :
    (task : Task) → Decidable (n.Undisturbed R env task)
  | .request _ => inferInstanceAs (Decidable (n.KeepsKeys env _))
  | .takeFallbacks => inferInstanceAs (Decidable (n.KeepsKeys env _))
  | .reloadTopology _ => inferInstanceAs (Decidable ((_ : List (Option SockaddrIn)) ⊆ _))
  | .seed _ => isTrue trivial
  | .exchangeContentBloom => isTrue trivial
  | .flushQueryBlooms => isTrue trivial

/-- A node that wants a key wants it after a datagram, or has stored it. -/
theorem Wants.handleWireMessage (h : n.Wants key) (env : Env) (wire : Bytes) (sender : SockaddrIn) :
    (n.handleWireMessage env wire sender).1.Wants key ∨
      ((n.handleWireMessage env wire sender).1.redis key).isSome := by
  have hless := wantsLess_handleWireMessage n env wire sender
  have hfallback := KeyLedger.fallback_handleWireMessage n env wire sender
  have hkept : ((n.handleWireMessage env wire sender).1.content_bf_fallback.Waits n.config.node_id
      key ∨ n.query_bloom_aggregator.Contains n.config.node_id key) →
        (n.handleWireMessage env wire sender).1.Wants key := fun hwants => by
    rwa [Wants, hless.config, hless.aggregator]
  rcases h with hwaits | hcontains
  · cases hstored : KeyLedger.storedData n env wire with
    | none =>
      rw [hstored] at hfallback
      exact Or.inl (hkept (Or.inl (by rwa [hfallback])))
    | some msg =>
      rw [hstored] at hfallback
      by_cases hkey : key = msg.key
      · right
        rw [KeyLedger.redis_of_storedData hstored, hkey, Function.update_self]
        rfl
      · -- Another key was stored: its entry is the one that leaves the table.
        have horigin := KeyLedger.origin_of_storedData hstored
        refine Or.inl (hkept (Or.inl ?_))
        rw [← horigin] at hwaits ⊢
        rw [hfallback]
        exact hwaits.cancel hkey
  · exact Or.inl (hkept (Or.inr hcontains))

/-- A node that wants a key wants it after a round, or asks its neighbors for it. -/
theorem Wants.runTask (h : n.Wants key) (hformed : n.Formed) (hvalid : n.config.Valid)
    {R : Resolver} {env : Env} {task : Task} (hundisturbed : n.Undisturbed R env task) :
    (n.runTask env task).1.Wants key ∨
      ∃ batch, n.query_bloom_aggregator.BatchOf n.config.node_id batch ∧
        batch.filter.Covers key ∧
        .broadcast (n.batchMessage batch) none ∈ (n.runTask env task).2 := by
  obtain ⟨hbits, hhashes⟩ := hformed.shape_ne_zero hvalid
  cases task with
  | seed position =>
    left
    cases hseed : n.config.seed_keys[position]? with
    | none => simpa only [Node.runTask, hseed] using h
    | some kv =>
      simp only [Node.runTask, hseed, seedKey]
      split_ifs
      · exact h
      · exact h
  | request added =>
    left
    cases hget : n.redisGet env added with
    | some value =>
      simp only [Node.runTask, scheduleRequest, hget]
      exact h
    | none =>
      simp only [Node.runTask, scheduleRequest, hget, makeRequestId]
      cases hselect : (n.content_bloom.selectNeighbor env.order env.steady added).2 with
      | some addr => exact h.imp_left fun hwaits => hwaits.schedule env.steady added
      | none =>
        refine h.imp_right fun hcontains => ?_
        have hkeeps := hcontains.keeps hundisturbed.2
        have hwall := hundisturbed.1 added (List.mem_singleton_self added)
        exact (hkeeps.addKey hformed.aggregator hbits hhashes added hwall).contains
  | exchangeContentBloom => exact Or.inl h
  | takeFallbacks =>
    left
    have hmoved : n.query_bloom_aggregator.Keeps n.config.node_id key env.steady ∨
        (∃ entry ∈ (n.content_bf_fallback.takeDue env.order env.steady).2, entry.key = key) →
        (n.runTask env .takeFallbacks).1.Wants key := fun hkey =>
      Or.inr (hformed.aggregator.keeps_addKeys hbits hhashes
        (fun entry hentry => hundisturbed.1 entry.key (List.mem_map_of_mem hentry))
        (fun entry hentry => hformed.origin_of_takeDue hentry) hkey).contains
    rcases h with hwaits | hcontains
    · rcases hwaits.takeDue env.order env.steady with hwaits | htaken
      · exact Or.inl hwaits
      · exact hmoved (Or.inr htaken)
    · exact hmoved (Or.inl (hcontains.keeps hundisturbed.2))
  | flushQueryBlooms =>
    rcases h with hwaits | hcontains
    · exact Or.inl (Or.inl hwaits)
    · rcases hcontains.flushDue env.order env.steady env.flush_ms with
        hkept | ⟨batch, hbatch, hcovers⟩
      · exact Or.inl (Or.inr hkept)
      · refine Or.inr ⟨batch, ?_, hcovers, List.mem_map.mpr ⟨batch, hbatch, rfl⟩⟩
        exact hformed.aggregator.batchOf_of_flushDue _ _ _ hbatch
  | reloadTopology neighbors => exact Or.inl h

end Node

namespace NetworkState

/-! ## What a step does to a node, to a queue and to the datagrams -/

variable {ι : Type*}

/-- Nothing is lost in a step: no datagram is lost or dropped, the transport takes everything, and
Redis works where a datagram is handled. -/
def Lossless : Action ι → Prop
  | .deliver _ _ env => ∀ key, env.get_fails key = false ∧ env.set_fails key = false
  | .lose _ => False
  | .duplicate _ => True
  | .dispatch _ sent => ∀ i, sent i = true
  | .dropQueued _ => False
  | .work _ _ _ => True

/-- A step is in time: a Query-BF is handled before it is too old, and a round of a node's own
threads loses nothing. -/
def InTime (W : Wiring ι) (s : NetworkState ι) : Action ι → Prop
  | .deliver position node env =>
    ∀ msg ∈ s.flight[position]?.bind fun d => UdpTransport.arrives d.payload,
      msg.type = .queryBloom → ∀ created_ms ∈ parseUint64 msg.value,
        (s.nodes node).Fresh env created_ms
  | .work node env task => (s.nodes node).Undisturbed (W.resolver node) env task
  | .lose _ => True
  | .duplicate _ => True
  | .dispatch _ _ => True
  | .dropQueued _ => True

variable [DecidableEq ι] {W : Wiring ι} {s s' : NetworkState ι} {a : Action ι}

/-- No step makes a node forget a key. -/
theorem held_of_step (hstep : step W s a = some s') (i : ι) :
    (s.nodes i).held ⊆ (s'.nodes i).held := by
  cases became_of_step hstep i with
  | @handled position env d wire haction hmem haddress hwire hnode =>
    rw [hnode]
    cases hmsg : fromWire wire with
    | none => rw [Node.handleWireMessage_of_none _ env d.src hmsg]
    | some msg => exact (Node.handled_wireMessage (s.nodes i) env d.src hmsg).held
  | worked haction hnode =>
    rw [hnode]
    exact (Node.worked_runTask _ _ _).held
  | sent network sync_table hreaches hnode =>
    rw [hnode]
    exact fun _ hkey => hkey

/-- A step in time leaves a node the neighbors that it had. -/
theorem reaches_of_step (hintime : InTime W s a) (hstep : step W s a = some s') (i : ι) :
    (s.nodes i).network.reaches (W.resolver i) ⊆ (s'.nodes i).network.reaches (W.resolver i) := by
  cases became_of_step hstep i with
  | @handled position env d wire haction hmem haddress hwire hnode =>
    rw [hnode]
    cases hmsg : fromWire wire with
    | none =>
      rw [Node.handleWireMessage_of_none _ env d.src hmsg]
      exact List.Subset.refl _
    | some msg =>
      rw [(Node.handled_wireMessage (s.nodes i) env d.src hmsg).network]
      exact List.Subset.refl _
  | @worked env task haction hnode =>
    rw [hnode]
    rcases (Node.worked_runTask (s.nodes i) env task).network with hsame | ⟨neighbors, rfl⟩
    · rw [hsame]
      exact List.Subset.refl _
    · rw [haction] at hintime
      exact hintime
  | sent network sync_table hreaches hnode =>
    rw [hnode, ← hreaches]
    exact List.Subset.refl _

/-- Sending leaves the other elements queued. -/
theorem queued_send (s : NetworkState ι) (item : Queued ι) (sent : ℕ → Bool) :
    (s.send W item sent).queued = s.queued := by
  cases hsend : item.send with
  | direct addr msg on_success =>
    simp only [NetworkState.send, hsend]
    split_ifs <;> rfl
  | broadcast msg exclude => simp only [NetworkState.send, hsend]

/-- It leaves what is in flight there. -/
theorem flight_send (s : NetworkState ι) (item : Queued ι) (sent : ℕ → Bool) :
    s.flight ⊆ (s.send W item sent).flight := by
  cases hsend : item.send with
  | direct addr msg on_success =>
    simp only [NetworkState.send, hsend]
    split_ifs
    · exact List.subset_append_left _ _
    · exact List.Subset.refl _
  | broadcast msg exclude =>
    simp only [NetworkState.send, hsend]
    exact List.subset_append_left _ _

/-- What is queued is sent, or waits on. -/
theorem queued_of_step (hlossless : Lossless a) (hstep : step W s a = some s') {q : Queued ι}
    (hq : q ∈ s.queued) : q ∈ s'.queued ∨ ∃ position sent, (∀ i, sent i = true) ∧
      s' = send W { s with queued := s.queued.eraseIdx position } q sent := by
  cases a with
  | deliver position node env =>
    left
    obtain ⟨d, -, hstep⟩ := Option.bind_eq_some_iff.mp hstep
    split_ifs at hstep with haddress
    cases hwire : UdpTransport.receive d.payload with
    | none =>
      obtain rfl : _ = s' := by simpa [hwire] using hstep
      exact hq
    | some wire =>
      obtain rfl : _ = s' := by simpa [hwire] using hstep
      exact List.mem_append_left _ hq
  | lose position => exact absurd hlossless not_false
  | duplicate position =>
    obtain ⟨d, -, rfl⟩ := Option.map_eq_some_iff.mp hstep
    exact Or.inl hq
  | dispatch position sent =>
    obtain ⟨item, hitem, rfl⟩ := Option.map_eq_some_iff.mp hstep
    obtain ⟨k, hk⟩ := List.getElem?_of_mem hq
    by_cases hsame : k = position
    · rw [hsame, hitem] at hk
      rw [Option.some.inj hk]
      exact Or.inr ⟨position, sent, hlossless, rfl⟩
    · left
      rw [queued_send]
      exact List.mem_eraseIdx_iff_getElem?.mpr ⟨k, hsame, hk⟩
  | dropQueued position => exact absurd hlossless not_false
  | work node env task =>
    obtain rfl := Option.some.inj hstep
    exact Or.inl (List.mem_append_left _ hq)

/-- What is in flight is delivered to its address, or stays in flight. -/
theorem flight_of_step (hlossless : Lossless a) (hstep : step W s a = some s') {d : Datagram ι}
    (hd : d ∈ s.flight) {wire : Bytes} (hwire : UdpTransport.receive d.payload = some wire) :
    d ∈ s'.flight ∨ ∃ position i env, a = .deliver position i env ∧ s.flight[position]? = some d ∧
      sameAddress (W.address i) d.dst = true ∧
      s'.nodes = Function.update s.nodes i ((s.nodes i).handleWireMessage env wire d.src).1 ∧
      ∀ send ∈ ((s.nodes i).handleWireMessage env wire d.src).2,
        ∃ trail, ⟨i, send, trail⟩ ∈ s'.queued := by
  cases a with
  | deliver position node env =>
    obtain ⟨d', hd', hstep⟩ := Option.bind_eq_some_iff.mp hstep
    split_ifs at hstep with haddress
    obtain ⟨k, hk⟩ := List.getElem?_of_mem hd
    by_cases hsame : k = position
    · rw [hsame, hd'] at hk
      obtain rfl := Option.some.inj hk
      obtain rfl : _ = s' := by simpa [hwire] using hstep
      refine Or.inr ⟨position, node, env, rfl, hd', haddress, rfl, fun send hsend => ?_⟩
      exact ⟨_, List.mem_append_right _ (List.mem_map.mpr ⟨send, hsend, rfl⟩)⟩
    · have hstays : d ∈ s.flight.eraseIdx position :=
        List.mem_eraseIdx_iff_getElem?.mpr ⟨k, hsame, hk⟩
      left
      cases hwire' : UdpTransport.receive d'.payload with
      | none =>
        obtain rfl : _ = s' := by simpa [hwire'] using hstep
        exact hstays
      | some wire' =>
        obtain rfl : _ = s' := by simpa [hwire'] using hstep
        exact hstays
  | lose position => exact absurd hlossless not_false
  | duplicate position =>
    obtain ⟨d', -, rfl⟩ := Option.map_eq_some_iff.mp hstep
    exact Or.inl (List.mem_append_left _ hd)
  | dispatch position sent =>
    obtain ⟨item, -, rfl⟩ := Option.map_eq_some_iff.mp hstep
    exact Or.inl (flight_send _ item sent hd)
  | dropQueued position => exact absurd hlossless not_false
  | work node env task =>
    obtain rfl := Option.some.inj hstep
    exact Or.inl hd

/-! ## A key on its way -/

/-- A message asks for a key in the name of a node: it arrives as it was sent, and a peer with
Query-BFs of the same shape that gets it in time finds a filter in it that matches the key. -/
structure AsksWith (config : Config) (key : Bytes) (msg : Message) : Prop where
  /-- Nothing is cut off. -/
  arrives : UdpTransport.arrives msg.toWire = some msg
  /-- It is a Query-BF. -/
  type : msg.type = .queryBloom
  /-- The node is its origin. -/
  origin : msg.origin = config.node_id
  /-- What a peer finds in it. -/
  filter : ∃ created_ms filter, parseUint64 msg.value = some created_ms ∧
    filter.maybeContains key = true ∧ ∀ (peer : Node) (env : Env),
      peer.config.query_bf_bits = config.query_bf_bits →
        peer.config.query_bf_hashes = config.query_bf_hashes → peer.Fresh env created_ms →
          peer.queryBloomFilter env msg = some filter

/-- A message brings a node a key that it asked for. -/
structure Brings (config : Config) (key : Bytes) (msg : Message) : Prop where
  /-- It is a `DATA`. -/
  type : msg.type = .data
  /-- It has an id. -/
  request_id : msg.request_id ≠ []
  /-- The node is its origin. -/
  origin : msg.origin = config.node_id
  /-- The key. -/
  key : msg.key = key
  /-- It has hops left. -/
  ttl : 0 < msg.ttl

/-- A key is on its way to a node, from a neighbor that holds it, in one of the stages of a pull. -/
inductive OnItsWay (W : Wiring ι) (configs : ι → Config) (o j : ι) (key : Bytes)
    (s : NetworkState ι) : Prop where
  /-- The node wants it. -/
  | wanted (hwants : (s.nodes o).Wants key)
  /-- A Query-BF is queued. -/
  | asking {msg : Message} {trail : List (Hop ι)} (hasks : AsksWith (configs o) key msg)
      (hqueued : ⟨o, .broadcast msg none, trail⟩ ∈ s.queued)
  /-- A Query-BF is in flight to the neighbor. -/
  | asked {msg : Message} {trail : List (Hop ι)} (hasks : AsksWith (configs o) key msg)
      (hflight : ⟨W.address o, W.address j, msg.toWire, msg, trail⟩ ∈ s.flight)
  /-- A `DATA` is queued. -/
  | answering {i : ι} {msg : Message} {on_success : Option (Bytes × Bytes)} {trail : List (Hop ι)}
      (hbrings : Brings (configs o) key msg)
      (hqueued : ⟨i, .direct (W.address o) msg on_success, trail⟩ ∈ s.queued)
  /-- A `DATA` is in flight to the node. -/
  | answered {src : SockaddrIn} {msg : Message} {trail : List (Hop ι)}
      (hbrings : Brings (configs o) key msg)
      (hflight : ⟨src, W.address o, msg.toWire, msg, trail⟩ ∈ s.flight)
  /-- The node holds it. -/
  | held (hheld : key ∈ (s.nodes o).held)

/-- What a network needs for its pulls: valid configurations, Query-BFs of one shape, addresses that
tell the nodes apart, and words so short that every `DATA` and every Query-BF fits a datagram. -/
structure Fitting (W : Wiring ι) (configs : ι → Config) (ids keys values : ℕ) : Prop where
  /-- The configurations are valid. -/
  valid : ∀ i, (configs i).Valid
  /-- The Query-BFs have one shape. -/
  same : ∀ i j, (configs i).query_bf_bits = (configs j).query_bf_bits ∧
    (configs i).query_bf_hashes = (configs j).query_bf_hashes
  /-- The addresses are distinct. -/
  addresses : ∀ i j, sameAddress (W.address i) (W.address j) = true → i = j
  /-- A `DATA` fits. -/
  short : 2 * ids + keys + values + 62 ≤ 2047
  /-- The words are short. -/
  speaks : ∀ i, (shortWords ids keys values).Speaks (configs i)
  /-- A Query-BF fits. -/
  fits : ∀ i created_ms, Node.batchLength (configs i) created_ms ≤ 2047

section Answer

variable {configs : ι → Config} {ids keys values : ℕ} {o j : ι} {key : Bytes}

omit [DecidableEq ι] in
/-- The message of a batch asks for the keys of the batch. -/
theorem Fitting.asks_batchMessage (h : Fitting W configs ids keys values) {v : Vocabulary}
    {n : Node} (hknows : v.Knows (configs o) n) {batch : QueryBloomBatch}
    (hbatch : n.query_bloom_aggregator.BatchOf n.config.node_id batch)
    (hcovers : batch.filter.Covers key) : AsksWith (configs o) key (n.batchMessage batch) := by
  have hvalid := h.valid o
  have hbar := (h.speaks o).node_id.1
  have hfits := h.fits o batch.created_ms
  rw [← hknows.config_eq] at hvalid hbar hfits ⊢
  exact
    { arrives := Node.arrives_batchMessage hknows.formed hbar hbatch hfits
      type := rfl
      origin := hbatch.origin
      filter := ⟨batch.created_ms, batch.filter, parseUint64_natToString _,
        hknows.formed.maybeContains_batch hvalid hbatch hcovers, fun _ _ hbits hhashes hfresh =>
          Node.batch_decoded hknows.formed hvalid hbar hbatch hfits hbits hhashes hfresh⟩ }

/-- A request is under way: the node has a neighbor that holds the key, and the key is on its way
from there. -/
structure UnderWay (W : Wiring ι) (v : Vocabulary) (configs : ι → Config) (o j : ι) (key : Bytes)
    (s : NetworkState ι) : Prop where
  /-- The nodes are ready for pulls. -/
  ready : (readyPools v configs).Hold s
  /-- The node has the neighbor. -/
  linked : some (W.address j) ∈ (s.nodes o).network.reaches (W.resolver o)
  /-- The neighbor holds the key. -/
  holder : key ∈ (s.nodes j).held
  /-- The key is on its way. -/
  way : OnItsWay W configs o j key s

/-- A key that a node wants stays on its way. -/
theorem Fitting.onItsWay_of_wants (h : Fitting W configs ids keys values)
    (hready : (readyPools (shortWords ids keys values) configs).Hold s)
    (hwants : (s.nodes o).Wants key) (hintime : InTime W s a) (hstep : step W s a = some s') :
    OnItsWay W configs o j key s' := by
  obtain ⟨hknows, -⟩ := hready.nodes o
  cases became_of_step hstep o with
  | handled haction hmem haddress hwire hnode =>
    rcases hwants.handleWireMessage _ _ _ with hwants' | hheld
    · exact .wanted (hnode ▸ hwants')
    · exact .held (hnode ▸ hheld)
  | @worked env task haction hnode hqueued =>
    rw [haction] at hintime
    have hvalid : (s.nodes o).config.Valid := hknows.config_eq ▸ h.valid o
    rcases hwants.runTask hknows.formed hvalid hintime with
      hwants' | ⟨batch, hbatch, hcovers, hsend⟩
    · exact .wanted (hnode ▸ hwants')
    · exact .asking (h.asks_batchMessage hknows hbatch hcovers) (hqueued _ hsend)
  | sent network sync_table hreaches hnode =>
    refine .wanted ?_
    rw [hnode]
    exact hwants

/-- A neighbor that holds the key answers a Query-BF that it gets in time. -/
theorem Fitting.onItsWay_of_asked (h : Fitting W configs ids keys values)
    (hready : (readyPools (shortWords ids keys values) configs).Hold s)
    (hheld : key ∈ (s.nodes j).held) {msg : Message} {trail : List (Hop ι)}
    (hasks : AsksWith (configs o) key msg)
    (hflight : ⟨W.address o, W.address j, msg.toWire, msg, trail⟩ ∈ s.flight)
    (hlossless : Lossless a) (hintime : InTime W s a) (hstep : step W s a = some s') :
    OnItsWay W configs o j key s' := by
  obtain ⟨wire, hwire, hmsg⟩ := Option.bind_eq_some_iff.mp hasks.arrives
  rcases flight_of_step hlossless hstep hflight hwire with
    hflight' | ⟨position, i, env, rfl, hposition, haddress, -, hqueued⟩
  · exact .asked hasks hflight'
  · obtain rfl := h.addresses i j haddress
    obtain ⟨hknows, hnode⟩ := hready.nodes i
    obtain ⟨created_ms, filter, hcreated, hmatch, hread⟩ := hasks.filter
    have hfresh : (s.nodes i).Fresh env created_ms :=
      hintime msg (Option.bind_eq_some_iff.mpr ⟨_, hposition, hasks.arrives⟩) hasks.type created_ms
        hcreated
    have hfilter := hread (s.nodes i) env (by rw [hknows.config_eq, (h.same i o).1])
      (by rw [hknows.config_eq, (h.same i o).2]) hfresh
    obtain ⟨value, hvalue⟩ := Option.isSome_iff_exists.mp hheld
    have hget : (s.nodes i).redisGet env key = some value := by
      rw [Node.redisGet, (hlossless key).1]
      exact hvalue
    obtain ⟨request_id, on_success, hid, hsend⟩ :=
      hnode.exists_answer (W.address o) hmsg hasks.type hfilter hmatch hget
    obtain ⟨trail', hmem⟩ := hqueued _ hsend
    have httl : 0 < (s.nodes i).config.request_ttl := by
      rw [hknows.config_eq]
      exact (h.valid i).request_ttl
    have hbrings : Brings (configs o) key
        ⟨.data, request_id, msg.origin, (s.nodes i).config.request_ttl, key, value⟩ :=
      ⟨rfl, hid, hasks.origin, rfl, httl⟩
    exact .answering hbrings hmem

/-- The node stores the answer. -/
theorem Fitting.onItsWay_of_answered (h : Fitting W configs ids keys values)
    (hready : (readyPools (shortWords ids keys values) configs).Hold s) (hkey : key ≠ [])
    {src : SockaddrIn} {msg : Message} {trail : List (Hop ι)}
    (hbrings : Brings (configs o) key msg)
    (hflight : ⟨src, W.address o, msg.toWire, msg, trail⟩ ∈ s.flight)
    (hlossless : Lossless a) (hstep : step W s a = some s') : OnItsWay W configs o j key s' := by
  -- A `DATA` of short words arrives as it was sent.
  obtain ⟨hspoke, -⟩ := hready.flight _ hflight
  have harrives := UdpTransport.arrives_of_fits
    (fits_of_spoken h.short hspoke (Or.inr hbrings.type))
  obtain ⟨wire, hwire, hmsg⟩ := Option.bind_eq_some_iff.mp harrives
  rcases flight_of_step hlossless hstep hflight hwire with
    hflight' | ⟨position, i, env, rfl, -, haddress, hnodes, -⟩
  · exact .answered hbrings hflight'
  · obtain rfl := h.addresses i o haddress
    obtain ⟨hknows, -⟩ := hready.nodes i
    have hnode_id : (s.nodes i).config.node_id ≠ [] := by
      rw [hknows.config_eq]
      exact (h.valid i).node_id
    have horigin : msg.origin = (s.nodes i).config.node_id := by
      rw [hknows.config_eq, hbrings.origin]
    have hredis := Node.stores_answer src hmsg hbrings.type hbrings.request_id horigin hnode_id
      (by rwa [hbrings.key]) hbrings.ttl (hlossless msg.key).2
    refine .held ?_
    rw [hnodes, Function.update_self, Node.held_update hredis, hbrings.key]
    exact Set.mem_insert _ _

/-- A request stays under way, while nothing is lost and all is in time. -/
theorem UnderWay.step (h : UnderWay W (shortWords ids keys values) configs o j key s)
    (hfitting : Fitting W configs ids keys values) (hkey : key ≠ [])
    (hspoken : Spoken (shortWords ids keys values) configs a) (hlossless : Lossless a)
    (hintime : InTime W s a) (hstep : NetworkState.step W s a = some s') :
    UnderWay W (shortWords ids keys values) configs o j key s' where
  ready := h.ready.step (kept_readyPools (closed_shortWords ids keys values) hfitting.speaks W)
    hspoken hstep
  linked := reaches_of_step hintime hstep o h.linked
  holder := held_of_step hstep j h.holder
  way := by
    cases h.way with
    | wanted hwants => exact hfitting.onItsWay_of_wants h.ready hwants hintime hstep
    | asking hasks hqueued =>
      rcases queued_of_step hlossless hstep hqueued with hqueued' | ⟨position, sent, hsent, rfl⟩
      · exact .asking hasks hqueued'
      · exact .asked hasks (flight_send_broadcast { s with queued := s.queued.eraseIdx position }
          rfl h.linked hsent)
    | asked hasks hflight =>
      exact hfitting.onItsWay_of_asked h.ready h.holder hasks hflight hlossless hintime hstep
    | answering hbrings hqueued =>
      rcases queued_of_step hlossless hstep hqueued with hqueued' | ⟨position, sent, hsent, rfl⟩
      · exact .answering hbrings hqueued'
      · exact .answered hbrings (flight_send_direct { s with queued := s.queued.eraseIdx position }
          rfl (hsent 0))
    | answered hbrings hflight =>
      exact hfitting.onItsWay_of_answered h.ready hkey hbrings hflight hlossless hstep
    | held hheld => exact .held (held_of_step hstep o hheld)

omit [DecidableEq ι] in
/-- Nothing is under way for a node: nothing is queued or in flight, and no key of its own waits in
its tables. -/
structure AtRest (s : NetworkState ι) (o : ι) : Prop where
  /-- Nothing is queued. -/
  queued : s.queued = []
  /-- Nothing is in flight. -/
  flight : s.flight = []
  /-- No direct request waits for its answer. -/
  fallback : (s.nodes o).content_bf_fallback.pendingCount = 0
  /-- No batch waits for a flush. -/
  pending : (s.nodes o).query_bloom_aggregator.pending_batches = []
  /-- No key does. -/
  buffer : ((s.nodes o).query_bloom_aggregator.buffer (s.nodes o).config.node_id).has_data = false

omit [DecidableEq ι] in
/-- At rest, what was on its way has come. -/
theorem AtRest.held (hrest : AtRest s o) (h : OnItsWay W configs o j key s) :
    key ∈ (s.nodes o).held := by
  cases h with
  | wanted hwants =>
    rcases hwants with ⟨e, he, -⟩ | ⟨batch, hbatch, -⟩ | ⟨-, hdata, -⟩
    · have hempty : (s.nodes o).content_bf_fallback.entries.entries = [] :=
        List.length_eq_zero_iff.mp hrest.fallback
      have hentry := lookup_eq_some_iff.mp he
      rw [hempty] at hentry
      exact absurd hentry List.not_mem_nil
    · rw [hrest.pending] at hbatch
      exact absurd hbatch List.not_mem_nil
    · rw [hrest.buffer] at hdata
      exact absurd hdata Bool.false_ne_true
  | asking hasks hqueued => exact absurd (hrest.queued ▸ hqueued) List.not_mem_nil
  | asked hasks hflight => exact absurd (hrest.flight ▸ hflight) List.not_mem_nil
  | answering hbrings hqueued => exact absurd (hrest.queued ▸ hqueued) List.not_mem_nil
  | answered hbrings hflight => exact absurd (hrest.flight ▸ hflight) List.not_mem_nil
  | held hheld => exact hheld

end Answer

/-- Decidable, as the test of the code is. -/
instance (n : Node) (env : Env) (created_ms : UInt64) : Decidable (n.Fresh env created_ms) :=
  inferInstanceAs (Decidable (_ → _ ≤ _))

/-- Decidable, as there is one time at most: the instance for a finite type would try all times. -/
instance (n : Node) (env : Env) (created : Option UInt64) :
    Decidable (∀ created_ms ∈ created, n.Fresh env created_ms) :=
  Option.decidableForallMem created

/-- Decidable, as the tests of the code are. -/
instance (W : Wiring ι) (s : NetworkState ι) : (a : Action ι) → Decidable (InTime W s a)
  | .deliver _ _ _ =>
    inferInstanceAs (Decidable (∀ msg ∈ _, _ → ∀ created_ms ∈ _, Node.Fresh _ _ created_ms))
  | .work _ _ _ => inferInstanceAs (Decidable (Node.Undisturbed _ _ _ _))
  | .lose _ => isTrue trivial
  | .duplicate _ => isTrue trivial
  | .dispatch _ _ => isTrue trivial
  | .dropQueued _ => isTrue trivial

end NetworkState

end Netos
