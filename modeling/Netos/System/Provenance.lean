import Netos.System.Network

/-!
# Where values come from

Every value that Redis holds was seeded under its key by some node, as long as every `DATA` that is
sent survives its encoding. `provenance` is that statement over every run: whatever is lost,
duplicated or reordered, every store holds seeded pairs only, and a `DATA` in flight arrives as the
message that was encoded, with the value that Redis of its server held.

The condition is `Intact`. The encoding separates its fields by a bar and does not escape it, and
the receive buffer keeps 2047 bytes, so a value with a bar, or a long one, is stored in part
(`provenance_fails_on_bar`).
-/

namespace Netos

open CString

namespace NetworkState

variable {ι : Type*}

/-- Some node was seeded with the pair. -/
def Seeded (configs : ι → Config) (key value : Bytes) : Prop :=
  ∃ i, ⟨key, value⟩ ∈ (configs i).seed_keys

/-- Redis of the node holds seeded pairs. -/
def HoldsSeeded (configs : ι → Config) (n : Node) : Prop :=
  ∀ key value, n.redis key = some value → Seeded configs key value

/-- The condition on a step: a `DATA` that is sent survives its encoding and the receive buffer. -/
def Intact (s : NetworkState ι) : Action ι → Prop
  | .dispatch position _ => ∀ item, s.queued[position]? = some item → item.send.msg.type = .data →
      UdpTransport.Fits item.send.msg
  | _ => True

/-- Decidable, so that a run can be checked. -/
instance (s : NetworkState ι) : ∀ a, Decidable (Intact s a)
  | .dispatch position _ =>
    match h : s.queued[position]? with
    | none => isTrue (by simp [Intact, h])
    | some item => decidable_of_iff (item.send.msg.type = .data → UdpTransport.Fits item.send.msg)
        (by simp [Intact, h])
  | .deliver .. | .lose _ | .duplicate _ | .dropQueued _ | .work .. => isTrue trivial

/-- Some node answered with the key and the value of the message, as its Redis held them. -/
def Served (s : NetworkState ι) (msg : Message) : Prop :=
  ∃ node, (⟨node, msg.key, some msg.value⟩ : Answered ι) ∈ s.answered

/-- The invariant: what is stored, what is queued and what is in flight was seeded. -/
structure Provenance (configs : ι → Config) (s : NetworkState ι) : Prop where
  /-- The configurations stay. -/
  config : ∀ i, (s.nodes i).config = configs i
  /-- Redis holds seeded pairs. -/
  redis : ∀ i, HoldsSeeded configs (s.nodes i)
  /-- What was answered was seeded. -/
  answered : ∀ e ∈ s.answered, ∀ value, e.held = some value → Seeded configs e.key value
  /-- A `DATA` in a forward queue is an answer. -/
  queued : ∀ q ∈ s.queued, q.send.msg.type = .data → Served s q.send.msg
  /-- A datagram is the encoding of a message. -/
  encoded : ∀ d ∈ s.flight, d.payload = d.sent.toWire
  /-- A `DATA` in flight is an answer, and survives. -/
  flight : ∀ d ∈ s.flight, d.sent.type = .data → Served s d.sent ∧ UdpTransport.Fits d.sent

/-- Answers are not forgotten. -/
theorem Served.mono {s s' : NetworkState ι} {msg : Message} (h : Served s msg)
    (hsub : s.answered ⊆ s'.answered) : Served s' msg := by
  obtain ⟨node, hmem⟩ := h
  exact ⟨node, hsub hmem⟩

/-- What was answered was seeded. -/
theorem Provenance.seeded_of_served {configs : ι → Config} {s : NetworkState ι}
    (h : Provenance configs s) {msg : Message} (hserved : Served s msg) :
    Seeded configs msg.key msg.value := by
  obtain ⟨node, hmem⟩ := hserved
  exact h.answered _ hmem _ rfl

/-- A datagram that arrives as a `DATA` arrives as it was sent. -/
theorem Provenance.eq_sent {configs : ι → Config} {s : NetworkState ι} (h : Provenance configs s)
    {d : Datagram ι} (hmem : d ∈ s.flight) {msg : Message}
    (harrives : UdpTransport.arrives d.payload = some msg) (htype : msg.type = .data) :
    msg = d.sent ∧ Served s msg := by
  rw [h.encoded d hmem] at harrives
  -- The type survives whatever is cut off, so a `DATA` was sent, and the guard was about it.
  have hsent : d.sent.type = .data := by
    rw [← UdpTransport.type_of_arrives harrives]
    exact htype
  obtain ⟨hserved, hfits⟩ := h.flight d hmem hsent
  obtain rfl : d.sent = msg :=
    Option.some.inj ((UdpTransport.arrives_of_fits hfits).symm.trans harrives)
  exact ⟨rfl, hserved⟩

/-- A `DATA` among the replies of a node is recorded as an answer. -/
theorem served_of_reply {n : Node} {msg : Message} {sender : SockaddrIn} {sends : List Send}
    {item : Send} (node : ι) (hmem : item ∈ sends) (hreply : Node.Reply n msg sender item)
    (hrequest : msg.type = .request ∨ msg.type = .queryBloom) (hdata : item.msg.type = .data) :
    (⟨node, item.msg.key, some item.msg.value⟩ : Answered ι) ∈
      sends.filterMap (answer node n.redis) := by
  cases hreply with
  | answer request_id key value on_success held =>
    refine List.mem_filterMap.mpr ⟨_, hmem, ?_⟩
    simp only [answer, Send.msg, held]
  | relay =>
    -- A relay has the type of what it relays.
    have htype : msg.type = .data := hdata
    rcases hrequest with h | h
    · exact absurd (htype.symm.trans h) (by decide)
    · exact absurd (htype.symm.trans h) (by decide)

/-- A node that handles a datagram holds seeded pairs afterwards. -/
theorem Provenance.seeded_of_handled {configs : ι → Config} {s : NetworkState ι}
    (h : Provenance configs s) {node : ι} {datagram : Datagram ι} {msg : Message} {n : Node}
    {sends : List Send} (hmem : datagram ∈ s.flight)
    (harrives : UdpTransport.arrives datagram.payload = some msg)
    (hhandled : Node.Handled (s.nodes node) msg datagram.src (n, sends)) {key value : Bytes}
    (hvalue : n.redis key = some value) : Seeded configs key value := by
  rcases hhandled.redis with hsame | ⟨htype, hstored⟩
  · rw [hsame] at hvalue
    exact h.redis node key value hvalue
  · -- What is stored is the value of a `DATA` that arrived as it was sent.
    obtain ⟨-, hserved⟩ := h.eq_sent hmem harrives htype
    rw [hstored, Function.update_apply] at hvalue
    split_ifs at hvalue with hkey
    · rw [hkey, ← Option.some.inj hvalue]
      exact h.seeded_of_served hserved
    · exact h.redis node key value hvalue

/-- What a node answers was seeded. -/
theorem Provenance.seeded_of_answer {configs : ι → Config} {s : NetworkState ι}
    (h : Provenance configs s) {node : ι} {sends : List Send} {e : Answered ι}
    (hmem : e ∈ sends.filterMap (answer node (s.nodes node).redis)) {value : Bytes}
    (hvalue : e.held = some value) : Seeded configs e.key value := by
  obtain ⟨item, -, hanswer⟩ := List.mem_filterMap.mp hmem
  cases item with
  | direct addr m on_success =>
    obtain rfl := Option.some.inj hanswer
    exact h.redis node _ value hvalue
  | broadcast m exclude => exact absurd hanswer (by simp [answer])

/-- A round of a node's own threads leaves seeded pairs in Redis. -/
theorem Provenance.seeded_of_worked {configs : ι → Config} {s : NetworkState ι}
    (h : Provenance configs s) {node : ι} {task : Node.Task} {n : Node} {sends : List Send}
    (hworked : Node.Worked (s.nodes node) task (n, sends)) {key value : Bytes}
    (hvalue : n.redis key = some value) : Seeded configs key value := by
  rcases hworked.redis with hsame | ⟨kv, hkv, hstored⟩
  · rw [hsame] at hvalue
    exact h.redis node key value hvalue
  · rw [hstored, Function.update_apply] at hvalue
    split_ifs at hvalue with hkey
    · rw [h.config node] at hkv
      rw [hkey, ← Option.some.inj hvalue]
      exact ⟨node, hkv⟩
    · exact h.redis node key value hvalue

/-- A step that changes the pools only, and no message in them, keeps the invariant. -/
theorem Provenance.of_pools {configs : ι → Config} {s : NetworkState ι} (h : Provenance configs s)
    {queued : List (Queued ι)} {flight : List (Datagram ι)} (hqueued : queued ⊆ s.queued)
    (hflight : flight ⊆ s.flight) : Provenance configs { s with queued, flight } where
  config := h.config
  redis := h.redis
  answered := h.answered
  queued q hq := h.queued q (hqueued hq)
  encoded d hd := h.encoded d (hflight hd)
  flight d hd := h.flight d (hflight hd)

variable [DecidableEq ι]

/-- Every intact step keeps the invariant. -/
theorem Provenance.step {W : Wiring ι} {configs : ι → Config} {s s' : NetworkState ι}
    {a : Action ι} (h : Provenance configs s) (hintact : Intact s a)
    (hstep : step W s a = some s') : Provenance configs s' := by
  cases stepped_of_step hstep with
  | @deliver position node env datagram msg n sends hmem haddress harrives hhandled =>
    have hmem' : datagram ∈ s.flight := List.mem_of_getElem? hmem
    have hsub : s.answered ⊆
        s.answered ++ sends.filterMap (answer node (s.nodes node).redis) :=
      List.subset_append_left _ _
    -- The new answers are in the log, and their values are those that Redis held.
    refine ⟨?_, ?_, ?_, ?_, ?_, ?_⟩
    · exact forall_node_update (fun i m => m.config = configs i) h.config
        (hhandled.config.trans (h.config node))
    · exact forall_node_update (fun _ m => HoldsSeeded configs m) h.redis fun key value =>
        h.seeded_of_handled hmem' harrives hhandled
    · intro e he value hvalue
      rcases List.mem_append.mp he with he | he
      · exact h.answered e he value hvalue
      · exact h.seeded_of_answer he hvalue
    · intro q hq hdata
      rcases List.mem_append.mp hq with hq | hq
      · exact (h.queued q hq hdata).mono hsub
      · obtain ⟨item, hitem, rfl⟩ := List.mem_map.mp hq
        obtain ⟨hrequest, -, hreply⟩ := hhandled.sends item hitem
        exact ⟨node, List.mem_append_right _ (served_of_reply node hitem hreply hrequest hdata)⟩
    · exact fun d hd => h.encoded d (List.mem_of_mem_eraseIdx hd)
    · intro d hd hdata
      obtain ⟨hserved, hfits⟩ := h.flight d (List.mem_of_mem_eraseIdx hd) hdata
      exact ⟨hserved.mono hsub, hfits⟩
  | discard hmem => exact h.of_pools (List.Subset.refl _) (List.eraseIdx_subset)
  | lose hmem => exact h.of_pools (List.Subset.refl _) (List.eraseIdx_subset)
  | duplicate hmem =>
    refine h.of_pools (List.Subset.refl _) (List.append_subset.mpr ⟨List.Subset.refl _, ?_⟩)
    exact List.cons_subset.mpr ⟨List.mem_of_getElem? hmem, List.nil_subset _⟩
  | @dispatch position sent item n emitted hmem hconfig hredis hreaches hcopy hdst =>
    have hmem' : item ∈ s.queued := List.mem_of_getElem? hmem
    refine ⟨?_, ?_, h.answered, ?_, ?_, ?_⟩
    · exact forall_node_update (fun i m => m.config = configs i) h.config
        (hconfig.trans (h.config item.node))
    · refine forall_node_update (fun _ m => HoldsSeeded configs m) h.redis ?_
      intro key value hvalue
      rw [hredis] at hvalue
      exact h.redis item.node key value hvalue
    · exact fun q hq => h.queued q (List.mem_of_mem_eraseIdx hq)
    · intro d hd
      rcases List.mem_append.mp hd with hd | hd
      · exact h.encoded d hd
      · obtain ⟨hpayload, hsent, -⟩ := hcopy d hd
        rw [hpayload, hsent]
    · intro d hd hdata
      rcases List.mem_append.mp hd with hd | hd
      · exact h.flight d hd hdata
      · -- The guard is about the message that is copied here.
        obtain ⟨-, hsent, -⟩ := hcopy d hd
        rw [hsent] at hdata ⊢
        exact ⟨h.queued item hmem' hdata, hintact item hmem hdata⟩
  | dropQueued hmem => exact h.of_pools List.eraseIdx_subset (List.Subset.refl _)
  | @work node env task n sends hworked =>
    refine ⟨?_, ?_, h.answered, ?_, h.encoded, h.flight⟩
    · exact forall_node_update (fun i m => m.config = configs i) h.config
        (hworked.config.trans (h.config node))
    · exact forall_node_update (fun _ m => HoldsSeeded configs m) h.redis fun key value =>
        h.seeded_of_worked hworked
    · intro q hq hdata
      rcases List.mem_append.mp hq with hq | hq
      · exact h.queued q hq hdata
      · obtain ⟨item, hitem, rfl⟩ := List.mem_map.mp hq
        exact absurd hdata (hworked.sends item hitem)

omit [DecidableEq ι] in
/-- The invariant holds at the start. -/
theorem Provenance.init (configs : ι → Config) : Provenance configs (init configs) where
  config _ := rfl
  redis _ _ _ hvalue := absurd hvalue (Option.some_ne_none _).symm
  answered _ he := absurd he List.not_mem_nil
  queued _ hq := absurd hq List.not_mem_nil
  encoded _ hd := absurd hd List.not_mem_nil
  flight _ hd := absurd hd List.not_mem_nil

/-- Where values come from. For any nodes, configurations, addresses and resolvers, and in every run
from the start in which every `DATA` that is sent survives its encoding, with any loss, duplication
and reordering: what Redis holds was seeded under its key by some node, and a datagram that arrives
as a `DATA` arrives as the message that was encoded, with a value that Redis of the node that
answered held. -/
theorem provenance (W : Wiring ι) (configs : ι → Config) (actions : List (Action ι))
    (s : NetworkState ι) (hrun : Machine.run (step W) (init configs) actions = some s)
    (hintact : Machine.Guarded (step W) Intact (init configs) actions) :
    (∀ i key value, (s.nodes i).redis key = some value → Seeded configs key value) ∧
      ∀ d ∈ s.flight, ∀ msg, UdpTransport.arrives d.payload = some msg → msg.type = .data →
        msg = d.sent ∧ Served s msg := by
  have h : Provenance configs s :=
    Machine.Guarded.invariant (fun _ _ _ hinv hguard hstep => Provenance.step hinv hguard hstep)
      (Provenance.init configs) hintact hrun
  exact ⟨h.redis, fun d hd msg harrives htype => h.eq_sent hd harrives htype⟩

/-- What Redis of the origin holds under `k` after the pull of a value. -/
def pulled (value : Bytes) : Option (Option Bytes) :=
  (Machine.run (step peerWiring) (init (peerConfig value)) pull).map fun s =>
    (s.nodes .origin).redis (ascii "k")

/-- A value without a bar is pulled, and was seeded. -/
theorem provenance_without_bar : ∃ s,
    Machine.run (step peerWiring) (init (peerConfig (ascii "a"))) pull = some s ∧
      (s.nodes .origin).redis (ascii "k") = some (ascii "a") ∧
      Seeded (peerConfig (ascii "a")) (ascii "k") (ascii "a") := by
  have hpulled : pulled (ascii "a") = some (some (ascii "a")) := by decide +kernel
  obtain ⟨s, hrun, hvalue⟩ := Option.map_eq_some_iff.mp hpulled
  have hintact : Machine.Guarded (step peerWiring) Intact (init (peerConfig (ascii "a"))) pull := by
    decide +kernel
  exact ⟨s, hrun, hvalue, (provenance peerWiring _ pull s hrun hintact).1 .origin _ _ hvalue⟩

/-- A value with a bar is stored in part: the server is seeded with `a|b`, the origin holds `a`. -/
theorem provenance_fails_on_bar :
    (∀ p, validateConfig (peerConfig (ascii "a|b") p) = .ok ()) ∧
      ∃ s, Machine.run (step peerWiring) (init (peerConfig (ascii "a|b"))) pull = some s ∧
        (s.nodes .origin).redis (ascii "k") = some (ascii "a") ∧
        ¬ Seeded (peerConfig (ascii "a|b")) (ascii "k") (ascii "a") := by
  have hpulled : pulled (ascii "a|b") = some (some (ascii "a")) := by decide +kernel
  obtain ⟨s, hrun, hvalue⟩ := Option.map_eq_some_iff.mp hpulled
  refine ⟨fun p => ?_, s, hrun, hvalue, ?_⟩
  · rw [validateConfig_eq_ok_iff, Config.valid_iff]
    cases p <;> decide +kernel
  · rintro ⟨p, hp⟩
    cases p with
    | server => exact absurd hp (by decide)
    | origin => exact absurd hp List.not_mem_nil

end NetworkState

end Netos
