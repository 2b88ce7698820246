import Netos.Node.NodeRun

/-!
# Rejected input

What the four handlers drop before they touch anything: `Rejected` lists the datagrams, message type
by message type, from the fields of the decoded message, the configuration and the system clock.
`queryBloomFilter_eq_none_iff` and its siblings say that the lists are those of the handlers, and
`rejected_input_invisible` compares a run with the same run without them.
-/

namespace Netos

open CString Cxx

/-- The messages that a node rejects, with the system clock at `wall_ms`. -/
def Rejected (config : Config) (wall_ms : UInt64) (msg : Message) : Prop :=
  match msg.type with
  | .request => msg.request_id = [] ∨ msg.origin = [] ∨ msg.key = [] ∨ msg.ttl ≤ 0
  | .data =>
    msg.request_id = [] ∨ msg.origin = [] ∨ msg.key = [] ∨ msg.ttl ≤ 0 ∨
      msg.origin ≠ config.node_id
  | .contentBloom =>
    msg.origin = [] ∨ msg.key = [] ∨
      BloomFilter.fromHex (toSize config.content_bf_bits) (toSize config.content_bf_hashes)
        msg.key = none
  | .queryBloom =>
    msg.origin = [] ∨ msg.ttl ≤ 0 ∨ msg.key = [] ∨ msg.value = [] ∨
      BloomFilter.fromHex (toSize config.query_bf_bits) (toSize config.query_bf_hashes)
        msg.key = none ∨
      parseUint64 msg.value = none ∨
      ∃ created_ms, parseUint64 msg.value = some created_ms ∧ created_ms ≤ wall_ms ∧
        UInt64.ofInt config.query_bf_ttl_ms.toInt < wall_ms - created_ms
  | .unknown => True

namespace Node

variable (n : Node) (env : Env) {msg : Message} (sender : SockaddrIn)

/-- A `REQ` that is not valid changes nothing. -/
theorem handleRequest_of_not_valid (h : ¬ RequestPipeline.Valid msg) :
    n.handleRequest env msg sender = (n, []) := by
  obtain ⟨htable, hstate⟩ := RequestPipeline.run_of_not_valid n.query_table (n.redisGet env)
    env.prune_now env.record_now h
  unfold handleRequest
  dsimp only
  rw [htable]
  rcases hstate with hstate | hstate
  · rw [hstate]
  · rw [hstate]

/-- A `DATA` that is not stored changes nothing. -/
theorem handleData_of_not_storeLocal (h : (DataPipeline.run n.config msg).state ≠ .storeLocal) :
    n.handleData env msg = n := by
  unfold handleData
  split
  · rfl
  · rfl
  · next hstate => exact absurd hstate h

/-- A Content-BF without an origin, or without a filter that can be decoded, changes nothing. -/
theorem handleContentBloom_of_rejected
    (h : msg.origin = [] ∨ msg.key = [] ∨
      BloomFilter.fromHex (toSize n.config.content_bf_bits) (toSize n.config.content_bf_hashes)
        msg.key = none) :
    n.handleContentBloom env msg sender = n := by
  unfold handleContentBloom
  split_ifs with horigin hkey
  · rfl
  · rfl
  · rw [(h.resolve_left horigin).resolve_left hkey]

/-- The checks of `handle_query_bloom`. -/
theorem queryBloomFilter_eq_none_iff :
    n.queryBloomFilter env msg = none ↔
      msg.origin = [] ∨ msg.ttl ≤ 0 ∨ msg.key = [] ∨ msg.value = [] ∨
      BloomFilter.fromHex (toSize n.config.query_bf_bits) (toSize n.config.query_bf_hashes)
        msg.key = none ∨
      parseUint64 msg.value = none ∨
      ∃ created_ms, parseUint64 msg.value = some created_ms ∧ created_ms ≤ env.wall_ms ∧
        UInt64.ofInt n.config.query_bf_ttl_ms.toInt < env.wall_ms - created_ms := by
  unfold queryBloomFilter
  split_ifs with horigin httl hkey hvalue
  · simp [horigin]
  · simp [httl]
  · simp [hkey]
  · simp [hvalue]
  · cases hcreated : parseUint64 msg.value with
    | none => simp
    | some created_ms =>
      -- A batch from the future has age zero, which is never too much.
      by_cases hpast : created_ms ≤ env.wall_ms
      · by_cases hage : UInt64.ofInt n.config.query_bf_ttl_ms.toInt < env.wall_ms - created_ms
        · simp [hpast, hage]
        · simp [horigin, httl, hkey, hvalue, hpast, hage]
      · simp [horigin, httl, hkey, hvalue, hpast]

/-- A datagram that is malformed or carries a rejected message changes nothing. -/
theorem handleWireMessage_of_rejected {wire : Bytes}
    (h : ∀ msg, fromWire wire = some msg → Rejected n.config env.wall_ms msg) :
    n.handleWireMessage env wire sender = (n, []) := by
  cases hwire : fromWire wire with
  | none => exact handleWireMessage_of_none n env sender hwire
  | some msg =>
    have hrejected := h msg hwire
    unfold handleWireMessage Rejected at *
    rw [hwire]
    cases htype : msg.type with
    | request =>
      simp only [htype] at hrejected ⊢
      exact handleRequest_of_not_valid n env sender (RequestPipeline.not_valid_iff.mpr hrejected)
    | data =>
      simp only [htype] at hrejected ⊢
      rw [handleData_of_not_storeLocal n env (DataPipeline.not_storeLocal_iff.mpr hrejected)]
    | contentBloom =>
      simp only [htype] at hrejected ⊢
      rw [handleContentBloom_of_rejected n env sender hrejected]
    | queryBloom =>
      simp only [htype] at hrejected ⊢
      unfold handleQueryBloom
      rw [(queryBloomFilter_eq_none_iff n env).mpr hrejected]
    | unknown => simp only [htype]

end Node

namespace NodeRun

/-- The datagrams that a node rejects: they are malformed, or carry a rejected message. -/
def RejectedEvent (config : Config) : Event → Prop
  | .receive wire _ env _ => ∀ msg, fromWire wire = some msg → Rejected config env.wall_ms msg
  | .work _ _ _ => False
  | .dispatch _ => False

/-- A rejected datagram changes nothing. -/
theorem step_of_rejected (R : Resolver) (s : NodeRun) (e : Event)
    (h : RejectedEvent s.node.config e) : step R s e = some s := by
  cases e with
  | receive wire sender env sent =>
    simp only [step, Node.handleWireMessage_of_rejected s.node env sender h]
    rfl
  | work task env sent => exact h.elim
  | dispatch sent => exact h.elim

/-- Rejected input is invisible. In every state, a datagram that the node rejects leaves the node,
its forward queue and what it has sent as they are; and a run in which any number of such datagrams
is inserted anywhere is the run without them, up to the same state and the same messages sent. -/
theorem rejected_input_invisible (R : Resolver) (s : NodeRun) :
    (∀ e, RejectedEvent s.node.config e → step R s e = some s) ∧
      ∀ events events', Machine.Padded (RejectedEvent s.node.config) events events' →
        Machine.run (step R) s events' = Machine.run (step R) s events := by
  refine ⟨step_of_rejected R s, fun events events' hpadded => ?_⟩
  -- The configuration decides what is rejected, and no step changes it.
  have hkept : ∀ s₁ e s₂, s₁.node.config = s.node.config → step R s₁ e = some s₂ →
      s₂.node.config = s.node.config :=
    fun s₁ e s₂ h hstep => (frame_step hstep).1.trans h
  have hidle : ∀ s₁ e, s₁.node.config = s.node.config → RejectedEvent s.node.config e →
      step R s₁ e = some s₁ :=
    fun s₁ e h hrejected => step_of_rejected R s₁ e (h ▸ hrejected)
  exact hpadded.run_eq hkept hidle rfl

/-- A node without neighbors. -/
def aloneConfig : Config where
  node_id := ascii "node1"
  config_source := []
  log_level := ascii "info"
  bind_ip := ascii "0.0.0.0"
  bind_port := 9000
  redis_socket := ascii "/tmp/redis.sock"
  neighbors := []
  seed_keys := []
  request_keys := []

/-- A datagram that is received. -/
def received (wire : Bytes) : Event := .receive wire ⟨afInet, 9001, 2130706433⟩ {} fun _ _ => true

/-- Three rejected datagrams around a round of the node's own: text without a separator, a `REQ`
without hops left, and another node's `DATA`. -/
theorem rejected_input_invisible_three :
    let R : Resolver := ⟨fun _ _ => none, fun h => absurd h (by simp)⟩
    let work : Event := .work (.request (ascii "k")) {} fun _ _ => true
    Machine.run (step R) (init aloneConfig fun _ => none)
        [received (ascii "hello"), received (ascii "REQ|id|node2|0|k|"), work,
          received (ascii "DATA|id|node2|3|k|v")] =
      Machine.run (step R) (init aloneConfig fun _ => none) [work] := by
  intro R work
  have hmalformed : RejectedEvent aloneConfig (received (ascii "hello")) := by
    intro msg hmsg
    exact absurd hmsg (by simp [show fromWire (ascii "hello") = none by decide])
  have hrequest : RejectedEvent aloneConfig (received (ascii "REQ|id|node2|0|k|")) := by
    intro msg hmsg
    have hwire : fromWire (ascii "REQ|id|node2|0|k|") =
        some ⟨.request, ascii "id", ascii "node2", 0, ascii "k", []⟩ := by decide
    obtain rfl := Option.some.inj (hwire.symm.trans hmsg)
    exact Or.inr (Or.inr (Or.inr (by decide)))
  have hdata : RejectedEvent aloneConfig (received (ascii "DATA|id|node2|3|k|v")) := by
    intro msg hmsg
    have hwire : fromWire (ascii "DATA|id|node2|3|k|v") =
        some ⟨.data, ascii "id", ascii "node2", 3, ascii "k", ascii "v"⟩ := by decide
    obtain rfl := Option.some.inj (hwire.symm.trans hmsg)
    exact Or.inr (Or.inr (Or.inr (Or.inr (by decide))))
  exact (rejected_input_invisible R (init aloneConfig fun _ => none)).2 [work] _
    (.insert hmalformed (.insert hrequest (.keep work (.insert hdata .nil))))

end NodeRun

end Netos
