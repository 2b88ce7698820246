import Netos.Lib.CString
import Mathlib.Data.Rat.Defs
import Mathlib.Algebra.Order.Ring.Rat

/-!
# The configuration

`core/config.h` and `core/config_validation.cpp`. `validate_config` returns the first error it
finds; every check is one `check`, in the source's order, and `validateConfig_eq_ok_iff` says what a
configuration that passes satisfies. The fill ratio is an exact rational where the source has a
`double`.
-/

namespace Netos

open CString

/-- `KeyValue`. -/
structure KeyValue where
  /-- The key. -/
  key : Bytes
  /-- The value. -/
  value : Bytes
deriving DecidableEq

/-- `NeighborConfig`. -/
structure NeighborConfig where
  /-- The host name. -/
  host : Bytes
  /-- The port. -/
  port : Int32 := 0
deriving DecidableEq

/-- `Config`. -/
structure Config where
  node_id : Bytes
  config_source : Bytes
  log_level : Bytes
  bind_ip : Bytes
  bind_port : Int32 := 0
  redis_socket : Bytes
  neighbors : List NeighborConfig
  seed_keys : List KeyValue
  request_keys : List Bytes
  request_delay_ms : Int32 := 500
  request_ttl : Int32 := 3
  query_ttl_ms : Int32 := 1500
  sync_table_capacity : Int32 := 128
  content_bf_bits : Int32 := 512
  content_bf_hashes : Int32 := 3
  content_bf_exchange_ms : Int32 := 1000
  content_bf_ttl_ms : Int32 := 3000
  content_bf_fallback_ms : Int32 := 300
  query_bf_bits : Int32 := 1024
  query_bf_hashes : Int32 := 4
  query_bf_aggregation_ms : Int32 := 200
  query_bf_ttl_ms : Int32 := 2000
  query_bf_max_fill_ratio : ℚ := 9 / 10
  query_bf_max_keys : Int32 := 0
  broadcast_attempt_limit : Int32 := 3
  broadcast_window_ms : Int32 := 1000
  topology_reload_ms : Int32 := 0
  async_forward_enable : Bool := true
  forward_workers : Int32 := 1
  forward_queue_max : Int32 := 1024
  forward_drop_policy : Bytes := ascii "drop_newest"

/-- One check of `validate_config`: the error when the condition holds. -/
def check (bad : Prop) [Decidable bad] (error : String) : Except Bytes Unit :=
  if bad then .error (ascii error) else .ok ()

/-- A port number of a socket. -/
def badPort (port : Int32) : Prop := port ≤ 0 ∨ port > 65535

/-- Decidable, as the comparisons are. -/
instance (port : Int32) : Decidable (badPort port) := inferInstanceAs (Decidable (_ ∨ _))

/-- The checks of `validate_config` on one neighbor. -/
def validateNeighbor (neighbor : NeighborConfig) : Except Bytes Unit := do
  check (neighbor.host = []) "neighbor host is empty"
  check (badPort neighbor.port) "neighbor port must be between 1 and 65535"

/-- `validate_config`. -/
def validateConfig (config : Config) : Except Bytes Unit := do
  check (config.node_id = []) "node_id is empty"
  check (badPort config.bind_port) "bind_port must be between 1 and 65535"
  check (config.request_ttl ≤ 0) "request_ttl must be positive"
  check (config.request_delay_ms < 0) "request_delay_ms must be non-negative"
  check (config.query_ttl_ms ≤ 0) "query_ttl_ms must be positive"
  check (config.sync_table_capacity ≤ 0) "sync_table_capacity must be positive"
  check (config.content_bf_bits ≤ 0) "content_bf_bits must be positive"
  check (config.content_bf_hashes ≤ 0) "content_bf_hashes must be positive"
  check (config.content_bf_exchange_ms ≤ 0) "content_bf_exchange_ms must be positive"
  check (config.content_bf_ttl_ms ≤ 0) "content_bf_ttl_ms must be positive"
  check (config.content_bf_fallback_ms ≤ 0) "content_bf_fallback_ms must be positive"
  check (config.query_bf_bits ≤ 0) "query_bf_bits must be positive"
  check (config.query_bf_hashes ≤ 0) "query_bf_hashes must be positive"
  check (config.query_bf_aggregation_ms ≤ 0) "query_bf_aggregation_ms must be positive"
  check (config.query_bf_ttl_ms ≤ 0) "query_bf_ttl_ms must be positive"
  check (config.query_bf_max_fill_ratio < 0 ∨ config.query_bf_max_fill_ratio > 1)
    "query_bf_max_fill_ratio must be between 0 and 1"
  check (config.query_bf_max_keys < 0) "query_bf_max_keys must be non-negative"
  check (config.broadcast_attempt_limit ≤ 0) "broadcast_attempt_limit must be positive"
  check (config.broadcast_window_ms ≤ 0) "broadcast_window_ms must be positive"
  check (config.topology_reload_ms < 0) "topology_reload_ms must be non-negative"
  check (config.forward_workers ≤ 0) "forward_workers must be positive"
  check (config.forward_queue_max ≤ 0) "forward_queue_max must be positive"
  check (config.forward_drop_policy ≠ ascii "drop_newest")
    "forward_drop_policy must be drop_newest"
  config.neighbors.forM validateNeighbor

/-- What a validated configuration satisfies. -/
@[mk_iff]
structure Config.Valid (config : Config) : Prop where
  node_id : config.node_id ≠ []
  bind_port : ¬ badPort config.bind_port
  request_ttl : 0 < config.request_ttl
  request_delay_ms : 0 ≤ config.request_delay_ms
  query_ttl_ms : 0 < config.query_ttl_ms
  sync_table_capacity : 0 < config.sync_table_capacity
  content_bf_bits : 0 < config.content_bf_bits
  content_bf_hashes : 0 < config.content_bf_hashes
  content_bf_exchange_ms : 0 < config.content_bf_exchange_ms
  content_bf_ttl_ms : 0 < config.content_bf_ttl_ms
  content_bf_fallback_ms : 0 < config.content_bf_fallback_ms
  query_bf_bits : 0 < config.query_bf_bits
  query_bf_hashes : 0 < config.query_bf_hashes
  query_bf_aggregation_ms : 0 < config.query_bf_aggregation_ms
  query_bf_ttl_ms : 0 < config.query_bf_ttl_ms
  query_bf_max_fill_ratio : 0 ≤ config.query_bf_max_fill_ratio ∧ config.query_bf_max_fill_ratio ≤ 1
  query_bf_max_keys : 0 ≤ config.query_bf_max_keys
  broadcast_attempt_limit : 0 < config.broadcast_attempt_limit
  broadcast_window_ms : 0 < config.broadcast_window_ms
  topology_reload_ms : 0 ≤ config.topology_reload_ms
  forward_workers : 0 < config.forward_workers
  forward_queue_max : 0 < config.forward_queue_max
  forward_drop_policy : config.forward_drop_policy = ascii "drop_newest"
  neighbors : ∀ neighbor ∈ config.neighbors, neighbor.host ≠ [] ∧ ¬ badPort neighbor.port

/-- A check passes when its condition does not hold. -/
theorem check_eq_ok_iff {bad : Prop} [Decidable bad] {error : String} :
    check bad error = .ok () ↔ ¬ bad := by
  unfold check
  split_ifs with h <;> simp [h]

/-- A sequence of two validations passes when both do. -/
theorem bind_eq_ok_iff {x : Except Bytes Unit} {f : Unit → Except Bytes Unit} :
    (x >>= f) = .ok () ↔ x = .ok () ∧ f () = .ok () := by
  cases x <;> simp [bind, Except.bind]

/-- A loop of validations passes when each does. -/
theorem forM_eq_ok_iff {α : Type} {f : α → Except Bytes Unit} {l : List α} :
    l.forM f = .ok () ↔ ∀ a ∈ l, f a = .ok () := by
  induction l with
  | nil => simp [List.forM, pure, Except.pure]
  | cons a l ih =>
    have hstep : (a :: l).forM f = (f a >>= fun _ => l.forM f) := rfl
    rw [hstep, bind_eq_ok_iff, ih, List.forall_mem_cons]

/-- `validate_config` accepts exactly the valid configurations. -/
theorem validateConfig_eq_ok_iff (config : Config) :
    validateConfig config = .ok () ↔ config.Valid := by
  have hneighbor : ∀ n, validateNeighbor n = .ok () ↔ n.host ≠ [] ∧ ¬ badPort n.port :=
    fun n => by rw [validateNeighbor, bind_eq_ok_iff, check_eq_ok_iff, check_eq_ok_iff]
  simp only [validateConfig, bind_eq_ok_iff, check_eq_ok_iff, forM_eq_ok_iff, hneighbor,
    Config.valid_iff, not_or, Int32.not_le, Int32.not_lt, not_lt, ne_eq, not_not]

end Netos
