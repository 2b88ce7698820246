import Netos.Core.LoadConfig
import Netos.Node.NodeRun

/-!
# Reloading the topology

A node that starts with a configuration which `validate_config` accepts, and whose reload thread
loads a configuration anew, from any environment and any env file. The start and the reloads install
topologies by the same function, but only the start validates: a reload takes every neighbor that
`load_config` returns, and that checks a port for being positive alone.

`validated_iff` says which runs keep the topology validated: those in which no reload reads a
neighbor list with a port above 65535.
-/

namespace Netos.TopologyReload

open CString

/-- What happens to a node: a reload is apart, as it reads the environment and the files. -/
inductive Event where
  /-- Anything but a reload. -/
  | other (event : NodeRun.Event)
  /-- A round of `start_topology_reload`. -/
  | reload (environ : Environ) (files : Files)

/-- A reload among the rounds of a node's own threads. -/
def isReload : NodeRun.Event → Bool
  | .work (.reloadTopology _) _ _ => true
  | _ => false

/-- A round of the loop of `start_topology_reload`. The thread is there only if the period is
positive. `build_topology` does not fail. -/
def reload (strtod : Bytes → Option (ℚ × Bytes)) (s : NodeRun) (environ : Environ) (files : Files) :
    Option NodeRun :=
  if s.node.config.topology_reload_ms ≤ 0 then none
  else
    let latest := loadConfig strtod environ files
    if latest.error ≠ [] then some s
    else some { s with node := s.node.reloadTopology latest.config.neighbors }

/-- One step. -/
def step (R : Resolver) (strtod : Bytes → Option (ℚ × Bytes)) (s : NodeRun) :
    Event → Option NodeRun
  | .other event => if isReload event then none else NodeRun.step R s event
  | .reload environ files => reload strtod s environ files

/-! ## What should hold -/

/-- What `validate_config` demands of every neighbor. -/
def Validated (neighbors : List NeighborConfig) : Prop :=
  ∀ neighbor ∈ neighbors, neighbor.host ≠ [] ∧ ¬ badPort neighbor.port

/-- Decidable, as the comparisons are. -/
instance (neighbors : List NeighborConfig) : Decidable (Validated neighbors) :=
  inferInstanceAs (Decidable (∀ neighbor ∈ neighbors, _))

/-- The hosts and ports of a topology. -/
def endpoints (topology : Topology) : List NeighborConfig :=
  topology.neighbors.map fun n => ⟨n.host, n.port⟩

/-- A topology whose hosts and ports pass. -/
def ValidTopology (s : NodeRun) : Prop := Validated (endpoints s.node.network.topology)

/-- A reload that cannot load its configuration, or loads neighbors that do not pass, leaves the
topology as it is. -/
def KeptOnFailure (R : Resolver) (strtod : Bytes → Option (ℚ × Bytes)) (s : NodeRun) :
    Event → Prop
  | .other _ => True
  | .reload environ files =>
    (loadConfig strtod environ files).error ≠ [] ∨
        ¬ Validated (loadConfig strtod environ files).config.neighbors →
      ∀ s', step R strtod s (.reload environ files) = some s' →
        s'.node.network.topology = s.node.network.topology

/-- The condition on a neighbor list: no entry with a host has a port that is above 65535 when it is
narrowed to 32 bits. -/
def PortsInRange (raw : Bytes) : Prop :=
  ∀ entry ∈ split (trim raw) 44 true, ∀ host port, split entry 58 true = [host, port] →
    trim host ≠ [] → (strtolValue port).bmod (2 ^ 32) ≤ 65535

/-- The condition on a step: a reload that opens its env file reads a list with ports in range. -/
def ReadsInRange (s : NodeRun) : Event → Prop
  | .other _ => True
  | .reload environ files => 0 < s.node.config.topology_reload_ms →
    ∀ raw, neighborSetting environ files = some raw → PortsInRange raw

/-! ## Which neighbor lists pass -/

/-- A positive port passes exactly if it is at most 65535. -/
theorem badPort_iff_of_pos {port : Int32} (h : 0 < port) : badPort port ↔ 65535 < port.toInt := by
  unfold badPort
  rw [Int32.le_iff_toInt_le, gt_iff_lt, Int32.lt_iff_toInt_lt]
  rw [Int32.lt_iff_toInt_lt] at h
  have hzero : (0 : Int32).toInt = 0 := by decide
  have hmax : (65535 : Int32).toInt = 65535 := by decide
  omega

/-- The neighbors of a list pass exactly if its ports are in range. -/
theorem validated_parseNeighbors_iff (raw : Bytes) :
    Validated (parseNeighbors raw) ↔ PortsInRange raw := by
  constructor
  · intro h entry hentry host port hparts hhost
    by_contra hlarge
    -- Such a port is positive, so the entry is a neighbor.
    have hport : (Int32.ofInt (strtolValue port)).toInt = (strtolValue port).bmod (2 ^ 32) :=
      Int32.toInt_ofInt
    have hpos : 0 < Int32.ofInt (strtolValue port) := by
      rw [Int32.lt_iff_toInt_lt, hport]
      have hzero : (0 : Int32).toInt = 0 := by decide
      omega
    obtain ⟨-, hgood⟩ := h ⟨trim host, Int32.ofInt (strtolValue port)⟩
      (mem_parseNeighbors.mpr ⟨entry, hentry,
        parseNeighbor_eq_some_iff.mpr ⟨host, port, hparts, hhost, hpos, rfl⟩⟩)
    refine hgood ((badPort_iff_of_pos hpos).mpr ?_)
    rw [hport]
    omega
  · intro h neighbor hmem
    obtain ⟨entry, hentry, hneighbor⟩ := mem_parseNeighbors.mp hmem
    obtain ⟨host, port, hparts, hhost, hpos, rfl⟩ := parseNeighbor_eq_some_iff.mp hneighbor
    refine ⟨hhost, fun hbad => ?_⟩
    have hlarge := (badPort_iff_of_pos hpos).mp hbad
    have hrange := h entry hentry host port hparts hhost
    rw [Int32.toInt_ofInt] at hlarge
    exact absurd hrange (not_le.mpr hlarge)

/-! ## What a step does to the topology -/

/-- A configuration's topology has its hosts and ports. -/
theorem endpoints_buildTopology (neighbors : List NeighborConfig) :
    endpoints (buildTopology neighbors) = neighbors := by
  unfold endpoints buildTopology
  rw [List.map_map]
  exact List.map_id _

/-- A round of a broadcast keeps host and port. -/
theorem endpoint_broadcastTo (R : Resolver) (msg : Message) (exclude : Option SockaddrIn)
    (sent : Bool) (n : NeighborAddress) :
    (UdpNetwork.broadcastTo R msg exclude sent n).1.host = n.host ∧
      (UdpNetwork.broadcastTo R msg exclude sent n).1.port = n.port := by
  unfold UdpNetwork.broadcastTo UdpNetwork.sendToNeighbor
  split_ifs with hexcluded hfamily
  · exact ⟨rfl, rfl⟩
  · cases resolveAddress R n.host n.port with
    | none => exact ⟨rfl, rfl⟩
    | some addr => exact ⟨rfl, rfl⟩
  · exact ⟨rfl, rfl⟩

/-- A broadcast keeps the hosts and ports. -/
theorem endpoints_sendBroadcast (R : Resolver) (net : UdpNetwork) (msg : Message)
    (exclude : Option SockaddrIn) (sent : ℕ → Bool) :
    endpoints (net.sendBroadcast R msg exclude sent).1.topology = endpoints net.topology := by
  refine List.ext_getElem (by simp [endpoints, UdpNetwork.sendBroadcast]) fun i hi hi' => ?_
  simp only [endpoints, UdpNetwork.sendBroadcast, List.getElem_map, List.getElem_mapIdx]
  rw [(endpoint_broadcastTo R msg exclude (sent i) _).1,
    (endpoint_broadcastTo R msg exclude (sent i) _).2]

/-- A network call keeps the hosts and ports. -/
theorem endpoints_transmit (R : Resolver) (s : NodeRun) (sent : ℕ → Bool) (send : Send) :
    endpoints (s.transmit R sent send).node.network.topology =
      endpoints s.node.network.topology := by
  cases send with
  | direct addr msg on_success =>
    unfold NodeRun.transmit
    dsimp only
    split_ifs with hsent
    · cases on_success with
      | none => rfl
      | some entry => rfl
    · rfl
  | broadcast msg exclude => exact endpoints_sendBroadcast R s.node.network msg exclude sent

/-- So it is after any number of elements. -/
theorem endpoints_handOver (R : Resolver) (sent : ℕ → ℕ → Bool) (sends : List Send) (i : ℕ)
    (s : NodeRun) :
    endpoints (NodeRun.handOver R sent sends i s).node.network.topology =
      endpoints s.node.network.topology := by
  induction sends generalizing i s with
  | nil => rfl
  | cons send sends ih =>
    unfold NodeRun.handOver
    split_ifs with henabled hfull
    · exact ih (i + 1) s
    · exact ih (i + 1) { s with forward_queue := s.forward_queue ++ [send] }
    · rw [ih (i + 1) (s.transmit R (sent i) send), endpoints_transmit]

/-- Nothing but a reload changes the hosts and ports. -/
theorem endpoints_step {R : Resolver} {s s' : NodeRun} {event : NodeRun.Event}
    (hother : isReload event = false) (hstep : NodeRun.step R s event = some s') :
    endpoints s'.node.network.topology = endpoints s.node.network.topology := by
  cases event with
  | receive wire sender env sent =>
    obtain rfl := Option.some.inj hstep
    rw [endpoints_handOver]
    have hnetwork : (s.node.handleWireMessage env wire sender).1.network = s.node.network := by
      cases hwire : fromWire wire with
      | none => rw [Node.handleWireMessage_of_none s.node env sender hwire]
      | some msg => exact (Node.handled_wireMessage s.node env sender hwire).network
    exact congrArg (fun net : UdpNetwork => endpoints net.topology) hnetwork
  | work task env sent =>
    obtain rfl := Option.some.inj hstep
    rw [endpoints_handOver]
    rcases (Node.worked_runTask s.node env task).network with hnetwork | ⟨neighbors, rfl⟩
    · exact congrArg (fun net : UdpNetwork => endpoints net.topology) hnetwork
    · simp [isReload] at hother
  | dispatch sent =>
    cases hqueue : s.forward_queue with
    | nil => simp [NodeRun.step, hqueue] at hstep
    | cons send forward_queue =>
      obtain rfl : _ = s' := by simpa [NodeRun.step, hqueue] using hstep
      exact endpoints_transmit R { s with forward_queue } sent send

/-- What a reload does: nothing if loading fails, and else it installs what it loaded. -/
theorem reload_cases {strtod : Bytes → Option (ℚ × Bytes)} {s s' : NodeRun} {environ : Environ}
    {files : Files} (hstep : reload strtod s environ files = some s') :
    0 < s.node.config.topology_reload_ms ∧
      (neighborSetting environ files = none ∧ s' = s ∨
        ∃ raw, neighborSetting environ files = some raw ∧
          s' = { s with node := s.node.reloadTopology (parseNeighbors raw) }) := by
  unfold reload at hstep
  dsimp only at hstep
  split_ifs at hstep with hperiod herror
  · have hpos : 0 < s.node.config.topology_reload_ms := Int32.not_le.mp hperiod
    have hfailed := (error_loadConfig_iff strtod environ files).mp herror
    exact ⟨hpos, Or.inl ⟨hfailed, (Option.some.inj hstep).symm⟩⟩
  · have hpos : 0 < s.node.config.topology_reload_ms := Int32.not_le.mp hperiod
    rw [error_loadConfig_iff, ← ne_eq, Option.ne_none_iff_exists'] at herror
    obtain ⟨raw, hraw⟩ := herror
    rw [neighbors_loadConfig hraw] at hstep
    exact ⟨hpos, Or.inr ⟨raw, hraw, (Option.some.inj hstep).symm⟩⟩

/-- A reload from a valid topology leads to one exactly if it meets the condition. -/
theorem validTopology_reload_iff {strtod : Bytes → Option (ℚ × Bytes)} {s s' : NodeRun}
    {environ : Environ} {files : Files} (h : ValidTopology s)
    (hstep : reload strtod s environ files = some s') :
    ValidTopology s' ↔ ReadsInRange s (.reload environ files) := by
  obtain ⟨hpos, ⟨hfailed, rfl⟩ | ⟨raw, hraw, rfl⟩⟩ := reload_cases hstep
  · exact iff_of_true h fun _ raw hraw => by simp [hfailed] at hraw
  · have hendpoints : endpoints (s.node.reloadTopology (parseNeighbors raw)).network.topology =
        parseNeighbors raw := endpoints_buildTopology _
    unfold ValidTopology
    dsimp only
    rw [hendpoints, validated_parseNeighbors_iff]
    constructor
    · intro hrange _ raw' hraw'
      rwa [← Option.some.inj (hraw.symm.trans hraw')]
    · exact fun hreads => hreads hpos raw hraw

/-- A reload that meets the condition changes nothing when it fails, and never loads neighbors that
do not pass. -/
theorem keptOnFailure_of_readsInRange {R : Resolver} {strtod : Bytes → Option (ℚ × Bytes)}
    (s : NodeRun) (event : Event) (h : ReadsInRange s event) : KeptOnFailure R strtod s event := by
  cases event with
  | other event => trivial
  | reload environ files =>
    intro hfailure s' hstep
    obtain ⟨hpos, ⟨-, rfl⟩ | ⟨raw, hraw, -⟩⟩ := reload_cases hstep
    · rfl
    · have hloaded : ¬ (loadConfig strtod environ files).error ≠ [] := by
        rw [error_loadConfig_iff, hraw]
        exact Option.some_ne_none raw
      have hvalidated : Validated (loadConfig strtod environ files).config.neighbors := by
        rw [neighbors_loadConfig hraw, validated_parseNeighbors_iff]
        exact h hpos raw hraw
      exact absurd hfailure (not_or.mpr ⟨hloaded, not_not.mpr hvalidated⟩)

/-! ## The run -/

/-- Which runs keep the topology validated. In a run from a start with a configuration that passes,
with any datagrams, clocks, failures and reloads from any environments and env files, every topology
held consists of neighbors that pass and every reload that fails or loads others leaves it as it is,
if and only if no reload reads a neighbor list with a port above 65535. -/
theorem validated_iff (R : Resolver) (strtod : Bytes → Option (ℚ × Bytes)) (config : Config)
    (redis : RedisClient.Store) (hvalid : validateConfig config = .ok ()) (events : List Event) :
    Machine.Always (step R strtod) ValidTopology (.init config redis) events ∧
        Machine.Guarded (step R strtod) (KeptOnFailure R strtod) (.init config redis) events ↔
      Machine.Guarded (step R strtod) ReadsInRange (.init config redis) events := by
  have hstart : ValidTopology (.init config redis) := by
    have hendpoints : endpoints (NodeRun.init config redis).node.network.topology =
        config.neighbors := endpoints_buildTopology _
    unfold ValidTopology
    rw [hendpoints]
    exact ((validateConfig_eq_ok_iff config).mp hvalid).neighbors
  have hstep : ∀ s event s', True → ValidTopology s → step R strtod s event = some s' →
      (ValidTopology s' ↔ ReadsInRange s event) := fun s event s' _ h hstep => by
    cases event with
    | other event =>
      simp only [step, Option.ite_none_left_eq_some, Bool.not_eq_true] at hstep
      have hkept := endpoints_step hstep.1 hstep.2
      exact iff_of_true (by rwa [ValidTopology, hkept]) trivial
    | reload environ files => exact validTopology_reload_iff h hstep
  have henabled : ∀ s event, step R strtod s event = none → ReadsInRange s event :=
    fun s event hnone => by
      cases event with
      | other event => trivial
      | reload environ files =>
        -- The thread is not there.
        intro hpos
        simp only [step, reload, if_neg (Int32.not_le.mpr hpos)] at hnone
        split_ifs at hnone
  have halways := Machine.always_iff_guarded (fun _ _ _ _ _ => trivial) hstep henabled trivial
    hstart events
  refine ⟨fun h => halways.mp h.1, fun h => ⟨halways.mpr h, ?_⟩⟩
  exact h.mono keptOnFailure_of_readsInRange

/-- A node with one neighbor that reloads its topology. -/
def reloadingConfig : Config where
  node_id := ascii "node1"
  config_source := ascii "node1.env"
  log_level := ascii "info"
  bind_ip := ascii "0.0.0.0"
  bind_port := 9001
  redis_socket := ascii "/tmp/redis.sock"
  neighbors := [⟨ascii "node2", 9002⟩]
  seed_keys := []
  request_keys := []
  topology_reload_ms := 1000

/-- The environment, which names an env file. -/
def environ : Environ := namingFile (ascii "node1.env")

/-- The env file. -/
def envFile (content : String) : Files := oneFile (ascii "node1.env") (ascii content)

/-- The configuration passes. -/
theorem validateConfig_reloadingConfig : validateConfig reloadingConfig = .ok () := by
  rw [validateConfig_eq_ok_iff, Config.valid_iff]
  decide +kernel

/-- A reload installs another neighbor, and one that finds no env file changes nothing. -/
theorem validated_iff_two_reloads :
    Machine.Always (step UdpNetwork.resolverOfB fun _ => none) ValidTopology
        (.init reloadingConfig fun _ => none)
        [.reload environ (envFile "NETOS_NEIGHBORS=node3:9003"), .reload environ fun _ => none] ∧
      Machine.Guarded (step UdpNetwork.resolverOfB fun _ => none)
        (KeptOnFailure UdpNetwork.resolverOfB fun _ => none) (.init reloadingConfig fun _ => none)
        [.reload environ (envFile "NETOS_NEIGHBORS=node3:9003"),
          .reload environ fun _ => none] := by
  have hread : neighborSetting environ (envFile "NETOS_NEIGHBORS=node3:9003") =
      some (ascii "node3:9003") := by decide +kernel
  have hmissing : neighborSetting environ (fun _ => none) = none := by decide +kernel
  refine (validated_iff UdpNetwork.resolverOfB (fun _ => none) reloadingConfig (fun _ => none)
    validateConfig_reloadingConfig _).mpr ⟨fun _ raw hraw => ?_, fun s _ =>
      ⟨fun _ raw hraw => ?_, fun _ _ => trivial⟩⟩
  · rw [← Option.some.inj (hread.symm.trans hraw), ← validated_parseNeighbors_iff]
    decide +kernel
  · exact absurd (hmissing.symm.trans hraw) (Option.some_ne_none raw).symm

/-- A reload installs a port that the start would refuse. -/
theorem reload_installs_bad_port :
    validateConfig reloadingConfig = .ok () ∧
      (∃ s', step UdpNetwork.resolverOfB (fun _ => none) (.init reloadingConfig fun _ => none)
          (.reload environ (envFile "NETOS_NEIGHBORS=node2:70000")) = some s' ∧
        endpoints s'.node.network.topology = [⟨ascii "node2", 70000⟩]) ∧
      ¬ Machine.Always (step UdpNetwork.resolverOfB fun _ => none) ValidTopology
        (.init reloadingConfig fun _ => none)
        [.reload environ (envFile "NETOS_NEIGHBORS=node2:70000")] ∧
      ¬ Machine.Guarded (step UdpNetwork.resolverOfB fun _ => none)
        (KeptOnFailure UdpNetwork.resolverOfB fun _ => none) (.init reloadingConfig fun _ => none)
        [.reload environ (envFile "NETOS_NEIGHBORS=node2:70000")] := by
  have hread : neighborSetting environ (envFile "NETOS_NEIGHBORS=node2:70000") =
      some (ascii "node2:70000") := by decide +kernel
  have hneighbors : (loadConfig (fun _ => none) environ
      (envFile "NETOS_NEIGHBORS=node2:70000")).config.neighbors = [⟨ascii "node2", 70000⟩] := by
    rw [neighbors_loadConfig hread]
    decide +kernel
  have hloaded : ¬ (loadConfig (fun _ => none) environ
      (envFile "NETOS_NEIGHBORS=node2:70000")).error ≠ [] := by
    rw [error_loadConfig_iff, hread]
    exact Option.some_ne_none _
  have hstep : step UdpNetwork.resolverOfB (fun _ => none) (.init reloadingConfig fun _ => none)
      (.reload environ (envFile "NETOS_NEIGHBORS=node2:70000")) =
      some { NodeRun.init reloadingConfig fun _ => none with
        node := (NodeRun.init reloadingConfig fun _ => none).node.reloadTopology
          [⟨ascii "node2", 70000⟩] } := by
    unfold step reload
    dsimp only
    rw [if_neg (by decide), if_neg hloaded, hneighbors]
  refine ⟨validateConfig_reloadingConfig, ⟨_, hstep, endpoints_buildTopology _⟩, fun halways => ?_,
    fun hguarded => ?_⟩
  · have hvalid : Validated [⟨ascii "node2", 70000⟩] := by
      rw [← endpoints_buildTopology [⟨ascii "node2", 70000⟩]]
      exact halways.2 _ hstep
    exact absurd hvalid (by decide)
  · have hkept := hguarded.1 (Or.inr (by rw [hneighbors]; decide)) _ hstep
    exact absurd (congrArg (fun t => (endpoints t).map NeighborConfig.port) hkept) (by decide)

end Netos.TopologyReload
