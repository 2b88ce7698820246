import Netos.Core.Config
import Netos.Core.StringUtils
import Netos.Lib.Cxx

/-!
# Loading the configuration

`core/config.cpp`: the settings of a node come from the environment of the process and from one env
file, which the environment names. The environment and the files are functions, `none` where a
variable is not set or a file cannot be opened; `strtod` is a parameter, with a rational result as
the configuration has it.

`parseNeighbor_eq_some_iff` says which entries of the neighbor list become neighbors.
-/

namespace Netos

open CString Cxx

/-- The environment of the process. -/
abbrev Environ := Bytes → Option Bytes

/-- The contents of the files that can be opened. -/
abbrev Files := Bytes → Option Bytes

/-- An environment that names an env file and nothing else. -/
def namingFile (path : Bytes) : Environ := fun key =>
  if key = ascii "NETOS_CONFIG_FILE" then some path else none

/-- The files when only one can be opened. -/
def oneFile (path content : Bytes) : Files := fun p => if p = path then some content else none

/-- `EnvMap`. -/
abbrev EnvMap := UnorderedMap Bytes Bytes

/-- `std::getenv`: a C string. -/
def getenv (environ : Environ) (key : String) : Option Bytes := (environ (ascii key)).map cStr

/-- `get_env_only`. -/
def getEnvOnly (environ : Environ) (key : String) : Bytes := (getenv environ key).getD []

/-- `"`. -/
abbrev doubleQuote : UInt8 := 34

/-- `'`. -/
abbrev singleQuote : UInt8 := 39

/-- `strip_quotes`. -/
def stripQuotes (value : Bytes) : Bytes :=
  if value.length < 2 then value
  else if value.head? = some doubleQuote ∧ value.getLast? = some doubleQuote ∨
      value.head? = some singleQuote ∧ value.getLast? = some singleQuote then
    (value.drop 1).take (value.length - 2)
  else value

/-- The lines that a loop of `std::getline` reads: what stands after the last line end is a line
only if it is not empty. -/
def getlines (content : Bytes) : List Bytes :=
  let lines := content.splitOn 10
  if lines.getLast? = some [] then lines.dropLast else lines

/-- What the loop of `load_env_file` makes of a line: a key and its value, if the line has them. -/
def parseEnvLine (line : Bytes) : Option (Bytes × Bytes) :=
  let line := trim line
  if line = [] ∨ line.head? = some 35 then none
  else
    let line := if (ascii "export ").isPrefixOf line then trim (line.drop 7) else line
    match line.dropWhile (· != 61) with
    | [] => none
    | _ :: value =>
      let key := trim (line.takeWhile (· != 61))
      let value := trim value
      if key = [] then none else some (key, stripQuotes value)

/-- The loop of `load_env_file`: a later line for a key replaces the earlier ones. -/
def readEnv (content : Bytes) : EnvMap :=
  ((getlines content).filterMap parseEnvLine).foldl (fun m entry => m.insert entry.1 entry.2) ∅

/-- `load_env_file`. -/
def loadEnvFile (files : Files) (path : Bytes) : Except Bytes EnvMap :=
  match files path with
  | none => .error (ascii "unable to open config file " ++ path)
  | some content => .ok (readEnv content)

/-- `get_setting`: the environment goes before the file, and an empty value counts as none. -/
def getSetting (environ : Environ) (env_file : EnvMap) (key : String) (fallback : Bytes) : Bytes :=
  let env := getEnvOnly environ key
  if env ≠ [] then env
  else
    let value := (env_file.lookup (ascii key)).getD []
    if value ≠ [] then value else fallback

/-- `get_setting_int`: the `long` is narrowed to an `int`. -/
def getSettingInt (environ : Environ) (env_file : EnvMap) (key : String) (fallback : Int32) :
    Int32 :=
  let value := getSetting environ env_file key []
  if value = [] then fallback
  else
    match strtol value with
    | none => fallback
    | some (parsed, rest) => if rest ≠ [] then fallback else Int32.ofInt parsed

/-- `get_setting_double`. -/
def getSettingDouble (strtod : Bytes → Option (ℚ × Bytes)) (environ : Environ) (env_file : EnvMap)
    (key : String) (fallback : ℚ) : ℚ :=
  let value := getSetting environ env_file key []
  if value = [] then fallback
  else
    match strtod value with
    | none => fallback
    | some (parsed, rest) => if rest ≠ [] then fallback else parsed

/-- `std::tolower` in the C locale. -/
def toLower (c : UInt8) : UInt8 := if 65 ≤ c ∧ c ≤ 90 then c + 32 else c

/-- `get_setting_bool`. -/
def getSettingBool (environ : Environ) (env_file : EnvMap) (key : String) (fallback : Bool) :
    Bool :=
  let value := getSetting environ env_file key []
  if value = [] then fallback
  else
    let lowered := value.map toLower
    if lowered = ascii "1" ∨ lowered = ascii "true" ∨ lowered = ascii "yes" ∨
        lowered = ascii "on" then true
    else if lowered = ascii "0" ∨ lowered = ascii "false" ∨ lowered = ascii "no" ∨
        lowered = ascii "off" then false
    else fallback

/-- The env file that the environment names, empty if it names none. -/
def configPath (environ : Environ) : Bytes :=
  let explicit_path := trim (getEnvOnly environ "NETOS_CONFIG_FILE")
  if explicit_path ≠ [] then explicit_path
  else
    let topology_dir := trim (getEnvOnly environ "NETOS_TOPOLOGY_DIR")
    if topology_dir = [] then []
    else
      let node_id := trim (getEnvOnly environ "NETOS_NODE_ID")
      if node_id = [] then []
      else if topology_dir.getLast? = some 47 then topology_dir ++ node_id ++ ascii ".env"
      else topology_dir ++ ascii "/" ++ node_id ++ ascii ".env"

/-- The value of `std::strtol` when its end pointer is not looked at, zero if nothing is
converted. -/
def strtolValue (s : Bytes) : ℤ :=
  match strtol s with
  | none => 0
  | some (parsed, _) => parsed

/-- What `load_config` makes of an entry of the neighbor list: the end of the number is not looked
at, and the number is narrowed to an `int`. -/
def parseNeighbor (entry : Bytes) : Option NeighborConfig :=
  match split entry 58 true with
  | [host, port] =>
    let neighbor : NeighborConfig := ⟨trim host, Int32.ofInt (strtolValue port)⟩
    if neighbor.host ≠ [] ∧ neighbor.port > 0 then some neighbor else none
  | _ => none

/-- The neighbors of the neighbor list. -/
def parseNeighbors (raw : Bytes) : List NeighborConfig :=
  let neighbors_raw := trim raw
  if neighbors_raw = [] then [] else (split neighbors_raw 44 true).filterMap parseNeighbor

/-- What `load_config` makes of an entry of the seeds. The value is not trimmed. -/
def parseSeed (entry : Bytes) : Option KeyValue :=
  match entry.dropWhile (· != 61) with
  | [] => none
  | _ :: value =>
    let kv : KeyValue := ⟨trim (entry.takeWhile (· != 61)), value⟩
    if kv.key ≠ [] then some kv else none

/-- The pairs of the seeds. -/
def parseSeeds (raw : Bytes) : List KeyValue :=
  let seed_raw := trim raw
  if seed_raw = [] then [] else (split seed_raw 59 true).filterMap parseSeed

/-- The keys of the request list. -/
def parseRequests (raw : Bytes) : List Bytes :=
  let request_raw := trim raw
  if request_raw = [] then []
  else
    (split request_raw 44 true).filterMap fun entry =>
      let key := trim entry
      if key ≠ [] then some key else none

/-- What `load_config` returns: the configuration, the error, empty if there is none, and where the
settings come from. -/
structure Loaded where
  config : Config
  error : Bytes
  source : Bytes

/-- The settings of `load_config`, from the environment and what was read of the env file. -/
def configOf (strtod : Bytes → Option (ℚ × Bytes)) (environ : Environ) (env_file : EnvMap)
    (config_source : Bytes) : Config :=
  let setting := getSetting environ env_file
  let int := getSettingInt environ env_file
  { config_source
    node_id := setting "NETOS_NODE_ID" (ascii "node")
    bind_ip := setting "NETOS_BIND_IP" (ascii "0.0.0.0")
    bind_port := int "NETOS_BIND_PORT" 9000
    redis_socket := setting "NETOS_REDIS_SOCKET" (ascii "/var/run/redis/redis.sock")
    request_delay_ms := int "NETOS_REQUEST_DELAY_MS" 800
    request_ttl := int "NETOS_REQUEST_TTL" 3
    query_ttl_ms := int "NETOS_QUERY_TTL_MS" 1500
    sync_table_capacity := int "NETOS_SYNC_TABLE_CAPACITY" 128
    content_bf_bits := int "NETOS_CONTENT_BF_BITS" 512
    content_bf_hashes := int "NETOS_CONTENT_BF_HASHES" 3
    content_bf_exchange_ms := int "NETOS_CONTENT_BF_EXCHANGE_MS" 1000
    content_bf_ttl_ms := int "NETOS_CONTENT_BF_TTL_MS" 3000
    content_bf_fallback_ms := int "NETOS_CONTENT_BF_FALLBACK_MS" 300
    query_bf_bits := int "NETOS_QUERY_BF_BITS" 1024
    query_bf_hashes := int "NETOS_QUERY_BF_HASHES" 4
    query_bf_aggregation_ms :=
      int "NETOS_QUERY_BF_AGGREGATION_MS" (int "NETOS_AGGREGATION_WINDOW_MS" 200)
    query_bf_ttl_ms := int "NETOS_QUERY_BF_TTL_MS" 2000
    query_bf_max_fill_ratio :=
      getSettingDouble strtod environ env_file "NETOS_QUERY_BF_MAX_FILL_RATIO" (9 / 10)
    query_bf_max_keys := int "NETOS_QUERY_BF_MAX_KEYS" 0
    broadcast_attempt_limit := int "NETOS_BROADCAST_ATTEMPT_LIMIT" 3
    broadcast_window_ms := int "NETOS_BROADCAST_WINDOW_MS" 1000
    topology_reload_ms := int "NETOS_TOPOLOGY_RELOAD_MS" 0
    async_forward_enable := getSettingBool environ env_file "NETOS_ASYNC_ENABLE" true
    forward_workers := int "NETOS_FORWARD_WORKERS" 1
    forward_queue_max := int "NETOS_FORWARD_QUEUE_MAX" 1024
    forward_drop_policy := trim (setting "NETOS_FORWARD_DROP_POLICY" (ascii "drop_newest"))
    log_level := trim (setting "NETOS_LOG_LEVEL" [])
    neighbors := parseNeighbors (setting "NETOS_NEIGHBORS" [])
    seed_keys := parseSeeds (setting "NETOS_SEED_KEYS" [])
    request_keys := parseRequests (setting "NETOS_REQUEST_KEYS" []) }

/-- `load_config`. An env file that cannot be opened is an error, and the settings are then those of
the environment alone. -/
def loadConfig (strtod : Bytes → Option (ℚ × Bytes)) (environ : Environ) (files : Files) : Loaded :=
  let config_path := configPath environ
  if config_path = [] then
    ⟨configOf strtod environ ∅ (ascii "env"), [], ascii "env"⟩
  else
    match loadEnvFile files config_path with
    | .ok env_file => ⟨configOf strtod environ env_file config_path, [], config_path⟩
    | .error load_error => ⟨configOf strtod environ ∅ (ascii "env"), load_error, config_path⟩

/-! ## The neighbors of a configuration -/

/-- Which entries of the neighbor list become neighbors. -/
theorem parseNeighbor_eq_some_iff {entry : Bytes} {neighbor : NeighborConfig} :
    parseNeighbor entry = some neighbor ↔ ∃ host port, split entry 58 true = [host, port] ∧
      trim host ≠ [] ∧ 0 < Int32.ofInt (strtolValue port) ∧
      neighbor = ⟨trim host, Int32.ofInt (strtolValue port)⟩ := by
  unfold parseNeighbor
  constructor
  · intro h
    split at h
    · next host port hparts =>
      dsimp only at h
      split_ifs at h with hvalid
      exact ⟨host, port, hparts, hvalid.1, hvalid.2, (Option.some.inj h).symm⟩
    · cases h
  · rintro ⟨host, port, hparts, hhost, hport, rfl⟩
    rw [hparts]
    exact if_pos ⟨hhost, hport⟩

/-- The neighbors come from the entries of the trimmed list. -/
theorem mem_parseNeighbors {raw : Bytes} {neighbor : NeighborConfig} :
    neighbor ∈ parseNeighbors raw ↔
      ∃ entry ∈ split (trim raw) 44 true, parseNeighbor entry = some neighbor := by
  unfold parseNeighbors
  dsimp only
  split_ifs with hempty
  · simp [hempty, split]
  · rw [List.mem_filterMap]

/-- The neighbor list that `load_config` reads, `none` if the env file cannot be opened. -/
def neighborSetting (environ : Environ) (files : Files) : Option Bytes :=
  if configPath environ = [] then some (getSetting environ ∅ "NETOS_NEIGHBORS" [])
  else
    (files (configPath environ)).map fun content =>
      getSetting environ (readEnv content) "NETOS_NEIGHBORS" []

/-- Loading fails exactly if there is no list to read. -/
theorem error_loadConfig_iff (strtod : Bytes → Option (ℚ × Bytes)) (environ : Environ)
    (files : Files) :
    (loadConfig strtod environ files).error ≠ [] ↔ neighborSetting environ files = none := by
  unfold loadConfig neighborSetting loadEnvFile
  dsimp only
  split_ifs with hpath
  · simp
  · cases files (configPath environ) with
    | none => simp [ascii]
    | some content => simp

/-- The neighbors of the configuration are those of the list. -/
theorem neighbors_loadConfig {strtod : Bytes → Option (ℚ × Bytes)} {environ : Environ}
    {files : Files} {raw : Bytes} (h : neighborSetting environ files = some raw) :
    (loadConfig strtod environ files).config.neighbors = parseNeighbors raw := by
  unfold neighborSetting at h
  unfold loadConfig loadEnvFile
  dsimp only
  split_ifs at h ⊢ with hpath
  · rw [← Option.some.inj h]
    rfl
  · obtain ⟨content, hcontent, rfl⟩ := Option.map_eq_some_iff.mp h
    rw [hcontent]
    rfl

end Netos
