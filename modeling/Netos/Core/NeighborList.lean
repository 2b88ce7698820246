import Netos.Core.LoadConfig

/-!
# The neighbor list

`NETOS_NEIGHBORS` is a comma list of `host:port` entries. `statedNeighbors` is what such a list
states, with a port of digits as `check_topology_env.sh` wants it. The parser of `load_config` takes
every such entry, but it also takes others: it splits an entry at its colons without counting them,
does not look at the end of the port's number, and narrows it. `ReadInFull` excludes these, and
`neighbors_stated_iff` says that nothing else is wrong.
-/

namespace Netos

open CString Cxx

/-! ## What a list states -/

/-- The neighbor that an entry of the list states, if it states one. -/
def statedNeighbor (entry : Bytes) : Option NeighborConfig :=
  match ((trim entry).splitOn 58).map trim with
  | [host, port] =>
    if host ≠ [] ∧ port ≠ [] ∧ port.all isDigit = true ∧ 0 < digitsValue port ∧
        digitsValue port < 2 ^ 31 then
      some ⟨host, Int32.ofInt (digitsValue port)⟩
    else none
  | _ => none

/-- The neighbors that a list states, in order. -/
def statedNeighbors (raw : Bytes) : List NeighborConfig :=
  (raw.splitOn 44).filterMap statedNeighbor

/-- An entry that the parser of `load_config` takes has one colon and a port of digits only, of an
`int`. The parser takes an entry if it has two nonempty parts around its colons, the host is not
blank, and the port starts with a number that is positive as an `int`. -/
def ReadInFull (entry : Bytes) : Prop :=
  ∀ host port z rest, split entry 58 true = [host, port] → trim host ≠ [] →
    StartsWith port z rest → 0 < castInt z →
      entry.count 58 = 1 ∧ (∀ c ∈ trim port, isDigit c = true) ∧ z < 2 ^ 31

/-- What the env file says that `load_config` reads, nothing if there is none or it cannot be
opened. -/
def envFileOf (environ : Environ) (files : Files) : EnvMap :=
  if configPath environ = [] then ∅
  else
    match loadEnvFile files (configPath environ) with
    | .ok env_file => env_file
    | .error _ => ∅

/-- The neighbor list that `load_config` parses. -/
def neighborsRaw (environ : Environ) (files : Files) : Bytes :=
  getSetting environ (envFileOf environ files) "NETOS_NEIGHBORS" []

/-! ## Ports -/

/-- Digits between blanks are a numeral. -/
theorem startsWith_of_digits {port : Bytes} (hne : trim port ≠ [])
    (hdigits : ∀ c ∈ trim port, isDigit c = true) :
    ∃ rest, StartsWith port (digitsValue (trim port)) rest := by
  obtain ⟨front, back, hends, hfront, hback⟩ := Blanks.exists_ends isSpace port
  exact ⟨back, front, trim port, hends, hfront,
    ⟨[], trim port, rfl, Or.inl rfl, hne, hdigits, by rw [if_neg (List.cons_ne_nil 45 []).symm]⟩,
    fun c hc => isDigit_of_isSpace (hback c (List.mem_of_mem_head? hc))⟩

/-- The number that the parser finds at the start of a port. -/
theorem strtolValue_of_startsWith {port rest : Bytes} {z : ℤ} (h : StartsWith port z rest) :
    Int32.ofInt (strtolValue port) = castInt z := by
  rw [strtolValue, h.strtol_eq, castInt]

/-- The cast of a port that is an `int`. -/
theorem castInt_of_port {n : ℕ} (hlt : n < 2 ^ 31) : castInt n = Int32.ofInt n :=
  castInt_eq_ofInt (by omega) (by omega)

/-- It keeps the number of the port. -/
theorem toInt_of_port {n : ℕ} (hlt : n < 2 ^ 31) : (Int32.ofInt n).toInt = n :=
  Int32.toInt_ofInt_of_le (by omega) (by omega)

/-- It is positive exactly if the port is. -/
theorem pos_of_port_iff {n : ℕ} (hlt : n < 2 ^ 31) : 0 < Int32.ofInt n ↔ 0 < n := by
  have hzero : (0 : Int32).toInt = 0 := by decide
  rw [Int32.lt_iff_toInt_lt, toInt_of_port hlt, hzero, Int.natCast_pos]

/-- Without a number there is no port. -/
theorem exists_startsWith_of_pos {port : Bytes} (h : 0 < Int32.ofInt (strtolValue port)) :
    ∃ z rest, StartsWith port z rest := by
  cases hscan : scanNumeral port with
  | none =>
    rw [strtolValue, strtol, hscan] at h
    exact absurd h (by decide)
  | some n =>
    obtain ⟨rest, hstarts, -⟩ := scanNumeral_eq_some_iff.mp ⟨n, hscan, rfl, rfl⟩
    exact ⟨n.value, rest, hstarts⟩

/-! ## Entries -/

/-- The blanks around an entry are blanks of its parts. -/
theorem map_trim_splitOn_trim (entry : Bytes) :
    ((trim entry).splitOn 58).map trim = (entry.splitOn 58).map trim :=
  Blanks.map_strip_splitOn (by decide) entry

/-- Two nonblank parts of an entry are its parts without the empty ones. -/
theorem split_of_parts {entry host port : Bytes} (hparts : entry.splitOn 58 = [host, port])
    (hhost : trim host ≠ []) (hport : trim port ≠ []) : split entry 58 true = [host, port] := by
  have hne : ∀ {part : Bytes}, trim part ≠ [] → (!part.isEmpty) = true := fun hpart => by
    rw [Bool.not_eq_true', List.isEmpty_eq_false_iff]
    rintro rfl
    exact hpart rfl
  rw [split_skip_empty, hparts]
  refine List.filter_eq_self.mpr fun part hpart => ?_
  rcases List.mem_pair.mp hpart with rfl | rfl
  · exact hne hhost
  · exact hne hport

/-- What an entry states. -/
theorem statedNeighbor_eq_some_iff {entry : Bytes} {neighbor : NeighborConfig} :
    statedNeighbor entry = some neighbor ↔ ∃ host port, entry.splitOn 58 = [host, port] ∧
      trim host ≠ [] ∧ trim port ≠ [] ∧ (∀ c ∈ trim port, isDigit c = true) ∧
        0 < digitsValue (trim port) ∧ digitsValue (trim port) < 2 ^ 31 ∧
          neighbor = ⟨trim host, Int32.ofInt (digitsValue (trim port))⟩ := by
  unfold statedNeighbor
  rw [map_trim_splitOn_trim]
  constructor
  · intro h
    split at h
    · next host' port' hparts =>
      obtain ⟨host, ports, hcons, rfl, hports⟩ := List.map_eq_cons_iff.mp hparts
      obtain ⟨port, rfl, rfl⟩ := List.map_eq_singleton_iff.mp hports
      split_ifs at h with hvalid
      obtain ⟨hhost, hport, hdigits, hpos, hlt⟩ := hvalid
      exact ⟨host, port, hcons, hhost, hport, List.all_eq_true.mp hdigits, hpos, hlt,
        (Option.some.inj h).symm⟩
    · cases h
  · rintro ⟨host, port, hparts, hhost, hport, hdigits, hpos, hlt, rfl⟩
    rw [hparts]
    exact if_pos ⟨hhost, hport, List.all_eq_true.mpr hdigits, hpos, hlt⟩

/-- What an entry states does not depend on the blanks around it. -/
theorem statedNeighbor_trim (entry : Bytes) :
    statedNeighbor (trim entry) = statedNeighbor entry := by
  rw [statedNeighbor, statedNeighbor, map_trim_splitOn_trim (trim entry)]

/-- The parser takes what an entry states. -/
theorem parseNeighbor_of_stated {entry : Bytes} {neighbor : NeighborConfig}
    (h : statedNeighbor entry = some neighbor) : parseNeighbor entry = some neighbor := by
  obtain ⟨host, port, hparts, hhost, hport, hdigits, hpos, hlt, rfl⟩ :=
    statedNeighbor_eq_some_iff.mp h
  obtain ⟨rest, hstarts⟩ := startsWith_of_digits hport hdigits
  have hvalue : Int32.ofInt (strtolValue port) = Int32.ofInt (digitsValue (trim port)) := by
    rw [strtolValue_of_startsWith hstarts, castInt_of_port hlt]
  refine parseNeighbor_eq_some_iff.mpr
    ⟨host, port, split_of_parts hparts hhost hport, hhost, ?_, by rw [hvalue]⟩
  rwa [hvalue, pos_of_port_iff hlt]

/-- An entry with one colon has no other parts than its nonempty ones, if these are two. -/
theorem splitOn_of_split {entry host port : Bytes} (hparts : split entry 58 true = [host, port])
    (hcount : entry.count 58 = 1) : entry.splitOn 58 = [host, port] := by
  rw [split_skip_empty] at hparts
  have hlength : ((entry.splitOn 58).filter (!·.isEmpty)).length = (entry.splitOn 58).length := by
    rw [hparts, Delimited.length_splitOn, hcount]
    rfl
  rw [← hparts, List.filter_eq_self.mpr (List.length_filter_eq_length_iff.mp hlength)]

/-- An entry that the parser takes is read in full if it states the same. -/
theorem readInFull_of_eq {entry : Bytes} (heq : parseNeighbor entry = statedNeighbor entry) :
    ReadInFull entry := by
  intro host port z rest hparts hhost hstarts hpos
  -- The parser takes the entry, so the entry states the same.
  have hcast := strtolValue_of_startsWith hstarts
  have hparse : parseNeighbor entry = some ⟨trim host, castInt z⟩ :=
    parseNeighbor_eq_some_iff.mpr ⟨host, port, hparts, hhost, by rwa [hcast], by rw [hcast]⟩
  obtain ⟨host', port', hparts', hhost', hport', hdigits, -, hlt, -⟩ :=
    statedNeighbor_eq_some_iff.mp (heq.symm.trans hparse)
  obtain ⟨rfl, rfl⟩ : host = host' ∧ port = port' := by
    simpa using hparts.symm.trans (split_of_parts hparts' hhost' hport')
  obtain ⟨rest', hstarts'⟩ := startsWith_of_digits hport' hdigits
  have hvalue : z = digitsValue (trim port) := hstarts.value_unique hstarts'
  have hcount := Delimited.length_splitOn 58 entry
  rw [hparts'] at hcount
  exact ⟨by simpa using hcount.symm, hdigits, by omega⟩

/-- What the parser makes of an entry is stated, if the entry is read in full. -/
theorem statedNeighbor_of_readInFull {entry : Bytes} (hfull : ReadInFull entry)
    {neighbor : NeighborConfig} (hparse : parseNeighbor entry = some neighbor) :
    statedNeighbor entry = some neighbor := by
  obtain ⟨host, port, hparts, hhost, hpos, rfl⟩ := parseNeighbor_eq_some_iff.mp hparse
  obtain ⟨z, rest, hstarts⟩ := exists_startsWith_of_pos hpos
  rw [strtolValue_of_startsWith hstarts] at hpos
  obtain ⟨hcount, hdigits, hlt⟩ := hfull host port z rest hparts hhost hstarts hpos
  -- A port with a number is not blank, and the number is that of its digits.
  have hport : trim port ≠ [] := fun hblank => by
    obtain ⟨c, hc, hdigit⟩ := hstarts.exists_digit
    have hspace := isDigit_of_isSpace (Blanks.strip_eq_nil_iff.mp hblank c hc)
    exact absurd (hdigit.symm.trans hspace) (by decide)
  obtain ⟨rest', hstarts'⟩ := startsWith_of_digits hport hdigits
  obtain rfl : z = digitsValue (trim port) := hstarts.value_unique hstarts'
  have hlt' : digitsValue (trim port) < 2 ^ 31 := by omega
  rw [castInt_of_port hlt', pos_of_port_iff hlt'] at hpos
  refine statedNeighbor_eq_some_iff.mpr ⟨host, port, splitOn_of_split hparts hcount, hhost,
    hport, hdigits, hpos, hlt', ?_⟩
  rw [strtolValue_of_startsWith hstarts, castInt_of_port hlt']

/-- The parser makes of an entry what it states exactly if it reads the entry in full. -/
theorem parseNeighbor_eq_stated_iff (entry : Bytes) :
    parseNeighbor entry = statedNeighbor entry ↔ ReadInFull entry := by
  refine ⟨readInFull_of_eq, fun hfull => ?_⟩
  cases hparse : parseNeighbor entry with
  | some neighbor => exact (statedNeighbor_of_readInFull hfull hparse).symm
  | none =>
    cases hstated : statedNeighbor entry with
    | none => rfl
    | some neighbor =>
      rw [parseNeighbor_of_stated hstated] at hparse
      cases hparse

/-! ## Lists -/

/-- The neighbors of a list are those of its entries, once the list is trimmed. -/
theorem parseNeighbors_eq_filterMap (raw : Bytes) :
    parseNeighbors raw = ((trim raw).splitOn 44).filterMap parseNeighbor := by
  unfold parseNeighbors
  dsimp only
  split_ifs with hempty
  · rw [hempty]
    rfl
  · rw [split_skip_empty, List.filterMap_filter]
    refine List.filterMap_congr fun entry _ => ?_
    cases entry with
    | nil => rfl
    | cons c entry => rfl

/-- What a list states does not depend on the blanks around it. -/
theorem statedNeighbors_trim (raw : Bytes) : statedNeighbors (trim raw) = statedNeighbors raw := by
  have hstated : ∀ fields : List Bytes, fields.filterMap statedNeighbor =
      (fields.map trim).filterMap statedNeighbor := fun fields => by
    rw [List.filterMap_map]
    exact List.filterMap_congr fun entry _ => (statedNeighbor_trim entry).symm
  have hfields : ((trim raw).splitOn 44).map trim = (raw.splitOn 44).map trim :=
    Blanks.map_strip_splitOn (by decide) raw
  rw [statedNeighbors, statedNeighbors, hstated, hfields, ← hstated]

section FilterMap

variable {α β : Type} {f g : α → Option β} (h : ∀ a b, g a = some b → f a = some b)

include h in
/-- A loop that keeps at least what another keeps makes no shorter list. -/
theorem length_filterMap_mono (l : List α) : (l.filterMap g).length ≤ (l.filterMap f).length := by
  induction l with
  | nil => exact le_refl 0
  | cons a l ih =>
    rw [List.filterMap_cons, List.filterMap_cons]
    cases hg : g a with
    | some b =>
      rw [h a b hg]
      exact Nat.succ_le_succ ih
    | none =>
      cases f a with
      | none => exact ih
      | some b => exact Nat.le_succ_of_le ih

include h in
/-- It makes the same list only if it makes the same of every element. -/
theorem filterMap_eq_iff (l : List α) : l.filterMap f = l.filterMap g ↔ ∀ a ∈ l, f a = g a := by
  refine ⟨fun heq => ?_, List.filterMap_congr⟩
  induction l with
  | nil => exact List.forall_mem_nil _
  | cons a l ih =>
    rw [List.filterMap_cons, List.filterMap_cons] at heq
    rw [List.forall_mem_cons]
    cases hg : g a with
    | some b =>
      rw [hg, h a b hg] at heq
      exact ⟨h a b hg, ih (List.cons.inj heq).2⟩
    | none =>
      cases hf : f a with
      | none =>
        rw [hg, hf] at heq
        exact ⟨rfl, ih heq⟩
      | some b =>
        -- The other list would be shorter.
        rw [hg, hf] at heq
        have hle := length_filterMap_mono h l
        have hlen := congrArg List.length heq
        dsimp only [List.length_cons] at hlen
        omega

end FilterMap

/-- The neighbors of a configuration are those of its list. -/
theorem neighbors_eq_parseNeighbors (strtod : Bytes → Option (ℚ × Bytes)) (environ : Environ)
    (files : Files) : (loadConfig strtod environ files).config.neighbors =
      parseNeighbors (neighborsRaw environ files) := by
  unfold loadConfig neighborsRaw envFileOf
  dsimp only
  split_ifs
  · rfl
  · cases loadEnvFile files (configPath environ) with
    | ok env_file => rfl
    | error load_error => rfl

/-- The neighbors that `load_config` produces are those that the list states, in order, exactly if
the parser reads every entry of the trimmed list in full. -/
theorem neighbors_stated_iff (strtod : Bytes → Option (ℚ × Bytes)) (environ : Environ)
    (files : Files) : (loadConfig strtod environ files).config.neighbors =
      statedNeighbors (neighborsRaw environ files) ↔
    ∀ entry ∈ (trim (neighborsRaw environ files)).splitOn 44, ReadInFull entry := by
  rw [neighbors_eq_parseNeighbors, parseNeighbors_eq_filterMap, ← statedNeighbors_trim,
    statedNeighbors, filterMap_eq_iff fun entry neighbor => parseNeighbor_of_stated]
  exact forall₂_congr fun entry _ => parseNeighbor_eq_stated_iff entry

/-- A list whose entries state no neighbor: letters after a port, a port from `2^32` on, and a colon
too many. -/
def misreadList : Bytes := ascii "n2:9002x,n3:4294976299,n4::9004"

/-- An environment that sets the neighbor list and nothing else. -/
def settingNeighbors (raw : Bytes) : Environ := fun key =>
  if key = ascii "NETOS_NEIGHBORS" then some raw else none

/-- From this list `load_config` produces three neighbors. -/
theorem neighbors_misread :
    (loadConfig (fun _ => none) (settingNeighbors misreadList) fun _ => none).config.neighbors =
        [⟨ascii "n2", 9002⟩, ⟨ascii "n3", 9003⟩, ⟨ascii "n4", 9004⟩] ∧
      statedNeighbors (neighborsRaw (settingNeighbors misreadList) fun _ => none) = [] := by
  rw [neighbors_eq_parseNeighbors]
  decide

end Netos
