import Netos.Network.UdpTransport
import Netos.Node.NodeRun

/-!
# Filters that cross the network

A node prints its Content-BF and its Query-BFs in hexadecimal, two digits a byte, and the receive
buffer keeps 2047 bytes of a datagram. `validate_config` bounds the number of bits by the range of
`int` only, and admits a bar in the node id, so there are configurations whose filters no peer can
use, although it is configured alike and nothing fails at the sender.

`bloomDatagramsUsable_iff` is the exact condition on the configuration and the latest time that the
clock reads: the node id has no bar, the summary has at most 2048 bytes (of which the last is a
delimiter that may be cut), and a Query-BF of that time at most 2047.
-/

namespace Netos

open CString

/-! ## Hexadecimal digits and times -/

/-- No filter prints a bar. -/
theorem BloomFilter.bar_not_mem_toHex (f : BloomFilter) : bar ∉ f.toHex := by
  intro h
  obtain ⟨byte, -, hbyte⟩ := List.mem_flatMap.mp h
  -- A bar is not among the sixteen digits.
  have hdigit : ∀ n < 16, bar ≠ BloomFilter.kHex.getD n 0 := by decide
  have hlt : ∀ x : UInt8, (x &&& 0x0f).toNat < 16 := fun x => by
    rw [UInt8.toNat_and]
    exact lt_of_le_of_lt Nat.and_le_right (by decide)
  rcases List.mem_cons.mp hbyte with hbyte | hbyte
  · exact hdigit _ (hlt _) hbyte
  · exact hdigit _ (hlt _) (List.mem_singleton.mp hbyte)

/-- A filter with bits prints digits. -/
theorem BloomFilter.toHex_ne_nil {f : BloomFilter} (hb : f.bit_count ≠ 0) : f.toHex ≠ [] := by
  rw [← List.length_pos_iff, f.length_toHex]
  omega

/-- A printed time does not contain the delimiter. -/
theorem bar_not_mem_natToString (n : ℕ) : bar ∉ natToString n :=
  fun h => absurd (isDigit_of_mem_natToString h) (by decide)

/-- A printed time is read back. -/
theorem parseUint64_natToString (t : UInt64) : parseUint64 (natToString t.toNat) = some t := by
  have hdigits : strtoull (natToString t.toNat) = some (t, []) := by
    rw [strtoull_digits (fun c hc => isDigit_of_mem_natToString hc) (natToString_ne_nil _)
      (by rw [digitsValue_natToString]; exact t.toNat_lt), digitsValue_natToString,
      UInt64.ofNat_toNat]
  rw [parseUint64, if_neg (natToString_ne_nil _), hdigits]
  rfl

/-- A printed time that lost its last digits is read as an earlier time, by nine or more. -/
theorem parseUint64_cut {t c : UInt64} {shown rest : Bytes} (hrest : rest ≠ [])
    (ht : natToString t.toNat = shown ++ rest) (hc : parseUint64 shown = some c) :
    c.toNat + 9 ≤ t.toNat := by
  have hshown : shown ≠ [] := by
    rintro rfl
    simp [parseUint64] at hc
  have hdigits : ∀ d ∈ shown, isDigit d = true :=
    fun d hd => isDigit_of_mem_natToString (ht ▸ List.mem_append_left rest hd)
  have hpos : 1 ≤ rest.length := List.length_pos_iff.mpr hrest
  have hlen : 1 ≤ shown.length := List.length_pos_iff.mpr hshown
  -- What is left denotes at most a tenth.
  have htenth : digitsValue shown * 10 ≤ t.toNat := by
    have happend := mul_pow_le_digitsValue_append shown rest
    rw [← ht, digitsValue_natToString] at happend
    have hpow : 10 ^ 1 ≤ 10 ^ rest.length := Nat.pow_le_pow_right (by decide) hpos
    exact le_trans (Nat.mul_le_mul_left _ hpow) happend
  -- There were two digits or more, so the time is ten or later.
  have hten : 10 ≤ t.toNat := by
    by_contra hlt
    have hone : (natToString t.toNat).length ≤ [(57 : UInt8)].length :=
      length_natToString_le (List.forall_mem_singleton.mpr rfl) (List.cons_ne_nil _ _) (by
        rw [show digitsValue [(57 : UInt8)] = 9 by decide]
        omega)
    rw [ht, List.length_append, List.length_singleton] at hone
    omega
  have hvalue : digitsValue shown < 2 ^ 64 := by
    have := t.toNat_lt
    omega
  rw [parseUint64, if_neg hshown, strtoull_digits hdigits hshown hvalue] at hc
  obtain rfl : UInt64.ofNat (digitsValue shown) = c := by simpa using hc
  rw [UInt64.toNat_ofNat_of_lt' hvalue]
  omega

namespace Node

/-! ## What is sent, and what a peer makes of it -/

/-- The message of `start_content_bloom_exchange`. -/
def summary (n : Node) : Message :=
  ⟨.contentBloom, [], n.config.node_id, n.config.content_bf_ttl_ms,
    n.content_bloom.localSnapshot.toHex, []⟩

/-- A round of the exchange sends the summary to the neighbors. -/
theorem exchangeContentBloom_eq (n : Node) :
    n.exchangeContentBloom = [.broadcast n.summary none] := rfl

/-- The checks of `handle_content_bloom`: the filter, if none of them fails. -/
def summaryFilter (n : Node) (msg : Message) : Option BloomFilter :=
  if msg.origin = [] then none
  else if msg.key = [] then none
  else
    BloomFilter.fromHex (toSize n.config.content_bf_bits) (toSize n.config.content_bf_hashes)
      msg.key

/-- `handle_content_bloom` records the filter that passes its checks. -/
theorem handleContentBloom_eq_summaryFilter (n : Node) (env : Env) (msg : Message)
    (sender : SockaddrIn) :
    n.handleContentBloom env msg sender =
      match n.summaryFilter msg with
      | none => n
      | some filter =>
        { n with content_bloom := n.content_bloom.updateNeighbor env.steady sender filter } := by
  unfold handleContentBloom summaryFilter
  split_ifs <;> rfl

/-- A peer with Content-BFs of the same shape decodes the filter of the summary. -/
def SummaryUsable (n : Node) : Prop :=
  ∀ peer : Node, peer.config.content_bf_bits = n.config.content_bf_bits →
    peer.config.content_bf_hashes = n.config.content_bf_hashes →
    ∃ msg, UdpTransport.arrives n.summary.toWire = some msg ∧ msg.type = .contentBloom ∧
      peer.summaryFilter msg = some n.content_bloom.localSnapshot

/-- What was created at a time is not older than a peer accepts when it handles it. -/
def Fresh (peer : Node) (env : Env) (created_ms : UInt64) : Prop :=
  env.wall_ms ≥ created_ms →
    env.wall_ms - created_ms ≤ UInt64.ofInt peer.config.query_bf_ttl_ms.toInt

/-- A peer with Query-BFs of the same shape decodes the filter of the batch, if it gets it in
time. -/
def BatchUsable (n : Node) (batch : QueryBloomBatch) : Prop :=
  ∀ (peer : Node) (env : Env), peer.config.query_bf_bits = n.config.query_bf_bits →
    peer.config.query_bf_hashes = n.config.query_bf_hashes → peer.Fresh env batch.created_ms →
    ∃ msg, UdpTransport.arrives (n.batchMessage batch).toWire = some msg ∧
      msg.type = .queryBloom ∧ peer.queryBloomFilter env msg = some batch.filter

/-! ## Lengths -/

/-- The length of an encoded summary. -/
def summaryLength (config : Config) : ℕ :=
  8 + config.node_id.length + (intToString config.content_bf_ttl_ms.toInt).length +
    (toSize config.content_bf_bits + 7) / 8 * 2

/-- The length of an encoded batch that was created at a time. -/
def batchLength (config : Config) (created_ms : UInt64) : ℕ :=
  13 + 2 * config.node_id.length + (intToString config.request_ttl.toInt).length +
    (toSize config.query_bf_bits + 7) / 8 * 2 + 2 * (natToString created_ms.toNat).length

/-- The length of the summary of a node. -/
theorem length_summary {n : Node} (h : n.Formed) :
    n.summary.toWire.length = summaryLength n.config := by
  have hlabel : (messageTypeLabel .contentBloom).length = 3 := by decide
  rw [UdpTransport.length_toWire]
  simp only [summary, hlabel, BloomFilter.length_toHex, ContentBloomTable.localSnapshot,
    h.content_bits, summaryLength, List.length_nil]
  omega

/-- The length of a batch of a node. -/
theorem length_batchMessage {n : Node} (h : n.Formed) {batch : QueryBloomBatch}
    (hbatch : n.query_bloom_aggregator.BatchOf n.config.node_id batch) :
    (n.batchMessage batch).toWire.length = batchLength n.config batch.created_ms := by
  have hlabel : (messageTypeLabel .queryBloom).length = 3 := by decide
  have hfront : (ascii "qbf-").length = 4 := by decide
  have hdash : (ascii "-").length = 1 := by decide
  have hid : (makeBatchId n.config.node_id batch.created_ms).length =
      5 + n.config.node_id.length + (natToString batch.created_ms.toNat).length := by
    simp only [makeBatchId, List.length_append, hfront, hdash]
    omega
  rw [UdpTransport.length_toWire]
  simp only [batchMessage, hlabel, hbatch.batch_id, hbatch.origin, hid, BloomFilter.length_toHex,
    hbatch.bit_count, h.query_bits, batchLength]
  omega

/-! ## Summaries -/

/-- The fields of a summary contain no bar when the node id does not. -/
theorem delimiterFree_summary {n : Node} (hbar : bar ∉ n.config.node_id) :
    n.summary.DelimiterFree :=
  ⟨List.not_mem_nil, hbar, BloomFilter.bar_not_mem_toHex _, List.not_mem_nil⟩

/-- A positive size of the configuration is positive as a `size_t`. -/
theorem toSize_ne_zero {k : Int32} (h : 0 < k) : toSize k ≠ 0 := by
  have hpos : 0 < k.toInt := UdpTransport.toInt_pos h
  have hlt := k.toInt_lt
  unfold toSize
  omega

/-- A summary that fits is usable. -/
theorem summaryUsable_of_fits {n : Node} (h : n.Formed) (hvalid : n.config.Valid)
    (hbar : bar ∉ n.config.node_id) (hlength : summaryLength n.config ≤ 2048) :
    n.SummaryUsable := by
  intro peer hbits hhashes
  have hfits : UdpTransport.Fits n.summary := by
    refine ⟨delimiterFree_summary hbar, ?_⟩
    rw [length_summary h, UdpTransport.bufferSize]
    rcases Nat.lt_or_eq_of_le hlength with hlt | heq
    · exact Or.inl (by omega)
    · exact Or.inr ⟨heq, rfl⟩
  have hkey : n.summary.key ≠ [] := BloomFilter.toHex_ne_nil (by
    rw [ContentBloomTable.localSnapshot, h.content_bits]
    exact toSize_ne_zero hvalid.content_bf_bits)
  have horigin : n.summary.origin ≠ [] := hvalid.node_id
  refine ⟨n.summary, UdpTransport.arrives_of_fits hfits, rfl, ?_⟩
  rw [summaryFilter, if_neg horigin, if_neg hkey, hbits, hhashes, ← h.content_bits,
    ← h.content_hashes]
  exact BloomFilter.fromHex_toHex _

/-- The filter that `summaryFilter` finds is decoded from the key. -/
theorem fromHex_of_summaryFilter {n : Node} {msg : Message} {filter : BloomFilter}
    (h : n.summaryFilter msg = some filter) :
    BloomFilter.fromHex (toSize n.config.content_bf_bits) (toSize n.config.content_bf_hashes)
      msg.key = some filter := by
  unfold summaryFilter at h
  split_ifs at h with horigin hkey
  exact h

/-- A summary that is too long is not usable: digits of the filter are cut off. -/
theorem not_summaryUsable_of_long {n : Node} (h : n.Formed) (hbar : bar ∉ n.config.node_id)
    (hlength : 2048 < summaryLength n.config) : ¬ n.SummaryUsable := by
  intro husable
  obtain ⟨msg, harrives, -, hfilter⟩ := husable n rfl rfl
  obtain ⟨hdigits, -, -, -⟩ :=
    BloomFilter.fromHex_eq_some_iff.mp (fromHex_of_summaryFilter hfilter)
  rw [← length_summary h] at hlength
  rcases UdpTransport.cut_of_arrives (delimiterFree_summary hbar) (by omega) harrives with
    ⟨-, rest, hkey, hshort⟩ | ⟨-, rest, hne, hvalue⟩
  · -- As many digits as the filter has were received, so nothing but the last bar is missing.
    have hlen : n.summary.key.length = (toSize n.config.content_bf_bits + 7) / 8 * 2 := by
      rw [← h.content_bits]
      exact BloomFilter.length_toHex _
    have hrest : rest = [] := by
      rw [hkey, List.length_append, hdigits] at hlen
      exact List.length_eq_zero_iff.mp (by omega)
    have hvalue : n.summary.value.length = 0 := rfl
    have hall := hshort hrest
    omega
  · exact absurd hvalue (by simp [summary, hne])

/-- With a bar in the node id, the key that a peer decodes is not the filter: it is the same for all
summaries. -/
theorem not_summaryUsable_of_bar {n n' : Node} (hconfig : n'.config = n.config)
    (hbar : bar ∈ n.config.node_id)
    (hne : n'.content_bloom.localSnapshot ≠ n.content_bloom.localSnapshot) :
    ¬ (n.SummaryUsable ∧ n'.SummaryUsable) := by
  rintro ⟨husable, husable'⟩
  obtain ⟨msg, harrives, -, hfilter⟩ := husable n rfl rfl
  obtain ⟨msg', harrives', -, hfilter'⟩ :=
    husable' n (by rw [hconfig]) (by rw [hconfig])
  -- The bars before the filter: four between the fields, and one in the node id.
  let front : Bytes := messageTypeLabel .contentBloom ++ [bar] ++ [] ++ [bar] ++ n.config.node_id ++
    [bar] ++ intToString n.config.content_bf_ttl_ms.toInt ++ [bar]
  have hbars : 5 ≤ front.count bar := by
    have hid : 1 ≤ n.config.node_id.count bar := List.count_pos_iff.mpr hbar
    simp only [front, List.count_append, List.count_singleton_self]
    omega
  have hwire : n.summary.toWire =
      front ++ (n.content_bloom.localSnapshot.toHex ++ [bar] ++ []) := by
    simp [front, summary, Message.toWire]
  have hwire' : n'.summary.toWire =
      front ++ (n'.content_bloom.localSnapshot.toHex ++ [bar] ++ []) := by
    simp [front, summary, Message.toWire, hconfig]
  rw [hwire] at harrives
  rw [hwire'] at harrives'
  have hkey : msg.key = msg'.key := UdpTransport.key_eq_of_five_bars hbars harrives harrives'
  have hfrom := fromHex_of_summaryFilter hfilter
  rw [hkey] at hfrom
  exact hne (Option.some.inj ((fromHex_of_summaryFilter hfilter').symm.trans hfrom))

/-! ## Batches -/

/-- The fields of a batch contain no bar when the node id does not. -/
theorem delimiterFree_batchMessage {n : Node} (hbar : bar ∉ n.config.node_id)
    {batch : QueryBloomBatch}
    (hbatch : n.query_bloom_aggregator.BatchOf n.config.node_id batch) :
    (n.batchMessage batch).DelimiterFree := by
  have hfront : bar ∉ ascii "qbf-" := by decide
  have hdash : bar ∉ ascii "-" := by decide
  have hid : bar ∉ batch.batch_id := by
    rw [hbatch.batch_id, hbatch.origin]
    simp [makeBatchId, hbar, hfront, hdash, bar_not_mem_natToString]
  have horigin : bar ∉ batch.origin := by rwa [hbatch.origin]
  exact ⟨hid, horigin, BloomFilter.bar_not_mem_toHex _, bar_not_mem_natToString _⟩

/-- A Query-BF with hops left passes the checks of a peer with filters of the same shape that gets
it in time. -/
theorem queryBloomFilter_of_fresh {peer : Node} {env : Env} {msg : Message} {filter : BloomFilter}
    {created_ms : UInt64} (horigin : msg.origin ≠ []) (httl : 0 < msg.ttl)
    (hkey : msg.key = filter.toHex) (hvalue : msg.value = natToString created_ms.toNat)
    (hfresh : peer.Fresh env created_ms) (hpos : filter.bit_count ≠ 0)
    (hbits : toSize peer.config.query_bf_bits = filter.bit_count)
    (hhashes : toSize peer.config.query_bf_hashes = filter.hash_count) :
    peer.queryBloomFilter env msg = some filter := by
  have httl' : ¬ msg.ttl ≤ 0 := Int32.not_le.mpr httl
  have hkey' : msg.key ≠ [] := by
    rw [hkey]
    exact BloomFilter.toHex_ne_nil hpos
  have hvalue' : msg.value ≠ [] := by
    rw [hvalue]
    exact natToString_ne_nil _
  have hcreated : parseUint64 msg.value = some created_ms := by
    rw [hvalue]
    exact parseUint64_natToString _
  have hage : ¬ (if env.wall_ms ≥ created_ms then env.wall_ms - created_ms else 0) >
      UInt64.ofInt peer.config.query_bf_ttl_ms.toInt := by
    split_ifs with hpast
    · exact UInt64.not_lt.mpr (hfresh hpast)
    · exact UInt64.not_lt.mpr (UInt64.le_iff_toNat_le.mpr (Nat.zero_le _))
  unfold queryBloomFilter
  rw [if_neg horigin, if_neg httl', if_neg hkey', if_neg hvalue', hcreated]
  dsimp only
  rw [if_neg hage, hbits, hhashes, hkey]
  exact BloomFilter.fromHex_toHex _

/-- A batch that fits is usable. -/
theorem batchUsable_of_fits {n : Node} (h : n.Formed) (hvalid : n.config.Valid)
    (hbar : bar ∉ n.config.node_id) {batch : QueryBloomBatch}
    (hbatch : n.query_bloom_aggregator.BatchOf n.config.node_id batch)
    (hlength : batchLength n.config batch.created_ms ≤ 2047) : n.BatchUsable batch := by
  intro peer env hbits hhashes hfresh
  have hfits : UdpTransport.Fits (n.batchMessage batch) := by
    refine ⟨delimiterFree_batchMessage hbar hbatch, Or.inl ?_⟩
    rwa [length_batchMessage h hbatch]
  have hbits' : batch.filter.bit_count = toSize n.config.query_bf_bits :=
    hbatch.bit_count.trans h.query_bits
  have hhashes' : batch.filter.hash_count = toSize n.config.query_bf_hashes :=
    hbatch.hash_count.trans h.query_hashes
  have horigin : (n.batchMessage batch).origin ≠ [] := by
    rw [batchMessage, hbatch.origin]
    exact hvalid.node_id
  have hpos : batch.filter.bit_count ≠ 0 := by
    rw [hbits']
    exact toSize_ne_zero hvalid.query_bf_bits
  refine ⟨n.batchMessage batch, UdpTransport.arrives_of_fits hfits, rfl, ?_⟩
  exact queryBloomFilter_of_fresh horigin hvalid.request_ttl rfl rfl hfresh hpos
    (by rw [hbits, hbits']) (by rw [hhashes, hhashes'])

/-- The filter that `queryBloomFilter` finds: the time of creation was read, and its age is within
the limit. -/
theorem created_of_queryBloomFilter {n : Node} {env : Env} {msg : Message} {filter : BloomFilter}
    (h : n.queryBloomFilter env msg = some filter) :
    msg.value ≠ [] ∧ ∃ created_ms, parseUint64 msg.value = some created_ms ∧
      n.Fresh env created_ms := by
  unfold queryBloomFilter at h
  split_ifs at h with horigin httl hkey hvalue
  cases hcreated : parseUint64 msg.value with
  | none => simp [hcreated] at h
  | some created_ms =>
    simp only [hcreated] at h
    refine ⟨hvalue, created_ms, rfl, fun hpast => ?_⟩
    by_contra hold
    rw [if_pos hpast, if_pos (UInt64.not_le.mp hold)] at h
    exact absurd h (by simp)

/-- A batch that is too long is not usable: digits of its time of creation are cut off, so that it
looks old, or all of them and more. -/
theorem not_batchUsable_of_long {n : Node} (h : n.Formed) (hbar : bar ∉ n.config.node_id)
    {batch : QueryBloomBatch}
    (hbatch : n.query_bloom_aggregator.BatchOf n.config.node_id batch)
    (hlength : 2047 < batchLength n.config batch.created_ms) : ¬ n.BatchUsable batch := by
  intro husable
  -- A peer that accepts batches for one millisecond, at the time of creation.
  let peer : Node := { n with config := { n.config with query_bf_ttl_ms := 1 } }
  let env : Env := { wall_ms := batch.created_ms }
  have hfresh : peer.Fresh env batch.created_ms := fun _ => by
    rw [UInt64.sub_self]
    exact UInt64.le_iff_toNat_le.mpr (Nat.zero_le _)
  obtain ⟨msg, harrives, -, hfilter⟩ := husable peer env rfl rfl hfresh
  obtain ⟨hvalue, created_ms, hcreated, hage⟩ := created_of_queryBloomFilter hfilter
  rw [← length_batchMessage h hbatch] at hlength
  rcases UdpTransport.cut_of_arrives (delimiterFree_batchMessage hbar hbatch) hlength harrives with
    ⟨hnone, -⟩ | ⟨-, rest, hne, hcut⟩
  · exact hvalue hnone
  · -- The time that is read is too early.
    have hearly : created_ms.toNat + 9 ≤ batch.created_ms.toNat :=
      parseUint64_cut hne hcut hcreated
    have hpast : env.wall_ms ≥ created_ms := UInt64.le_iff_toNat_le.mpr (by
      show created_ms.toNat ≤ batch.created_ms.toNat
      omega)
    have hone : (UInt64.ofInt peer.config.query_bf_ttl_ms.toInt).toNat = 1 := rfl
    have hle := UInt64.le_iff_toNat_le.mp (hage hpast)
    rw [hone, UInt64.toNat_sub_of_le _ _ hpast] at hle
    have hwall : env.wall_ms.toNat = batch.created_ms.toNat := rfl
    simp only [hwall] at hle
    omega

end Node

/-! ## Which configurations work -/

/-- Some run of a node with the configuration, from a start with any Redis, reaches the state. -/
def Node.Reachable (config : Config) (n : Node) : Prop :=
  ∃ (R : Resolver) (redis : RedisClient.Store) (events : List NodeRun.Event) (s : NodeRun),
    Machine.run (NodeRun.step R) (NodeRun.init config redis) events = some s ∧ s.node = n

/-- The filters that the nodes with the configuration send are usable, as long as the system clock
does not read later than `latest`. -/
structure BloomDatagramsUsable (config : Config) (latest : UInt64) : Prop where
  /-- The summaries. -/
  summary : ∀ n, Node.Reachable config n → n.SummaryUsable
  /-- The batches that a flush returns. -/
  batch : ∀ n, Node.Reachable config n → ∀ it now wall,
    ∀ batch ∈ (n.query_bloom_aggregator.flushDue it now wall).2, batch.created_ms ≤ latest →
      n.BatchUsable batch

/-- The condition on the configuration and the clock: no bar in the node id, and encodings that
fit. -/
structure BloomDatagramsFit (config : Config) (latest : UInt64) : Prop where
  /-- The node id has no bar. -/
  node_id : bar ∉ config.node_id
  /-- A summary fits, up to the delimiter at its end. -/
  summary : Node.summaryLength config ≤ 2048
  /-- A batch created at the latest time fits. -/
  batch : Node.batchLength config latest ≤ 2047

/-- A reachable node has the configuration, and is well formed. -/
theorem Node.Reachable.formed {config : Config} {n : Node} (h : Node.Reachable config n) :
    n.config = config ∧ n.Formed := by
  obtain ⟨R, redis, events, s, hrun, rfl⟩ := h
  exact NodeRun.formed_run hrun

/-- The node at the start is reachable. -/
theorem Node.reachable_construct (config : Config) (redis : RedisClient.Store) :
    Node.Reachable config (Node.construct config redis) :=
  ⟨⟨fun _ _ => none, by simp⟩, redis, [], NodeRun.init config redis, rfl, rfl⟩

/-- A node that found a key in its Redis has it in its summary. -/
theorem Node.reachable_hit (config : Config) (key : Bytes) :
    ∃ n, Node.Reachable config n ∧ n.content_bloom.localSnapshot =
      (BloomFilter.construct (toSize config.content_bf_bits)
        (toSize config.content_bf_hashes)).add key :=
  ⟨_, ⟨⟨fun _ _ => none, by simp⟩, fun _ => some [],
    [.work (.request key) {} fun _ _ => false], _, rfl, rfl⟩, rfl⟩

/-- A node that missed a key, which no summary matched, has it in its aggregator. -/
theorem Node.reachable_miss (config : Config) (key : Bytes) (created_ms : UInt64) :
    ∃ n, Node.Reachable config n ∧ n.query_bloom_aggregator =
      ((Node.construct config fun _ => none).query_bloom_aggregator.addKey config.node_id key 0
        (.same created_ms)).1 := by
  let hosts : Resolver := ⟨fun _ _ => none, by simp⟩
  let miss : NodeRun.Event := .work (.request key) { wall_ms := created_ms } fun _ _ => false
  -- There is no summary yet, whether old ones are dropped or not.
  have hselect : ((Node.construct config fun _ => none).content_bloom.selectNeighbor default 0
      key).2 = none := by
    unfold ContentBloomTable.selectNeighbor ContentBloomTable.pruneLocked
    split_ifs <;> rfl
  have hhandled : (miss.handle (Node.construct config fun _ => none)).query_bloom_aggregator =
      ((Node.construct config fun _ => none).query_bloom_aggregator.addKey config.node_id key 0
        (.same created_ms)).1 := by
    show ((Node.construct config fun _ => none).scheduleRequest { wall_ms := created_ms }
      key).1.query_bloom_aggregator = _
    simp only [Node.scheduleRequest, Node.redisGet, Node.makeRequestId, Bool.false_eq_true,
      if_false]
    dsimp only [Node.construct] at hselect ⊢
    rw [hselect]
  obtain ⟨s, hstep⟩ : ∃ s, NodeRun.step hosts (.init config fun _ => none) miss = some s :=
    ⟨_, rfl⟩
  obtain ⟨network, sync_table, hnode⟩ := NodeRun.node_step hstep
  refine ⟨s.node, ⟨hosts, fun _ => none, [miss], s, ?_, rfl⟩, ?_⟩
  · rw [Machine.run_cons, hstep]
    rfl
  · rw [hnode]
    exact hhandled

/-- A node returns a batch of any time at which it missed its first key. -/
theorem Node.exists_batch_of_time (config : Config) (created_ms : UInt64) :
    ∃ n, Node.Reachable config n ∧ ∃ it now wall,
      ∃ batch ∈ (n.query_bloom_aggregator.flushDue it now wall).2,
        batch.created_ms = created_ms := by
  obtain ⟨n, hreach, haggregator⟩ := Node.reachable_miss config [] created_ms
  have hfresh : ((Node.construct config fun _ => none).query_bloom_aggregator.buffer
      config.node_id).created_ms = 0 := rfl
  obtain ⟨late, hlate⟩ :=
    QueryBloomAggregator.exists_flushed_of_addKey hfresh [] 0 (.same created_ms)
  rw [← haggregator] at hlate
  exact ⟨n, hreach, default, late, fun _ => 0, hlate default fun _ => 0⟩

/-- A later time is not shorter. -/
theorem Node.batchLength_mono (config : Config) {created_ms latest : UInt64}
    (h : created_ms ≤ latest) : batchLength config created_ms ≤ batchLength config latest := by
  have hdigits : (natToString created_ms.toNat).length ≤ (natToString latest.toNat).length :=
    length_natToString_le (fun c hc => isDigit_of_mem_natToString hc) (natToString_ne_nil _) (by
      rw [digitsValue_natToString]
      exact UInt64.le_iff_toNat_le.mp h)
  unfold batchLength
  omega

/-- Which configurations send filters that their peers can use. For every configuration that
`validate_config` accepts and every latest time of the system clock: the summary of every reachable
state and every batch of every reachable flush that was created until then arrives at every peer
with the same bits and hashes as a message from which it decodes the sender's filter (a batch, if
the peer gets it before it is too old for it), if and only if the node id has no bar, the encoded
summary has at most 2048 bytes, and an encoded batch of that time has at most 2047. -/
theorem bloomDatagramsUsable_iff (config : Config) (latest : UInt64)
    (hvalid : validateConfig config = .ok ()) :
    BloomDatagramsUsable config latest ↔ BloomDatagramsFit config latest := by
  have hvalid : config.Valid := (validateConfig_eq_ok_iff config).mp hvalid
  constructor
  · intro husable
    have hstart := Node.reachable_construct config fun _ => none
    have hbar : bar ∉ config.node_id := by
      intro hbar
      -- The summaries before and after the first key cannot both be told from the fields.
      obtain ⟨n, hreach, hsnapshot⟩ := Node.reachable_hit config []
      refine Node.not_summaryUsable_of_bar hreach.formed.1 hbar ?_
        ⟨husable.summary _ hstart, husable.summary n hreach⟩
      rw [hsnapshot]
      exact BloomFilter.add_ne_construct (Node.toSize_ne_zero hvalid.content_bf_bits)
        (Node.toSize_ne_zero hvalid.content_bf_hashes) []
    refine ⟨hbar, ?_, ?_⟩
    · by_contra hlong
      exact Node.not_summaryUsable_of_long hstart.formed.2 hbar (not_le.mp hlong)
        (husable.summary _ hstart)
    · by_contra hlong
      obtain ⟨n, hreach, it, now, wall, batch, hbatch, rfl⟩ :=
        Node.exists_batch_of_time config latest
      obtain ⟨rfl, hformed⟩ := hreach.formed
      exact Node.not_batchUsable_of_long hformed hbar
        (hformed.aggregator.batchOf_of_flushDue it now wall hbatch) (not_le.mp hlong)
        (husable.batch n hreach it now wall batch hbatch (UInt64.le_refl _))
  · rintro ⟨hbar, hsummary, hlatest⟩
    refine ⟨fun n hreach => ?_, fun n hreach it now wall batch hbatch hpast => ?_⟩
    · obtain ⟨rfl, hformed⟩ := hreach.formed
      exact Node.summaryUsable_of_fits hformed hvalid hbar hsummary
    · have hlength := le_trans (Node.batchLength_mono config hpast) hlatest
      obtain ⟨rfl, hformed⟩ := hreach.formed
      exact Node.batchUsable_of_fits hformed hvalid hbar
        (hformed.aggregator.batchOf_of_flushDue it now wall hbatch) hlength

/-- A configuration with a number of bits for the summaries. -/
def bloomConfig (bits : Int32) : Config where
  node_id := ascii "node1"
  config_source := []
  log_level := ascii "info"
  bind_ip := ascii "0.0.0.0"
  bind_port := 9000
  redis_socket := ascii "/tmp/redis.sock"
  neighbors := []
  seed_keys := []
  request_keys := []
  content_bf_bits := bits

/-- The default settings are valid. -/
theorem validateConfig_bloomConfig : validateConfig (bloomConfig 512) = .ok () := by
  rw [validateConfig_eq_ok_iff, Config.valid_iff]
  decide +kernel

/-- The default settings work at any time. -/
theorem bloomDatagramsUsable_default :
    BloomDatagramsUsable (bloomConfig 512) 18446744073709551615 :=
  (bloomDatagramsUsable_iff _ _ validateConfig_bloomConfig).mpr
    ⟨by decide, by decide +kernel, by decide +kernel⟩

/-- A Content-BF of 8192 bits passes the validation, but prints 2048 digits, which no receive buffer
holds. -/
theorem bloomDatagrams_unusable :
    validateConfig (bloomConfig 8192) = .ok () ∧
      ∀ latest, ¬ BloomDatagramsUsable (bloomConfig 8192) latest := by
  refine ⟨?_, fun latest husable => ?_⟩
  · rw [validateConfig_eq_ok_iff, Config.valid_iff]
    decide +kernel
  have hstart := Node.reachable_construct (bloomConfig 8192) fun _ => none
  exact Node.not_summaryUsable_of_long hstart.formed.2 (by decide) (by decide +kernel)
    (husable.summary _ hstart)

end Netos
