import Netos.Node.NodeRun
import Netos.Node.RequestIds
import Netos.Tables.QueryBfLedger

/-!
# Where the keys are that a node misses

A key that `schedule_requests` does not find in Redis is a miss. It goes into the fallback table
when a neighbor was asked for it directly, and into the aggregator otherwise; it leaves the fallback
table when its data is stored, when a later miss of the key takes its place, and when
`start_content_bf_fallbacks` hands it to the aggregator; and it leaves the aggregator in a Query-BF.
The ledger beside the runs of a node says where every miss went. It is written from what the tables
of the node return, and no step reads it.

`misses_accounted` says that in every state of every run each miss is in exactly one place.
-/

namespace Netos.KeyLedger

open CString Cxx ContentBfFallbackTable

/-- A round of `schedule_requests` that did not find its key. -/
structure Miss where
  /-- The key. -/
  key : Bytes
  /-- The steady clock. -/
  time : ℤ
deriving DecidableEq

/-- A call of `add_key` whose key a later one dropped with the buffer that it was in. -/
structure Dropped where
  /-- The call. -/
  call : QueryBfLedger.AddCall
  /-- The steady clock at the last reset of the buffer. -/
  reset_at : ℤ
  /-- The system clock at that reset, in milliseconds. -/
  reset_ms : UInt64
  /-- The steady clock when the key was dropped. -/
  time : ℤ
deriving DecidableEq

/-- The buffer had outlived `ttl`, unless the system clock read the start of its epoch at the last
reset. -/
def Dropped.Outlived (ttl : ℤ) (d : Dropped) : Prop :=
  d.reset_ms ≠ 0 → 0 < ttl ∧ d.reset_at + milliseconds ttl < d.time

/-- What became of the misses of a node. -/
structure Ledger where
  /-- The misses. -/
  missed : List Miss := []
  /-- The misses whose place in the fallback table a later one took. -/
  replaced : List Miss := []
  /-- The misses whose fallback was cancelled when their data was stored. -/
  fetched : List Miss := []
  /-- The misses whose keys were given to the aggregator. -/
  collected : List Miss := []
  /-- What became of the calls of `add_key`. -/
  batches : QueryBfLedger.State
  /-- The calls of `add_key` whose keys a later one dropped. -/
  dropped : List Dropped := []
  /-- The messages that the rounds of `start_query_bloom_flush` handed to the forward queue. -/
  asked : List Message := []

/-- The miss of an entry of a fallback table with a window. -/
def missOf (window : ℤ) (e : Entry) : Miss := ⟨e.key, e.deadline - milliseconds window⟩

/-- The misses that wait in the fallback table. -/
def waiting (t : ContentBfFallbackTable) : List Miss :=
  t.entries.entries.map fun e => missOf t.window e.2

/-- The miss that waits under a key, if there is one. -/
def waitingFor (t : ContentBfFallbackTable) (origin key : Bytes) : List Miss :=
  ((t.entries.lookup (makeKey origin key)).map (missOf t.window)).toList

namespace Ledger

/-- A miss is given to the aggregator. -/
def collect (l : Ledger) (env : Env) (origin : Bytes) (miss : Miss) : Ledger :=
  let aggregator := l.batches.aggregator
  { l with
    collected := l.collected ++ [miss]
    batches := QueryBfLedger.addKey l.batches
      ⟨origin, miss.key, env.steady, env.add_ms miss.key⟩
    dropped :=
      if aggregator.Restarts env.steady (aggregator.buffer origin) then
        l.dropped ++ (l.batches.live origin).map fun call =>
          ⟨call, (aggregator.buffer origin).created_at, (aggregator.buffer origin).created_ms,
            env.steady⟩
      else l.dropped }

/-- A round of `schedule_requests`. -/
def request (l : Ledger) (n : Node) (env : Env) (key : Bytes) : Ledger :=
  match n.redisGet env key with
  | some _ => l
  | none =>
    let miss : Miss := ⟨key, env.steady⟩
    let l := { l with missed := l.missed ++ [miss] }
    match (n.content_bloom.selectNeighbor env.order env.steady key).2 with
    | some _ =>
      { l with replaced := l.replaced ++ waitingFor n.content_bf_fallback n.config.node_id key }
    | none => l.collect env n.config.node_id miss

/-- A round of `start_content_bf_fallbacks`. -/
def takeFallbacks (l : Ledger) (n : Node) (env : Env) : Ledger :=
  (n.content_bf_fallback.dueEntries env.order env.steady).foldl
    (fun l e => l.collect env e.origin (missOf n.content_bf_fallback.window e)) l

/-- A round of `start_query_bloom_flush`. -/
def flush (l : Ledger) (n : Node) (env : Env) : Ledger :=
  { l with
    batches := QueryBfLedger.flushDue l.batches env.order env.steady env.flush_ms
    asked := l.asked ++ (n.flushQueryBlooms env).2.map Send.msg }

end Ledger

/-- The `DATA` that a node stores on a datagram. -/
def storedData (n : Node) (env : Env) (wire : Bytes) : Option Message :=
  match fromWire wire with
  | none => none
  | some msg =>
    if msg.type = .data ∧ (DataPipeline.run n.config msg).state = .storeLocal ∧
        env.set_fails msg.key = false then some msg
    else none

/-- What an event means for the misses. -/
def Ledger.record (l : Ledger) (n : Node) : NodeRun.Event → Ledger
  | .receive wire _ env _ =>
    match storedData n env wire with
    | some msg =>
      { l with fetched := l.fetched ++ waitingFor n.content_bf_fallback msg.origin msg.key }
    | none => l
  | .work (.request key) env _ => l.request n env key
  | .work .takeFallbacks env _ => l.takeFallbacks n env
  | .work .flushQueryBlooms env _ => l.flush n env
  | .work (.seed _) _ _ => l
  | .work .exchangeContentBloom _ _ => l
  | .work (.reloadTopology _) _ _ => l
  | .dispatch _ => l

/-- A node in its run, and the ledger. -/
structure State where
  /-- The node. -/
  run : NodeRun
  /-- The ledger. -/
  ledger : Ledger

/-- One step of the node, entered in the ledger. -/
def step (R : Resolver) (s : State) (e : NodeRun.Event) : Option State :=
  (NodeRun.step R s.run e).map fun run => ⟨run, s.ledger.record s.run.node e⟩

/-- A node as constructed, which has not missed anything. -/
def init (config : Config) (redis : RedisClient.Store) (clock : ℤ) : State where
  run := .init config redis
  ledger :=
    { batches := .init (Node.construct config redis).query_bloom_aggregator clock }

/-! ## The tables and the ledger -/

/-- The ledger agrees with the tables of a node, when some misses are on their way from one to the
other. -/
structure Accounts (origin : Bytes) (bit_count hash_count : ℕ) (moving : List Miss)
    (message : QueryBloomBatch → Message) (t : ContentBfFallbackTable) (a : QueryBloomAggregator)
    (l : Ledger) : Prop where
  /-- The fallback table is in use. -/
  used : 0 < t.window
  /-- Its entries are under the names of their keys. -/
  named : ∀ k e, t.entries.lookup k = some e → k = makeKey origin e.key ∧ e.origin = origin
  /-- The aggregator is that of the ledger. -/
  aggregator : l.batches.aggregator = a
  /-- The ledger says what the batches are made of. -/
  right : QueryBfLedger.Matches bit_count hash_count l.batches
  /-- Every miss is in one place. -/
  misses : l.missed.Perm (moving ++ waiting t ++ l.replaced ++ l.fetched ++ l.collected)
  /-- The misses given to the aggregator are the calls of `add_key`. -/
  keys : l.batches.accepted.map QueryBfLedger.AddCall.key = l.collected.map Miss.key
  /-- Every call is in one place. -/
  calls : l.batches.accepted.Perm
    (QueryBfLedger.contents l.batches origin ++ l.dropped.map Dropped.call)
  /-- The buffers that lost their keys had outlived their time. -/
  outlived : ∀ d ∈ l.dropped, d.Outlived a.ttl
  /-- The Query-BFs are the batches returned. -/
  asked : l.asked = l.batches.output.map message

variable {origin : Bytes} {bit_count hash_count : ℕ} {moving : List Miss}
  {message : QueryBloomBatch → Message} {t : ContentBfFallbackTable} {a : QueryBloomAggregator}
  {l : Ledger}

/-- A new miss is on its way. -/
theorem Accounts.miss (h : Accounts origin bit_count hash_count moving message t a l)
    (miss : Miss) : Accounts origin bit_count hash_count (miss :: moving) message t a
      { l with missed := l.missed ++ [miss] } where
  used := h.used
  named := h.named
  aggregator := h.aggregator
  right := h.right
  misses := by
    refine List.perm_iff_count.mpr fun m => ?_
    have hcount := h.misses.count_eq m
    simp only [List.count_append, List.count_cons, List.count_nil] at hcount ⊢
    omega
  keys := h.keys
  calls := h.calls
  outlived := h.outlived
  asked := h.asked

/-- The misses that wait are the one under a key, if there is one, and the others. -/
theorem waiting_perm (t : ContentBfFallbackTable) (origin key : Bytes) :
    (waiting t).Perm (waitingFor t origin key ++
      waiting { t with entries := t.entries.erase (makeKey origin key) }) := by
  have hperm := (perm_erase t.entries (makeKey origin key)).map fun e => missOf t.window e.2
  rw [List.map_append] at hperm
  unfold waiting waitingFor
  cases hlookup : t.entries.lookup (makeKey origin key) with
  | none => simpa [hlookup, missOf] using hperm
  | some e => simpa [hlookup, missOf] using hperm

/-- A miss takes its place in the fallback table. -/
theorem Accounts.schedule {now : ℤ} {key : Bytes}
    (h : Accounts origin bit_count hash_count (⟨key, now⟩ :: moving) message t a l) :
    Accounts origin bit_count hash_count moving message (t.schedule now key origin).1 a
      { l with replaced := l.replaced ++ waitingFor t origin key } := by
  have hused : ¬ t.window ≤ 0 := not_le.mpr h.used
  let entry : Entry := ⟨key, origin, now + milliseconds t.window⟩
  have htable : (t.schedule now key origin).1 =
      { t with entries := t.entries.insert (makeKey origin key) entry } := by
    rw [ContentBfFallbackTable.schedule, if_neg hused]
  rw [htable]
  refine ⟨h.used, fun k e hk => ?_, h.aggregator, h.right, ?_, h.keys, h.calls, h.outlived,
    h.asked⟩
  · by_cases hname : k = makeKey origin key
    · subst hname
      rw [AList.lookup_insert] at hk
      rw [← Option.some.inj hk]
      exact ⟨rfl, rfl⟩
    · rw [AList.lookup_insert_ne hname] at hk
      exact h.named k e hk
  · -- The new entry stands for the miss, and the old one of the key is gone.
    have hnew : waiting { t with entries := t.entries.insert (makeKey origin key) entry } =
        ⟨key, now⟩ :: waiting { t with entries := t.entries.erase (makeKey origin key) } := by
      simp only [waiting, AList.entries_insert, List.map_cons, missOf, entry, add_sub_cancel_right]
      rfl
    rw [hnew]
    refine List.perm_iff_count.mpr fun m => ?_
    have hcount := h.misses.count_eq m
    have hwaiting := (waiting_perm t origin key).count_eq m
    simp only [List.count_append, List.count_cons, List.cons_append] at hcount hwaiting ⊢
    omega

/-- The data of a miss is stored. -/
theorem Accounts.cancel (h : Accounts origin bit_count hash_count moving message t a l)
    (key : Bytes) : Accounts origin bit_count hash_count moving message (t.cancel key origin).1 a
      { l with fetched := l.fetched ++ waitingFor t origin key } := by
  refine ⟨h.used, fun k e hk => h.named k e (lookup_cancel hk).1, h.aggregator, h.right, ?_, h.keys,
    h.calls, h.outlived, h.asked⟩
  refine List.perm_iff_count.mpr fun m => ?_
  have hcount := h.misses.count_eq m
  have hwaiting := (waiting_perm t origin key).count_eq m
  simp only [ContentBfFallbackTable.cancel, List.count_append] at hcount hwaiting ⊢
  omega

/-- The overdue misses leave the fallback table. -/
theorem Accounts.takeDue (h : Accounts origin bit_count hash_count moving message t a l)
    (it : Iteration) (now : ℤ) :
    Accounts origin bit_count hash_count ((t.dueEntries it now).map (missOf t.window) ++ moving)
      message (t.takeDue it now).1 a l := by
  have hused : ¬ t.window ≤ 0 := not_le.mpr h.used
  have htable : (t.takeDue it now).1 = { t with
      entries := Cxx.filter (fun _ e => !decide (now ≥ e.deadline)) t.entries } := by
    rw [ContentBfFallbackTable.takeDue, if_neg hused]
  have hdue : (t.dueEntries it now).map (missOf t.window) =
      ((it.order t.entries.entries).filter fun e => now ≥ e.2.deadline).map fun e =>
        missOf t.window e.2 := by
    rw [dueEntries, if_neg hused, List.map_map]
    rfl
  refine ⟨by rw [htable]; exact h.used, fun k e hk => h.named k e (lookup_takeDue hk),
    h.aggregator, h.right, ?_, h.keys, h.calls, h.outlived, h.asked⟩
  -- What is due and what is not are together what waited.
  have hsplit := ((List.filter_append_perm (fun e => decide (now ≥ e.2.deadline))
    t.entries.entries).map fun e => missOf t.window e.2)
  have horder := (((it.perm t.entries.entries).filter fun e => decide (now ≥ e.2.deadline)).map
    fun e => missOf t.window e.2)
  rw [hdue, htable]
  refine List.perm_iff_count.mpr fun m => ?_
  have hcount := h.misses.count_eq m
  have hsplit' := hsplit.count_eq m
  have horder' := horder.count_eq m
  simp only [waiting, Cxx.filter, List.map_append, List.count_append] at hcount hsplit' horder' ⊢
  simp only [missOf] at hcount hsplit' horder' ⊢
  omega

/-- A miss is given to the aggregator. -/
theorem Accounts.collect {miss : Miss} (env : Env)
    (h : Accounts origin bit_count hash_count (miss :: moving) message t a l) :
    Accounts origin bit_count hash_count moving message t
      (a.addKey origin miss.key env.steady (env.add_ms miss.key)).1
      (l.collect env origin miss) := by
  obtain rfl := h.aggregator
  have haccepted : (l.collect env origin miss).batches.accepted =
      l.batches.accepted ++ [⟨origin, miss.key, env.steady, env.add_ms miss.key⟩] := by
    simp [Ledger.collect, QueryBfLedger.addKey, QueryBloomAggregator.accepted_addKey]
  refine ⟨h.used, h.named, rfl, h.right.addKey _, ?_, ?_, ?_, fun d hd => ?_, h.asked⟩
  · refine List.perm_iff_count.mpr fun m => ?_
    have hcount := h.misses.count_eq m
    simp only [Ledger.collect, List.count_append, List.count_cons, List.count_nil,
      List.cons_append] at hcount ⊢
    omega
  · rw [haccepted, List.map_append, h.keys]
    simp [Ledger.collect]
  · -- Either the call joins those of the buffer, or these are dropped.
    rw [haccepted]
    have hcontents := QueryBfLedger.contents_addKey_self l.batches
      ⟨origin, miss.key, env.steady, env.add_ms miss.key⟩
    simp only [Ledger.collect, hcontents, QueryBfLedger.joined]
    refine List.perm_iff_count.mpr fun c => ?_
    have hcount := h.calls.count_eq c
    unfold QueryBfLedger.contents at hcount
    split_ifs
    · simp only [List.count_append, List.map_append, List.map_map, Function.comp_def,
        List.map_id'] at hcount ⊢
      omega
    · simp only [List.count_append] at hcount ⊢
      omega
  · -- What the call drops had outlived its time, as the test of the code says.
    rw [QueryBloomAggregator.addKey_ttl]
    simp only [Ledger.collect] at hd
    split_ifs at hd with hrestarts
    · rcases List.mem_append.mp hd with hd | hd
      · exact h.outlived d hd
      · obtain ⟨call, -, rfl⟩ := List.mem_map.mp hd
        intro hused
        obtain ⟨httl, hage⟩ := hrestarts.resolve_left hused
        exact ⟨httl, by dsimp only; omega⟩
    · exact h.outlived d hd

/-- No call of `add_key` changes the time to live. -/
theorem foldl_addKey_ttl (env : Env) (entries : List Entry) (a : QueryBloomAggregator) :
    (entries.foldl (fun a e => (a.addKey e.origin e.key env.steady (env.add_ms e.key)).1) a).ttl =
      a.ttl := by
  induction entries generalizing a with
  | nil => rfl
  | cons e entries ih =>
    rw [List.foldl_cons, ih]
    exact QueryBloomAggregator.addKey_ttl _ _ _ _ _

/-- The misses on their way are given to the aggregator one after the other. -/
theorem Accounts.collectAll (env : Env) {window : ℤ} {entries : List Entry}
    (horigin : ∀ e ∈ entries, e.origin = origin)
    (h : Accounts origin bit_count hash_count (entries.map (missOf window)) message t a l) :
    Accounts origin bit_count hash_count [] message t
      (entries.foldl (fun a e => (a.addKey e.origin e.key env.steady (env.add_ms e.key)).1) a)
      (entries.foldl (fun l e => l.collect env e.origin (missOf window e)) l) := by
  induction entries generalizing a l with
  | nil => exact h
  | cons e entries ih =>
    obtain ⟨he, hentries⟩ := List.forall_mem_cons.mp horigin
    rw [List.foldl_cons, List.foldl_cons, he]
    exact ih hentries (h.collect env)

/-- The batches that are due leave the aggregator, and are asked with. -/
theorem Accounts.flushDue (h : Accounts origin bit_count hash_count moving message t a l)
    (it : Iteration) (now : ℤ) (wall : Bytes → UInt64) :
    Accounts origin bit_count hash_count moving message t (a.flushDue it now wall).1
      { l with
        batches := QueryBfLedger.flushDue l.batches it now wall
        asked := l.asked ++ (a.flushDue it now wall).2.map message } := by
  obtain rfl := h.aggregator
  refine ⟨h.used, h.named, rfl, h.right.flushDue it now wall, h.misses, h.keys, ?_, h.outlived,
    ?_⟩
  · rw [QueryBfLedger.contents_flushDue]
    exact h.calls
  · simp [QueryBfLedger.flushDue, h.asked]

/-! ## The events of a node -/

/-- The ledger agrees with the tables of a node, when nothing is on its way. -/
structure Right (config : Config) (n : Node) (l : Ledger) : Prop where
  /-- The configuration stays. -/
  config_eq : n.config = config
  /-- So does the time to live. -/
  ttl_eq : n.query_bloom_aggregator.ttl = config.query_bf_ttl_ms.toInt
  /-- The tables. -/
  accounts : Accounts config.node_id (toSize config.query_bf_bits) (toSize config.query_bf_hashes)
    [] n.batchMessage n.content_bf_fallback n.query_bloom_aggregator l

/-- The messages of the batches depend on the configuration alone. -/
theorem batchMessage_congr {n n' : Node} (h : n'.config = n.config) :
    n'.batchMessage = n.batchMessage := by
  funext batch
  rw [Node.batchMessage, h, Node.batchMessage]

/-- What the ledger says does not depend on the rest of the node. -/
theorem Right.of_frame {config : Config} {n n' : Node} (h : Right config n l)
    (hconfig : n'.config = n.config) (hfallback : n'.content_bf_fallback = n.content_bf_fallback)
    (haggregator : n'.query_bloom_aggregator = n.query_bloom_aggregator) : Right config n' l where
  config_eq := hconfig.trans h.config_eq
  ttl_eq := by
    rw [haggregator]
    exact h.ttl_eq
  accounts := by
    rw [hfallback, haggregator, batchMessage_congr hconfig]
    exact h.accounts

/-- A request or a Query-BF leaves the fallback table. -/
theorem fallback_handleRequest (n : Node) (env : Env) (msg : Message) (sender : SockaddrIn) :
    (n.handleRequest env msg sender).1.content_bf_fallback = n.content_bf_fallback := by
  unfold Node.handleRequest
  dsimp only
  split <;> rfl

/-- So does a Query-BF. -/
theorem fallback_handleQueryBloom (n : Node) (env : Env) (msg : Message) (sender : SockaddrIn) :
    (n.handleQueryBloom env msg sender).1.content_bf_fallback = n.content_bf_fallback := by
  unfold Node.handleQueryBloom
  split
  · rfl
  · next filter _ =>
    obtain ⟨⟨c, hc⟩, -⟩ :=
      Node.answerKeys_spec env msg filter sender (env.order.order n.local_keys.keys) 0 n
    dsimp only
    rw [hc]
    split_ifs <;> rfl

/-- A `DATA` takes its entry out of the fallback table when it is stored. -/
theorem fallback_handleData (n : Node) (env : Env) (msg : Message) :
    (n.handleData env msg).content_bf_fallback =
      if (DataPipeline.run n.config msg).state = .storeLocal ∧ env.set_fails msg.key = false then
        (n.content_bf_fallback.cancel msg.key msg.origin).1
      else n.content_bf_fallback := by
  unfold Node.handleData
  cases hstate : (DataPipeline.run n.config msg).state with
  | dropInvalid => simp
  | dropNotOrigin => simp
  | storeLocal => cases env.set_fails msg.key <;> simp [Node.recordLocalKey]

/-- What a datagram does to the fallback table: the entry of a stored `DATA` leaves. -/
theorem fallback_handleWireMessage (n : Node) (env : Env) (wire : Bytes) (sender : SockaddrIn) :
    (n.handleWireMessage env wire sender).1.content_bf_fallback =
      match storedData n env wire with
      | some msg => (n.content_bf_fallback.cancel msg.key msg.origin).1
      | none => n.content_bf_fallback := by
  unfold Node.handleWireMessage storedData
  cases hmsg : fromWire wire with
  | none => rfl
  | some msg =>
    cases htype : msg.type with
    | request => simpa [htype] using fallback_handleRequest n env msg sender
    | data =>
      simp only [htype, fallback_handleData, true_and]
      split_ifs <;> rfl
    | contentBloom =>
      obtain ⟨content_bloom, hbloom⟩ := Node.handleContentBloom_eq n env msg sender
      simp [htype, hbloom]
    | queryBloom => simpa [htype] using fallback_handleQueryBloom n env msg sender
    | unknown => simp [htype]

/-- What a node stores is in Redis then. -/
theorem redis_of_storedData {n : Node} {env : Env} {wire : Bytes} {msg : Message}
    {sender : SockaddrIn} (h : storedData n env wire = some msg) :
    (n.handleWireMessage env wire sender).1.redis =
      Function.update n.redis msg.key (some msg.value) := by
  unfold storedData at h
  cases hmsg : fromWire wire with
  | none => simp [hmsg] at h
  | some m =>
    simp only [hmsg] at h
    split_ifs at h with hstored
    obtain rfl := Option.some.inj h
    obtain ⟨htype, hstate, hset⟩ := hstored
    simp [Node.handleWireMessage, hmsg, htype, Node.handleData, hstate, hset, Node.recordLocalKey]

/-- What a node stores is an answer to one of its own requests. -/
theorem origin_of_storedData {n : Node} {env : Env} {wire : Bytes} {msg : Message}
    (h : storedData n env wire = some msg) : msg.origin = n.config.node_id := by
  unfold storedData at h
  cases hmsg : fromWire wire with
  | none => simp [hmsg] at h
  | some m =>
    simp only [hmsg] at h
    split_ifs at h with hstored
    obtain rfl := Option.some.inj h
    exact DataPipeline.origin_of_storeLocal hstored.2.1

/-- A datagram is entered in the ledger. -/
theorem Right.receive {config : Config} {n : Node} (h : Right config n l) (wire : Bytes)
    (sender : SockaddrIn) (env : Env) (sent : ℕ → ℕ → Bool) :
    Right config (n.handleWireMessage env wire sender).1
      (l.record n (.receive wire sender env sent)) := by
  have hless := Node.wantsLess_handleWireMessage n env wire sender
  have hfallback := fallback_handleWireMessage n env wire sender
  simp only [Ledger.record]
  cases hstored : storedData n env wire with
  | none =>
    rw [hstored] at hfallback
    exact h.of_frame hless.config hfallback hless.aggregator
  | some msg =>
    rw [hstored] at hfallback
    have horigin : msg.origin = config.node_id := by
      rw [origin_of_storedData hstored, h.config_eq]
    have hcancelled : Right config
        { n with content_bf_fallback := (n.content_bf_fallback.cancel msg.key msg.origin).1 }
        { l with
          fetched := l.fetched ++ waitingFor n.content_bf_fallback msg.origin msg.key } :=
      ⟨h.config_eq, h.ttl_eq, by rw [horigin]; exact h.accounts.cancel msg.key⟩
    exact hcancelled.of_frame hless.config hfallback hless.aggregator

/-- A round of `schedule_requests` is entered in the ledger. -/
theorem Right.request {config : Config} {n : Node} (h : Right config n l) (env : Env)
    (key : Bytes) : Right config (n.scheduleRequest env key).1 (l.request n env key) := by
  have hconfig : n.config.node_id = config.node_id := by rw [h.config_eq]
  unfold Node.scheduleRequest Ledger.request
  cases n.redisGet env key with
  | some value => exact h.of_frame rfl rfl rfl
  | none =>
    have hmissed := h.accounts.miss ⟨key, env.steady⟩
    dsimp only [Node.makeRequestId]
    cases (n.content_bloom.selectNeighbor env.order env.steady key).2 with
    | some addr =>
      dsimp only
      rw [hconfig]
      exact ⟨h.config_eq, h.ttl_eq, hmissed.schedule⟩
    | none =>
      dsimp only
      rw [hconfig]
      exact ⟨h.config_eq, (QueryBloomAggregator.addKey_ttl _ _ _ _ _).trans h.ttl_eq,
        hmissed.collect env⟩

/-- What is due in the fallback table bears the origin. -/
theorem Accounts.origin_of_due (h : Accounts origin bit_count hash_count moving message t a l)
    {it : Iteration} {now : ℤ} {e : Entry} (he : e ∈ t.dueEntries it now) : e.origin = origin := by
  obtain ⟨⟨k, hk⟩, -⟩ := mem_dueEntries he
  exact (h.named k e hk).2

/-- A round of `start_content_bf_fallbacks` is entered in the ledger. -/
theorem Right.takeFallbacks {config : Config} {n : Node} (h : Right config n l) (env : Env) :
    Right config (n.takeFallbacks env) (l.takeFallbacks n env) := by
  have hused : ¬ n.content_bf_fallback.window ≤ 0 := not_le.mpr h.accounts.used
  have hdue : (n.content_bf_fallback.takeDue env.order env.steady).2 =
      (n.content_bf_fallback.dueEntries env.order env.steady).map fun e => ⟨e.key, e.origin⟩ := by
    rw [ContentBfFallbackTable.takeDue, if_neg hused]
  have htaken := h.accounts.takeDue env.order env.steady
  rw [List.append_nil] at htaken
  have hcollected := htaken.collectAll env fun e he => h.accounts.origin_of_due he
  unfold Node.takeFallbacks Ledger.takeFallbacks
  dsimp only
  rw [hdue, List.foldl_map]
  exact ⟨h.config_eq, (foldl_addKey_ttl _ _ _).trans h.ttl_eq, hcollected⟩

/-- A round of `start_query_bloom_flush` is entered in the ledger. -/
theorem Right.flush {config : Config} {n : Node} (h : Right config n l) (env : Env) :
    Right config (n.flushQueryBlooms env).1 (l.flush n env) := by
  have hflushed := h.accounts.flushDue env.order env.steady env.flush_ms
  have hsent : (n.flushQueryBlooms env).2.map Send.msg =
      (n.query_bloom_aggregator.flushDue env.order env.steady env.flush_ms).2.map
        n.batchMessage := by
    simp [Node.flushQueryBlooms, Send.msg, Function.comp_def]
  refine ⟨h.config_eq, h.ttl_eq, ?_⟩
  unfold Ledger.flush
  rw [hsent]
  exact hflushed

/-- Every event is entered in the ledger. -/
theorem Right.handle {config : Config} {n : Node} (h : Right config n l) (e : NodeRun.Event) :
    Right config (e.handle n) (l.record n e) := by
  cases e with
  | receive wire sender env sent => exact h.receive wire sender env sent
  | work task env sent =>
    cases task with
    | seed position =>
      unfold NodeRun.Event.handle Ledger.record
      cases hseed : n.config.seed_keys[position]? with
      | none => simpa only [Node.runTask, hseed] using h
      | some kv =>
        simp only [Node.runTask, hseed, Node.seedKey]
        split_ifs
        · exact h
        · exact h.of_frame rfl rfl rfl
    | request key => exact h.request env key
    | exchangeContentBloom => exact h
    | takeFallbacks => exact h.takeFallbacks env
    | flushQueryBlooms => exact h.flush env
    | reloadTopology neighbors => exact h.of_frame rfl rfl rfl
  | dispatch sent => exact h

/-- Every step keeps the ledger right. -/
theorem Right.step {R : Resolver} {config : Config} {s s' : State} {e : NodeRun.Event}
    (h : Right config s.run.node s.ledger) (hstep : step R s e = some s') :
    Right config s'.run.node s'.ledger := by
  obtain ⟨run, hrun, rfl⟩ := Option.map_eq_some_iff.mp hstep
  obtain ⟨network, sync_table, hnode⟩ := NodeRun.node_step hrun
  dsimp only
  rw [hnode]
  exact (h.handle e).of_frame rfl rfl rfl

/-- The ledger of a node as constructed is right. -/
theorem right_init {config : Config} (hvalid : config.Valid) (redis : RedisClient.Store)
    (clock : ℤ) :
    Right config (init config redis clock).run.node (init config redis clock).ledger :=
  ⟨rfl, rfl,
        { used := Int32.lt_iff_toInt_lt.mp hvalid.content_bf_fallback_ms
          named := fun k e h => by simp [init, NodeRun.init, Node.construct, construct] at h
          aggregator := rfl
          right := QueryBfLedger.matches_init _ _ _ _ _
          misses := List.Perm.refl _
          keys := rfl
          calls := List.Perm.refl _
          outlived := fun _ h => absurd h List.not_mem_nil
          asked := rfl }⟩

/-- Where the missed keys are. For every configuration that passes validation, and in every run of
the node, with any datagrams, rounds of its threads, clocks and failures of Redis and of the
transport: every round of `schedule_requests` that did not find its key is accounted for once. It
waits in the fallback table, or a later one of its key took its place there, or its data was stored,
or its key was given to the aggregator. Every key given to the aggregator is accounted for once too:
it is in the live buffer, in a pending or returned batch, or was dropped when its buffer had
outlived `query_bf_ttl_ms` (or had been reset at zero of the system clock); the filters of the
buffer and of the batches are those of their keys, and the batches returned are what the node asked
with. -/
theorem misses_accounted (R : Resolver) (config : Config) (hvalid : config.Valid)
    (redis : RedisClient.Store) (clock : ℤ) (events : List NodeRun.Event) (s : State)
    (hrun : Machine.run (step R) (init config redis clock) events = some s) :
    s.ledger.missed.Perm (waiting s.run.node.content_bf_fallback ++ s.ledger.replaced ++
        s.ledger.fetched ++ s.ledger.collected) ∧
      s.ledger.batches.accepted.map QueryBfLedger.AddCall.key = s.ledger.collected.map Miss.key ∧
      s.ledger.batches.accepted.Perm
        (QueryBfLedger.contents s.ledger.batches config.node_id ++
          s.ledger.dropped.map Dropped.call) ∧
      (∀ d ∈ s.ledger.dropped, d.Outlived config.query_bf_ttl_ms.toInt) ∧
      s.ledger.batches.aggregator = s.run.node.query_bloom_aggregator ∧
      QueryBfLedger.Matches (toSize config.query_bf_bits) (toSize config.query_bf_hashes)
        s.ledger.batches ∧
      s.ledger.asked = s.ledger.batches.output.map s.run.node.batchMessage := by
  have hkept : ∀ (s : State) (e : NodeRun.Event) (s' : State), Right config s.run.node s.ledger →
      step R s e = some s' → Right config s'.run.node s'.ledger := fun _ _ _ h hstep => h.step hstep
  obtain ⟨-, httl, h⟩ := Machine.run_invariant hkept (right_init hvalid redis clock) hrun
  exact ⟨h.misses, h.keys, h.calls, httl ▸ h.outlived, h.aggregator, h.right, h.asked⟩

/-- The surroundings of a handler, at the same time on both clocks, in milliseconds. -/
def envAt (ms : ℕ) : Env := { steady := milliseconds ms, wall_ms := UInt64.ofNat ms }

/-- A round of a node's own threads. -/
def workAt (ms : ℕ) (task : Node.Task) : NodeRun.Event := .work task (envAt ms) fun _ _ => true

/-- A neighbor announces that it has `k`, and `k` and `l` are missed: the neighbor is asked for `k`,
and both are asked for in Query-BFs in the end. -/
def unanswered : List NodeRun.Event :=
  let summary : Message := ⟨.contentBloom, [], ascii "b", 3000,
    (BloomFilter.ofValues 512 3 [ascii "k"]).toHex, []⟩
  [.receive summary.toWire ⟨afInet, 9000, 2130706433⟩ (envAt 1) fun _ _ => true,
    workAt 2 (.request (ascii "k")), workAt 2 (.request (ascii "l")), workAt 210 .flushQueryBlooms,
    workAt 303 .takeFallbacks, workAt 450 .flushQueryBlooms]

/-- Resolvers that find no host. -/
def noHosts : Resolver := ⟨fun _ _ => none, fun h => absurd h (by simp)⟩

/-- Later misses of `m` and `n`: no flush comes until the buffer with `m` has outlived its time. -/
def unflushed : List NodeRun.Event :=
  unanswered ++ [workAt 460 (.request (ascii "m")), workAt 2600 (.request (ascii "n"))]

/-- All four misses are accounted for: two were asked for, one is in the aggregator, and `m` was
dropped there. -/
theorem misses_accounted_unflushed : ∃ s,
    Machine.run (step noHosts)
        (init (RequestIds.namedConfig (ascii "node1")) (fun _ => none) 0) unflushed = some s ∧
      s.ledger.missed.map Miss.key = [ascii "k", ascii "l", ascii "m", ascii "n"] ∧
      s.ledger.asked.length = 2 ∧
      s.ledger.dropped.map (fun d => d.call.key) = [ascii "m"] ∧
      s.ledger.missed.Perm (waiting s.run.node.content_bf_fallback ++ s.ledger.replaced ++
        s.ledger.fetched ++ s.ledger.collected) ∧
      ∀ d ∈ s.ledger.dropped, d.Outlived 2000 := by
  have hfacts : (Machine.run (step noHosts)
      (init (RequestIds.namedConfig (ascii "node1")) (fun _ => none) 0) unflushed).map
        (fun s => (s.ledger.missed.map Miss.key, s.ledger.asked.length,
          s.ledger.dropped.map fun d => d.call.key)) =
      some ([ascii "k", ascii "l", ascii "m", ascii "n"], 2, [ascii "m"]) := by decide +kernel
  have hvalid : (RequestIds.namedConfig (ascii "node1")).Valid := by
    rw [Config.valid_iff]
    decide +kernel
  obtain ⟨s, hrun, hvalues⟩ := Option.map_eq_some_iff.mp hfacts
  simp only [Prod.mk.injEq] at hvalues
  obtain ⟨hmissed, hasked, hdropped⟩ := hvalues
  obtain ⟨hperm, -, -, houtlived, -⟩ :=
    misses_accounted noHosts _ hvalid (fun _ => none) 0 unflushed s hrun
  exact ⟨s, hrun, hmissed, hasked, hdropped, hperm, houtlived⟩

end Netos.KeyLedger
