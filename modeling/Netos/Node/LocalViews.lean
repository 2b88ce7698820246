import Netos.Lib.Machine
import Netos.Node.Node

/-!
# The three views of the local cache

Redis, `local_keys_` and the Content-BF are updated one after the other, in four places and by three
threads. Here a handler is cut where it calls `record_local_key`: `Begun` is its part up to there,
with its call of Redis, and the two updates of `record_local_key` are steps of their own, between
which other threads may take theirs. That the parts make up the handlers is said beside each of
them.

`Agree` is the invariant: what the views differ by is what the threads have left to do.
-/

namespace Netos

open CString Cxx

namespace Node

/-! ## Handlers up to `record_local_key` -/

/-- The part of a handler before `record_local_key`. -/
structure Begun where
  /-- The node. -/
  node : Node
  /-- The key that is then recorded, if any. -/
  key : Option Bytes := none
  /-- What is handed to the forward queue. -/
  sends : List Send := []

/-- The handler, when nothing comes between. -/
def Begun.finish (b : Begun) : Node × List Send :=
  match b.key with
  | none => (b.node, b.sends)
  | some key => (b.node.recordLocalKey key, b.sends)

/-- `handle_request` up to `record_local_key`. -/
def beginRequest (n : Node) (env : Env) (msg : Message) (sender : SockaddrIn) : Begun :=
  let (decision, query_table) :=
    RequestPipeline.run n.query_table (n.redisGet env) env.prune_now env.record_now msg
  let n := { n with query_table }
  match decision.state with
  | .dropInvalid => { node := n }
  | .dropTtl => { node := n }
  | .dropDuplicate => { node := n }
  | .serveLocal =>
    let resp : Message := ⟨.data, msg.request_id, msg.origin, n.config.request_ttl, msg.key,
      decision.value.getD []⟩
    { node := n, key := some msg.key
      sends := [.direct sender resp (some (resp.key, resp.origin))] }
  | .forward =>
    { node := n
      sends := [.broadcast { msg with ttl := decision.forward_ttl } (some sender)] }

/-- `handle_data` up to `record_local_key`. -/
def beginData (n : Node) (env : Env) (msg : Message) : Begun :=
  match (DataPipeline.run n.config msg).state with
  | .dropInvalid => { node := n }
  | .dropNotOrigin => { node := n }
  | .storeLocal =>
    if env.set_fails msg.key then { node := n }
    else
      { node := { n with
          redis := Function.update n.redis msg.key (some msg.value)
          content_bf_fallback := (n.content_bf_fallback.cancel msg.key msg.origin).1 }
        key := some msg.key }

/-- `handle_wire_message` up to `record_local_key`; the handlers of filters do not call it. -/
def beginWireMessage (n : Node) (env : Env) (wire : Bytes) (sender : SockaddrIn) : Begun :=
  match fromWire wire with
  | none => { node := n }
  | some msg =>
    match msg.type with
    | .request => n.beginRequest env msg sender
    | .data => n.beginData env msg
    | .contentBloom => { node := n.handleContentBloom env msg sender }
    | .queryBloom =>
      { node := (n.handleQueryBloom env msg sender).1
        sends := (n.handleQueryBloom env msg sender).2 }
    | .unknown => { node := n }

/-- A round of `seed_cache` up to `record_local_key`. -/
def beginSeed (n : Node) (env : Env) (kv : KeyValue) : Begun :=
  if env.set_fails kv.key then { node := n }
  else
    { node := { n with redis := Function.update n.redis kv.key (some kv.value) }
      key := some kv.key }

/-- A round of `schedule_requests` up to `record_local_key`. The id that is made after it, for the
log, is made here. -/
def beginSchedule (n : Node) (env : Env) (key : Bytes) : Begun :=
  match n.redisGet env key with
  | some _ => { node := (n.makeRequestId (env.id_ms 0)).1, key := some key }
  | none => { node := (n.scheduleRequest env key).1, sends := (n.scheduleRequest env key).2 }

/-- The first update of `record_local_key`. -/
def insertLocalKey (n : Node) (key : Bytes) : Node :=
  { n with local_keys := n.local_keys.insert key () }

/-- The second update of `record_local_key`. -/
def addLocalKey (n : Node) (key : Bytes) : Node :=
  { n with content_bloom := n.content_bloom.addLocalKey key }

/-- The updates make up `record_local_key`. -/
theorem recordLocalKey_eq (n : Node) (key : Bytes) :
    n.recordLocalKey key = (n.insertLocalKey key).addLocalKey key := rfl

/-- The parts make up `handle_request`. -/
theorem finish_beginRequest (n : Node) (env : Env) (msg : Message) (sender : SockaddrIn) :
    (n.beginRequest env msg sender).finish = n.handleRequest env msg sender := by
  unfold beginRequest handleRequest
  dsimp only
  cases (RequestPipeline.run n.query_table (n.redisGet env) env.prune_now env.record_now
    msg).1.state with
  | dropInvalid => rfl
  | dropTtl => rfl
  | dropDuplicate => rfl
  | serveLocal => rfl
  | forward => rfl

/-- The parts make up `handle_data`. -/
theorem finish_beginData (n : Node) (env : Env) (msg : Message) :
    (n.beginData env msg).finish = (n.handleData env msg, []) := by
  unfold beginData handleData
  cases (DataPipeline.run n.config msg).state with
  | dropInvalid => rfl
  | dropNotOrigin => rfl
  | storeLocal =>
    dsimp only
    split_ifs with hfails
    · rfl
    · rfl

/-- The parts make up `handle_wire_message`. -/
theorem finish_beginWireMessage (n : Node) (env : Env) (wire : Bytes) (sender : SockaddrIn) :
    (n.beginWireMessage env wire sender).finish = n.handleWireMessage env wire sender := by
  unfold beginWireMessage handleWireMessage
  cases fromWire wire with
  | none => rfl
  | some msg =>
    dsimp only
    cases msg.type with
    | request => exact finish_beginRequest n env msg sender
    | data => exact finish_beginData n env msg
    | contentBloom => rfl
    | queryBloom => rfl
    | unknown => rfl

/-- The parts make up a round of `seed_cache`. -/
theorem finish_beginSeed (n : Node) (env : Env) (kv : KeyValue) :
    (n.beginSeed env kv).finish = (seedKey env n kv, []) := by
  unfold beginSeed seedKey
  split_ifs with hfails
  · rfl
  · rfl

/-- The parts make up a round of `schedule_requests`. -/
theorem finish_beginSchedule (n : Node) (env : Env) (key : Bytes) :
    (n.beginSchedule env key).finish = n.scheduleRequest env key := by
  unfold beginSchedule
  cases hget : n.redisGet env key with
  | none => rfl
  | some value =>
    unfold scheduleRequest
    rw [hget]
    rfl

/-! ## What the first parts do to the views -/

/-- What the first part of a handler does: it leaves local keys and Content-BF alone, and when a key
will be recorded, Redis has a value for it, new or old. -/
structure Begins (n : Node) (b : Begun) : Prop where
  /-- The local keys stay. -/
  local_keys : b.node.local_keys = n.local_keys
  /-- The Content-BF stays. -/
  local_filter : b.node.content_bloom.local_filter = n.content_bloom.local_filter
  /-- Redis stays, or has a new value under the key to be recorded. -/
  redis : b.node.redis = n.redis ∨
    ∃ key value, b.key = some key ∧ b.node.redis = Function.update n.redis key (some value)
  /-- Redis has the key to be recorded. -/
  held : ∀ key, b.key = some key → (b.node.redis key).isSome

/-- A part that records no key and leaves the three views alone. -/
theorem Begins.of_frame {n n' : Node} (sends : List Send) (hkeys : n'.local_keys = n.local_keys)
    (hfilter : n'.content_bloom.local_filter = n.content_bloom.local_filter)
    (hredis : n'.redis = n.redis) : Begins n { node := n', sends } :=
  ⟨hkeys, hfilter, Or.inl hredis, fun _ h => absurd h (by simp)⟩

/-- A part that finds a value under the key to be recorded. -/
theorem Begins.of_hit {n n' : Node} {env : Env} {key value : Bytes} (sends : List Send)
    (hkeys : n'.local_keys = n.local_keys)
    (hfilter : n'.content_bloom.local_filter = n.content_bloom.local_filter)
    (hredis : n'.redis = n.redis) (hget : n.redisGet env key = some value) :
    Begins n { node := n', key := some key, sends } := by
  refine ⟨hkeys, hfilter, Or.inl hredis, fun k hk => ?_⟩
  obtain rfl := Option.some.inj hk
  rw [hredis, redis_of_redisGet hget]
  rfl

/-- A part that stores a value under the key to be recorded. -/
theorem Begins.of_set {n n' : Node} {key value : Bytes} (hkeys : n'.local_keys = n.local_keys)
    (hfilter : n'.content_bloom.local_filter = n.content_bloom.local_filter)
    (hredis : n'.redis = Function.update n.redis key (some value)) :
    Begins n { node := n', key := some key } := by
  refine ⟨hkeys, hfilter, Or.inr ⟨key, value, rfl, hredis⟩, fun k hk => ?_⟩
  obtain rfl := Option.some.inj hk
  rw [hredis, Function.update_self]
  rfl

/-- `handle_request` records a key that Redis has. -/
theorem begins_request (n : Node) (env : Env) (msg : Message) (sender : SockaddrIn) :
    Begins n (n.beginRequest env msg sender) := by
  unfold beginRequest
  by_cases hvalid : RequestPipeline.Valid msg
  · rw [RequestPipeline.run_of_valid _ _ _ _ hvalid]
    dsimp only
    cases (n.query_table.recordIfNew msg.request_id env.prune_now env.record_now).2 with
    | false => exact .of_frame [] rfl rfl rfl
    | true =>
      cases hget : n.redisGet env msg.key with
      | some value => exact .of_hit _ rfl rfl rfl hget
      | none => exact .of_frame _ rfl rfl rfl
  · obtain ⟨-, hstate⟩ := RequestPipeline.run_of_not_valid n.query_table (n.redisGet env)
      env.prune_now env.record_now hvalid
    dsimp only
    rcases hstate with hstate | hstate
    · rw [hstate]
      exact .of_frame [] rfl rfl rfl
    · rw [hstate]
      exact .of_frame [] rfl rfl rfl

/-- `handle_data` records a key that it has stored a value under. -/
theorem begins_data (n : Node) (env : Env) (msg : Message) : Begins n (n.beginData env msg) := by
  unfold beginData
  cases (DataPipeline.run n.config msg).state with
  | dropInvalid => exact .of_frame [] rfl rfl rfl
  | dropNotOrigin => exact .of_frame [] rfl rfl rfl
  | storeLocal =>
    dsimp only
    split_ifs with hfails
    · exact .of_frame [] rfl rfl rfl
    · exact .of_set rfl rfl rfl

/-- A summary of a neighbor changes none of the views. -/
theorem begins_contentBloom (n : Node) (env : Env) (msg : Message) (sender : SockaddrIn) :
    Begins n { node := n.handleContentBloom env msg sender } := by
  unfold handleContentBloom
  split_ifs with horigin hkey
  · exact .of_frame [] rfl rfl rfl
  · exact .of_frame [] rfl rfl rfl
  · split
    · exact .of_frame [] rfl rfl rfl
    · exact .of_frame [] rfl rfl rfl

/-- A Query-BF changes the counter and the limiter only. -/
theorem begins_queryBloom (n : Node) (env : Env) (msg : Message) (sender : SockaddrIn) :
    Begins n { node := (n.handleQueryBloom env msg sender).1
               sends := (n.handleQueryBloom env msg sender).2 } := by
  have hnode : ∃ request_counter query_bloom_limiter,
      (n.handleQueryBloom env msg sender).1 =
        { n with request_counter, query_bloom_limiter } := by
    unfold handleQueryBloom
    cases n.queryBloomFilter env msg with
    | none => exact ⟨n.request_counter, n.query_bloom_limiter, rfl⟩
    | some filter =>
      obtain ⟨⟨request_counter, hcounter⟩, -⟩ :=
        answerKeys_spec env msg filter sender (env.order.order n.local_keys.keys) 0 n
      dsimp only
      rw [hcounter]
      split_ifs with hlast hallowed
      · exact ⟨request_counter, n.query_bloom_limiter, rfl⟩
      · exact ⟨request_counter, _, rfl⟩
      · exact ⟨request_counter, _, rfl⟩
  obtain ⟨request_counter, query_bloom_limiter, hnode⟩ := hnode
  rw [hnode]
  exact .of_frame _ rfl rfl rfl

/-- What a datagram does to the views before a key is recorded. -/
theorem begins_wireMessage (n : Node) (env : Env) (wire : Bytes) (sender : SockaddrIn) :
    Begins n (n.beginWireMessage env wire sender) := by
  unfold beginWireMessage
  cases fromWire wire with
  | none => exact .of_frame [] rfl rfl rfl
  | some msg =>
    dsimp only
    cases msg.type with
    | request => exact begins_request n env msg sender
    | data => exact begins_data n env msg
    | contentBloom => exact begins_contentBloom n env msg sender
    | queryBloom => exact begins_queryBloom n env msg sender
    | unknown => exact .of_frame [] rfl rfl rfl

/-- A seed is recorded when Redis has it. -/
theorem begins_seed (n : Node) (env : Env) (kv : KeyValue) : Begins n (n.beginSeed env kv) := by
  unfold beginSeed
  split_ifs with hfails
  · exact .of_frame [] rfl rfl rfl
  · exact .of_set rfl rfl rfl

/-- A key that the node itself asks for is recorded when Redis has it. -/
theorem begins_schedule (n : Node) (env : Env) (key : Bytes) :
    Begins n (n.beginSchedule env key) := by
  unfold beginSchedule
  cases hget : n.redisGet env key with
  | some value => exact .of_hit [] rfl rfl rfl hget
  | none =>
    dsimp only
    have hprune : (n.content_bloom.selectNeighbor env.order env.steady key).1.local_filter =
        n.content_bloom.local_filter := by
      unfold ContentBloomTable.selectNeighbor ContentBloomTable.pruneLocked
      dsimp only
      split_ifs with httl
      · rfl
      · rfl
    unfold scheduleRequest
    rw [hget]
    dsimp only
    split
    · exact .of_frame _ rfl hprune rfl
    · exact .of_frame _ rfl hprune rfl

end Node

namespace LocalViews

/-! ## The threads -/

/-- The threads that record keys. -/
inductive Thread where
  /-- `seed_cache`. -/
  | seeding
  /-- The receive thread of the transport. -/
  | receiving
  /-- `schedule_requests`. -/
  | requesting
deriving DecidableEq

/-- What a thread has left to do of a call of `record_local_key`. -/
inductive Rest where
  /-- Nothing. -/
  | done
  /-- Both updates. -/
  | insert (key : Bytes)
  /-- The second update. -/
  | add (key : Bytes)
deriving DecidableEq

/-- A call begins when there is a key to record. -/
def Rest.ofKey : Option Bytes → Rest
  | none => .done
  | some key => .insert key

/-- A call that has begun inserts its key first. -/
theorem Rest.ofKey_eq_insert {key : Option Bytes} {k : Bytes} :
    Rest.ofKey key = .insert k ↔ key = some k := by
  cases key with
  | none => simp [Rest.ofKey]
  | some k' => simp [Rest.ofKey]

/-- So it is not at its second update. -/
theorem Rest.ofKey_ne_add (key : Option Bytes) (k : Bytes) : Rest.ofKey key ≠ .add k := by
  cases key with
  | none => simp [Rest.ofKey]
  | some k' => simp [Rest.ofKey]

/-- A node and its threads. -/
structure State where
  /-- The node. -/
  node : Node
  /-- What the threads have left to do. -/
  rest : Thread → Rest := fun _ => .done
  /-- The number of seeds handled. -/
  seeded : ℕ := 0
  /-- The number of requests handled. -/
  requested : ℕ := 0
  /-- The keys that the Content-BF was built from, the latest last. -/
  added : List Bytes := []

/-- A node as constructed, with an empty Redis. -/
def init (config : Config) : State where
  node := .construct config fun _ => none

/-- A thread runs the first part of a handler. -/
def State.start (s : State) (t : Thread) (b : Node.Begun) : State :=
  { s with node := b.node, rest := Function.update s.rest t (.ofKey b.key) }

/-- What a thread does next. -/
inductive Action where
  /-- `seed_cache` sets the next seed. -/
  | seed (env : Env)
  /-- The receive thread handles a datagram up to `record_local_key`. -/
  | receive (wire : Bytes) (sender : SockaddrIn) (env : Env)
  /-- `schedule_requests` looks the next key up, and goes on up to `record_local_key`. -/
  | request (env : Env)
  /-- A thread that records no keys does a round. -/
  | background (task : Node.Task) (env : Env)
  /-- A thread makes the first update of `record_local_key`. -/
  | insert (t : Thread)
  /-- A thread makes the second update. -/
  | add (t : Thread)

/-- One step of a thread. -/
def step (s : State) : Action → Option State
  | .seed env =>
    match s.rest .seeding, s.node.config.seed_keys[s.seeded]? with
    | .done, some kv =>
      some ({ s with seeded := s.seeded + 1 }.start .seeding (s.node.beginSeed env kv))
    | _, _ => none
  | .receive wire sender env =>
    match s.rest .receiving with
    | .done => some (s.start .receiving (s.node.beginWireMessage env wire sender))
    | _ => none
  | .request env =>
    match s.rest .requesting, s.node.config.request_keys[s.requested]? with
    | .done, some key =>
      some ({ s with requested := s.requested + 1 }.start .requesting
        (s.node.beginSchedule env key))
    | _, _ => none
  | .background task env =>
    match task with
    | .seed _ => none
    | .request _ => none
    | task => some { s with node := (s.node.runTask env task).1 }
  | .insert t =>
    match s.rest t with
    | .insert key =>
      some { s with
        node := s.node.insertLocalKey key
        rest := Function.update s.rest t (.add key) }
    | _ => none
  | .add t =>
    match s.rest t with
    | .add key =>
      some { s with
        node := s.node.addLocalKey key
        rest := Function.update s.rest t .done
        added := s.added ++ [key] }
    | _ => none

/-! ## What the views differ by -/

/-- The views differ by what the threads have left to do. -/
structure Agree (bit_count hash_count : ℕ) (s : State) : Prop where
  /-- The Content-BF is the filter of the keys added. -/
  filter : s.node.content_bloom.local_filter = .ofValues bit_count hash_count s.added
  /-- What is in the Content-BF is a local key. -/
  added_local : ∀ key ∈ s.added, key ∈ s.node.local_keys
  /-- What is a local key has a value. -/
  local_held : ∀ key ∈ s.node.local_keys, (s.node.redis key).isSome
  /-- What will be a local key has a value. -/
  inserting : ∀ t key, s.rest t = .insert key → (s.node.redis key).isSome
  /-- What will be in the Content-BF is a local key. -/
  adding : ∀ t key, s.rest t = .add key → key ∈ s.node.local_keys
  /-- What has a value is a local key, or will be one. -/
  held_local : ∀ key, (s.node.redis key).isSome →
    key ∈ s.node.local_keys ∨ ∃ t, s.rest t = .insert key
  /-- What is a local key is in the Content-BF, or will be. -/
  local_added : ∀ key ∈ s.node.local_keys, key ∈ s.added ∨ ∃ t, s.rest t = .add key

variable {bit_count hash_count : ℕ} {s s' : State}

/-- What another thread has left to do stays. -/
theorem exists_rest_update {rest : Thread → Rest} {t : Thread} {r : Rest} (r' : Rest)
    (hne : rest t ≠ r) (h : ∃ t', rest t' = r) : ∃ t', Function.update rest t r' t' = r := by
  obtain ⟨t', ht'⟩ := h
  have hother : t' ≠ t := by
    rintro rfl
    exact hne ht'
  exact ⟨t', by rw [Function.update_of_ne hother, ht']⟩

/-- A thread has left to do what it goes on with now, or what it had before. -/
theorem of_rest_update {rest : Thread → Rest} {t t' : Thread} {r r' : Rest}
    (h : Function.update rest t r' t' = r) : t' = t ∧ r' = r ∨ rest t' = r := by
  rw [Function.update_apply] at h
  split_ifs at h with ht
  · exact Or.inl ⟨ht, h⟩
  · exact Or.inr h

/-- What a thread has left to do, if it is not what it goes on with now, it had before. -/
theorem of_rest_update_of_ne {rest : Thread → Rest} {t t' : Thread} {r r' : Rest} (hne : r' ≠ r)
    (h : Function.update rest t r' t' = r) : rest t' = r := by
  rcases of_rest_update h with ⟨-, hnew⟩ | hold
  · exact absurd hnew hne
  · exact hold

/-- Only the views matter, and what the threads have left to do. -/
theorem Agree.of_same (h : Agree bit_count hash_count s)
    (hfilter : s'.node.content_bloom.local_filter = s.node.content_bloom.local_filter)
    (hkeys : s'.node.local_keys = s.node.local_keys) (hredis : s'.node.redis = s.node.redis)
    (hrest : s'.rest = s.rest) (hadded : s'.added = s.added) :
    Agree bit_count hash_count s' := by
  constructor
  · rw [hfilter, hadded]
    exact h.filter
  · rw [hadded, hkeys]
    exact h.added_local
  · rw [hkeys, hredis]
    exact h.local_held
  · rw [hrest, hredis]
    exact h.inserting
  · rw [hrest, hkeys]
    exact h.adding
  · rw [hredis, hkeys, hrest]
    exact h.held_local
  · rw [hkeys, hadded, hrest]
    exact h.local_added

/-- The first part of a handler takes no value away. -/
theorem isSome_of_begins {n : Node} {b : Node.Begun} (h : n.Begins b) {key : Bytes}
    (hheld : (n.redis key).isSome) : (b.node.redis key).isSome := by
  rcases h.redis with hsame | ⟨k, value, -, hset⟩
  · rwa [hsame]
  · rw [hset, Function.update_apply]
    split_ifs with hk
    · rfl
    · exact hheld

/-- The first part of a handler keeps the agreement. -/
theorem Agree.start (h : Agree bit_count hash_count s) {t : Thread} {b : Node.Begun}
    (hdone : s.rest t = .done) (hb : s.node.Begins b) :
    Agree bit_count hash_count (s.start t b) := by
  have hkeys : b.node.local_keys = s.node.local_keys := hb.local_keys
  refine ⟨hb.local_filter.trans h.filter, ?_, ?_, ?_, ?_, ?_, ?_⟩
  · intro key hkey
    exact hkeys ▸ h.added_local key hkey
  · intro key hkey
    exact isSome_of_begins hb (h.local_held key (hkeys ▸ hkey))
  · intro t' key hrest
    rcases of_rest_update hrest with ⟨-, hkey⟩ | hrest
    · exact hb.held key (Rest.ofKey_eq_insert.mp hkey)
    · exact isSome_of_begins hb (h.inserting t' key hrest)
  · intro t' key hrest
    exact hkeys ▸ h.adding t' key (of_rest_update_of_ne (Rest.ofKey_ne_add _ _) hrest)
  · intro key hheld
    have hbefore : (s.node.redis key).isSome → key ∈ b.node.local_keys ∨
        ∃ t', Function.update s.rest t (.ofKey b.key) t' = .insert key := by
      intro hold
      rcases h.held_local key hold with hlocal | hinsert
      · exact Or.inl (hkeys ▸ hlocal)
      · exact Or.inr (exists_rest_update _ (by simp [hdone]) hinsert)
    rcases hb.redis with hsame | ⟨k, value, hk, hset⟩
    · exact hbefore (by rwa [State.start, hsame] at hheld)
    · by_cases hkey : key = k
      · -- The new value is under the key that the thread will insert.
        subst hkey
        refine Or.inr ⟨t, ?_⟩
        unfold State.start
        dsimp only
        rw [Function.update_self, Rest.ofKey_eq_insert]
        exact hk
      · rw [State.start, hset, Function.update_of_ne hkey] at hheld
        exact hbefore hheld
  · intro key hkey
    rcases h.local_added key (hkeys ▸ hkey) with hadded | hadd
    · exact Or.inl hadded
    · exact Or.inr (exists_rest_update _ (by simp [hdone]) hadd)

/-- The first update of `record_local_key` keeps the agreement. -/
theorem Agree.insert (h : Agree bit_count hash_count s) {t : Thread} {key : Bytes}
    (hrest : s.rest t = .insert key) :
    Agree bit_count hash_count { s with
      node := s.node.insertLocalKey key
      rest := Function.update s.rest t (.add key) } := by
  have hmem : ∀ k, k ∈ (s.node.insertLocalKey key).local_keys ↔
      k = key ∨ k ∈ s.node.local_keys := fun k => AList.mem_insert _
  refine ⟨h.filter, ?_, ?_, ?_, ?_, ?_, ?_⟩
  · intro k hk
    exact (hmem k).mpr (Or.inr (h.added_local k hk))
  · intro k hk
    rcases (hmem k).mp hk with rfl | hk
    · exact h.inserting t k hrest
    · exact h.local_held k hk
  · intro t' k hk
    exact h.inserting t' k (of_rest_update_of_ne (by simp) hk)
  · intro t' k hk
    rcases of_rest_update hk with ⟨-, hk⟩ | hk
    · obtain rfl : key = k := by simpa using hk
      exact (hmem key).mpr (Or.inl rfl)
    · exact (hmem k).mpr (Or.inr (h.adding t' k hk))
  · intro k hk
    by_cases hkey : k = key
    · exact Or.inl ((hmem k).mpr (Or.inl hkey))
    · rcases h.held_local k hk with hlocal | hinsert
      · exact Or.inl ((hmem k).mpr (Or.inr hlocal))
      · exact Or.inr (exists_rest_update _ (by simp [hrest, Ne.symm hkey]) hinsert)
  · intro k hk
    rcases (hmem k).mp hk with rfl | hk
    · exact Or.inr ⟨t, Function.update_self _ _ _⟩
    · rcases h.local_added k hk with hadded | hadd
      · exact Or.inl hadded
      · exact Or.inr (exists_rest_update _ (by simp [hrest]) hadd)

/-- The second update of `record_local_key` keeps the agreement. -/
theorem Agree.add (h : Agree bit_count hash_count s) {t : Thread} {key : Bytes}
    (hrest : s.rest t = .add key) :
    Agree bit_count hash_count { s with
      node := s.node.addLocalKey key
      rest := Function.update s.rest t .done
      added := s.added ++ [key] } := by
  refine ⟨?_, ?_, h.local_held, ?_, ?_, ?_, ?_⟩
  · rw [BloomFilter.ofValues_append_singleton, ← h.filter]
    rfl
  · intro k hk
    rcases List.mem_append.mp hk with hk | hk
    · exact h.added_local k hk
    · rw [List.mem_singleton.mp hk]
      exact h.adding t key hrest
  · intro t' k hk
    exact h.inserting t' k (of_rest_update_of_ne (by simp) hk)
  · intro t' k hk
    exact h.adding t' k (of_rest_update_of_ne (by simp) hk)
  · intro k hk
    rcases h.held_local k hk with hlocal | hinsert
    · exact Or.inl hlocal
    · exact Or.inr (exists_rest_update _ (by simp [hrest]) hinsert)
  · intro k hk
    by_cases hkey : k = key
    · exact Or.inl (List.mem_append_right _ (List.mem_singleton.mpr hkey))
    · rcases h.local_added k hk with hadded | hadd
      · exact Or.inl (List.mem_append_left _ hadded)
      · exact Or.inr (exists_rest_update _ (by simp [hrest, Ne.symm hkey]) hadd)

/-- Every step keeps the agreement. -/
theorem Agree.step (h : Agree bit_count hash_count s) {a : Action} (hstep : step s a = some s') :
    Agree bit_count hash_count s' := by
  unfold LocalViews.step at hstep
  cases a with
  | seed env =>
    dsimp only at hstep
    split at hstep
    · next kv hdone hseed =>
      obtain rfl := Option.some.inj hstep
      have hstart := h.start hdone (Node.begins_seed s.node env kv)
      exact hstart.of_same rfl rfl rfl rfl rfl
    · exact absurd hstep (by simp)
  | receive wire sender env =>
    dsimp only at hstep
    split at hstep
    · next hdone =>
      obtain rfl := Option.some.inj hstep
      exact h.start hdone (Node.begins_wireMessage s.node env wire sender)
    · exact absurd hstep (by simp)
  | request env =>
    dsimp only at hstep
    split at hstep
    · next key hdone hrequest =>
      obtain rfl := Option.some.inj hstep
      have hstart := h.start hdone (Node.begins_schedule s.node env key)
      exact hstart.of_same rfl rfl rfl rfl rfl
    · exact absurd hstep (by simp)
  | background task env =>
    cases task with
    | seed position => exact absurd hstep (by simp)
    | request key => exact absurd hstep (by simp)
    | exchangeContentBloom =>
      obtain rfl := Option.some.inj hstep
      exact h
    | takeFallbacks =>
      obtain rfl := Option.some.inj hstep
      exact h.of_same rfl rfl rfl rfl rfl
    | flushQueryBlooms =>
      obtain rfl := Option.some.inj hstep
      exact h.of_same rfl rfl rfl rfl rfl
    | reloadTopology neighbors =>
      obtain rfl := Option.some.inj hstep
      exact h.of_same rfl rfl rfl rfl rfl
  | insert t =>
    dsimp only at hstep
    split at hstep
    · next key hrest =>
      obtain rfl := Option.some.inj hstep
      exact h.insert hrest
    · exact absurd hstep (by simp)
  | add t =>
    dsimp only at hstep
    split at hstep
    · next key hrest =>
      obtain rfl := Option.some.inj hstep
      exact h.add hrest
    · exact absurd hstep (by simp)

/-- The views of a new node agree: they are empty. -/
theorem agree_init (config : Config) :
    Agree (toSize config.content_bf_bits) (toSize config.content_bf_hashes) (init config) where
  filter := rfl
  added_local _ hkey := absurd hkey List.not_mem_nil
  local_held key hkey := absurd hkey (AList.notMem_empty key)
  inserting _ _ hrest := absurd hrest (by simp [init])
  adding _ _ hrest := absurd hrest (by simp [init])
  held_local _ hheld := absurd hheld (by simp [init, Node.construct])
  local_added key hkey := absurd hkey (AList.notMem_empty key)

/-- When no thread is between its steps, the views are the same. -/
theorem Agree.same_of_done (h : Agree bit_count hash_count s) (hdone : ∀ t, s.rest t = .done) :
    (∀ key, (s.node.redis key).isSome ↔ key ∈ s.node.local_keys) ∧
      ∀ key, key ∈ s.added ↔ key ∈ s.node.local_keys := by
  refine ⟨fun key => ⟨fun hheld => ?_, h.local_held key⟩,
    fun key => ⟨h.added_local key, fun hkey => ?_⟩⟩
  · rcases h.held_local key hheld with hlocal | ⟨t, hrest⟩
    · exact hlocal
    · exact absurd hrest (by simp [hdone])
  · rcases h.local_added key hkey with hadded | ⟨t, hrest⟩
    · exact hadded
    · exact absurd hrest (by simp [hdone])

/-- The three views of the local cache agree. For a node whose Redis starts empty and every
interleaving of its threads: at every moment, every key added to the Content-BF is a local key, and
every local key has a value in Redis; and whenever no thread is between its steps, the keys of
Redis, the local keys and the keys added to the Content-BF are the same, and the Content-BF is the
filter to which exactly these are added, in any order and number. -/
theorem local_views_agree (config : Config) (actions : List Action) (s : State)
    (hrun : Machine.run step (init config) actions = some s) :
    (∀ key ∈ s.added, key ∈ s.node.local_keys) ∧
    (∀ key ∈ s.node.local_keys, (s.node.redis key).isSome) ∧
    ((∀ t, s.rest t = .done) →
      (∀ key, (s.node.redis key).isSome ↔ key ∈ s.node.local_keys) ∧
      (∀ key, key ∈ s.added ↔ key ∈ s.node.local_keys) ∧
      ∀ keys : List Bytes, (∀ key, key ∈ keys ↔ key ∈ s.node.local_keys) →
        s.node.content_bloom.local_filter =
          .ofValues (toSize config.content_bf_bits) (toSize config.content_bf_hashes) keys) := by
  have h : Agree (toSize config.content_bf_bits) (toSize config.content_bf_hashes) s :=
    Machine.run_invariant (fun _ _ _ h hstep => h.step hstep) (agree_init config) hrun
  refine ⟨h.added_local, h.local_held, fun hdone => ?_⟩
  obtain ⟨hredis, hadded⟩ := h.same_of_done hdone
  refine ⟨hredis, hadded, fun keys hkeys => ?_⟩
  rw [h.filter]
  exact BloomFilter.ofValues_congr _ _ fun key => (hadded key).trans (hkeys key).symm

/-- A node with one seed. -/
def seedConfig : Config where
  node_id := ascii "node1"
  config_source := []
  log_level := ascii "info"
  bind_ip := ascii "0.0.0.0"
  bind_port := 9000
  redis_socket := ascii "/tmp/redis.sock"
  neighbors := []
  seed_keys := [⟨ascii "k1", ascii "v1"⟩]
  request_keys := []

/-- A seed and a `DATA` at the same time: the keys are added in one order, and the Content-BF is
that of the other. -/
theorem local_views_agree_two : ∃ s,
    Machine.run step (init seedConfig) [.seed {}, .receive (ascii "DATA|id|node1|3|k2|v2") {} {},
      .insert .receiving, .insert .seeding, .add .receiving, .add .seeding] = some s ∧
    s.added = [ascii "k2", ascii "k1"] ∧
    s.node.content_bloom.local_filter = .ofValues 512 3 [ascii "k1", ascii "k2"] := by
  have hfacts : (Machine.run step (init seedConfig) [.seed {},
      .receive (ascii "DATA|id|node1|3|k2|v2") {} {}, .insert .receiving, .insert .seeding,
      .add .receiving, .add .seeding]).map (fun s => (s.added, s.node.local_keys.keys,
        [s.rest .seeding, s.rest .receiving, s.rest .requesting])) =
      some ([ascii "k2", ascii "k1"], [ascii "k1", ascii "k2"], [.done, .done, .done]) := by
    decide +kernel
  obtain ⟨s, hrun, hvalues⟩ := Option.map_eq_some_iff.mp hfacts
  simp only [Prod.mk.injEq, List.cons.injEq, and_true] at hvalues
  obtain ⟨hadded, hkeys, hseeding, hreceiving, hrequesting⟩ := hvalues
  have hdone : ∀ t, s.rest t = .done := by
    intro t
    cases t with
    | seeding => exact hseeding
    | receiving => exact hreceiving
    | requesting => exact hrequesting
  obtain ⟨-, -, hquiet⟩ := local_views_agree seedConfig _ s hrun
  refine ⟨s, hrun, hadded, (hquiet hdone).2.2 _ fun key => ?_⟩
  rw [AList.mem_keys, hkeys]

end LocalViews

end Netos
