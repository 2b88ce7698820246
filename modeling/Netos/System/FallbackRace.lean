import Netos.Lib.Machine
import Netos.Node.DataPipeline
import Netos.Tables.ContentBfFallback

/-!
# The race over a fallback entry

A node that asks a neighbor directly for a key has four threads at work on the query: the request
thread (`schedule_requests`: look the key up, queue the `REQ`, schedule the fallback), the forward
worker, the receive thread (`handle_data`: store the value, cancel the fallback) and the fallback
thread (`start_content_bf_fallbacks`: take what is due, hand each key to the aggregator). The
machine interleaves their steps with the network. A reading of the clock may be older than the step
that uses it, as `schedule` and `take_due` read the clock before they take the lock.

`not_handed_of_guarded` says when a key that was stored in time is not handed over: when no fallback
is scheduled whose answer is stored before its deadline, and `take_due` does not come between the
store, before the deadline, and the cancel.
-/

namespace Netos.FallbackRace

open CString Cxx ContentBfFallbackTable

/-- Where the request thread is. -/
inductive Requester where
  /-- Before the lookup of the next key. -/
  | idle
  /-- The key was not in Redis, and a neighbor's summary matches it. -/
  | missed (key : Bytes)
  /-- The `REQ` for the key is queued. -/
  | queried (key : Bytes)

/-- Where the receive thread is. -/
inductive Receiver where
  /-- Waiting for a datagram. -/
  | idle
  /-- The value of a `DATA` is stored, and its fallback not yet cancelled. -/
  | stored (msg : Message)

/-- The node and the messages on the network. -/
structure State where
  /-- The fallback table. -/
  table : ContentBfFallbackTable
  /-- The steady clock. -/
  clock : ℤ
  /-- The values that Redis holds. -/
  redis : Bytes → Option Bytes
  /-- The request thread. -/
  requester : Requester
  /-- The receive thread. -/
  receiver : Receiver
  /-- The forward queue. -/
  queue : List Message
  /-- The `REQ` messages that were sent. -/
  sent : List Message
  /-- The `DATA` messages sent to the node. -/
  answers : List Message
  /-- The entries that `take_due` returned and the fallback thread has still to hand over. -/
  taken : List Entry
  /-- The keys stored by `handle_data`, with the time of storing. -/
  stores : List (Bytes × ℤ)
  /-- The entries whose keys were handed to the aggregator. -/
  handed : List Entry

/-- A node that has not queried anything yet. -/
def State.init (window clock : ℤ) (redis : Bytes → Option Bytes) : State :=
  ⟨construct window, clock, redis, .idle, .idle, [], [], [], [], [], []⟩

/-- A step of a thread, of the network, or of time. -/
inductive Action where
  /-- Time passes. -/
  | tick (clock : ℤ)
  /-- The request thread looks a key up; an error counts as a miss. -/
  | lookup (key : Bytes) (error : Bool)
  /-- The request thread queues the `REQ`; a full queue drops it. -/
  | query (request_id : Bytes) (queued : Bool)
  /-- The request thread schedules the fallback, with the clock that it read. -/
  | schedule (now : ℤ)
  /-- The forward worker sends the oldest message. -/
  | forward
  /-- A neighbor that received a `REQ` answers it. -/
  | answer (i : ℕ) (ttl : Int32) (value : Bytes)
  /-- Some node sends another `DATA`, as an answer to a Query-BF. -/
  | flood (msg : Message)
  /-- The receive thread handles a `DATA`, up to the store, which may fail. -/
  | receive (i : ℕ) (ok : Bool)
  /-- The receive thread cancels the fallback. -/
  | cancel
  /-- The fallback thread takes what is due, with the clock that it read. -/
  | takeDue (it : Iteration) (now : ℤ)
  /-- The fallback thread hands a key to the aggregator. -/
  | hand

variable (config : Config)

/-- The `REQ` of the request thread. -/
def request (request_id key : Bytes) : Message :=
  ⟨.request, request_id, config.node_id, config.request_ttl, key, []⟩

/-- The `DATA` that answers a `REQ`. -/
def response (req : Message) (ttl : Int32) (value : Bytes) : Message :=
  ⟨.data, req.request_id, req.origin, ttl, req.key, value⟩

/-- One step. A message stays on the network when it is delivered, so it can also be delivered late,
twice or never. -/
def step (s : State) : Action → Option State
  | .tick clock => if s.clock ≤ clock then some { s with clock } else none
  | .lookup key error =>
    match s.requester with
    | .idle =>
      if error ∨ s.redis key = none then some { s with requester := .missed key } else some s
    | _ => none
  | .query request_id queued =>
    match s.requester with
    | .missed key =>
      some { s with
        requester := .queried key
        queue := if queued then s.queue ++ [request config request_id key] else s.queue }
    | _ => none
  | .schedule now =>
    match s.requester with
    | .queried key =>
      if now ≤ s.clock then
        some { s with
          requester := .idle, table := (s.table.schedule now key config.node_id).1 }
      else none
    | _ => none
  | .forward =>
    match s.queue with
    | [] => none
    | msg :: queue => some { s with queue, sent := s.sent ++ [msg] }
  | .answer i ttl value =>
    match s.sent[i]? with
    | none => none
    | some req => some { s with answers := s.answers ++ [response req ttl value] }
  -- Any `DATA` may be on the network, so nothing is assumed about its sender.
  | .flood msg => some { s with answers := s.answers ++ [msg] }
  | .receive i ok =>
    match s.receiver, s.answers[i]? with
    | .idle, some msg =>
      if (DataPipeline.run config msg).state = .storeLocal ∧ ok then
        -- The cancel is a step of its own: other threads may come between.
        some { s with
          redis := Function.update s.redis msg.key (some msg.value), receiver := .stored msg
          stores := s.stores ++ [(msg.key, s.clock)] }
      else some s
    | _, _ => none
  | .cancel =>
    match s.receiver with
    | .stored msg =>
      some { s with receiver := .idle, table := (s.table.cancel msg.key msg.origin).1 }
    | .idle => none
  | .takeDue it now =>
    if s.taken = [] ∧ now ≤ s.clock then
      some { s with table := (s.table.takeDue it now).1, taken := s.table.dueEntries it now }
    else none
  | .hand =>
    match s.taken with
    | [] => none
    | entry :: taken => some { s with taken, handed := s.handed ++ [entry] }

/-- The key of an entry was not stored before its deadline. -/
def NotStoredBefore (s : State) (entry : Entry) : Prop :=
  ∀ store ∈ s.stores, store.1 = entry.key → entry.deadline ≤ store.2

/-- The condition of a step: a fallback is not scheduled after its answer was stored, unless it was
stored at its deadline or later, and `take_due` does not take an entry whose answer was stored
before the deadline and is about to be cancelled. -/
def Ordered (s : State) : Action → Prop
  | .schedule now =>
    ∀ key, s.requester = .queried key → ∀ store ∈ s.stores, store.1 = key →
      now + milliseconds s.table.window ≤ store.2
  | .takeDue _ now =>
    ∀ msg, s.receiver = .stored msg → ∀ entry,
      s.table.entries.lookup (makeKey msg.origin msg.key) = some entry →
        NotStoredBefore s entry ∨ now < entry.deadline
  | _ => True

/-- What holds while steps are ordered. -/
structure RaceInv (s : State) : Prop where
  /-- An entry is found under the node's id and its key. -/
  found : ∀ k entry, s.table.entries.lookup k = some entry →
    k = makeKey config.node_id entry.key
  /-- The answer that the receive thread has stored is the node's. -/
  own : ∀ msg, s.receiver = .stored msg → msg.origin = config.node_id
  /-- The answer to an entry was not stored before its deadline, or its cancel comes next. -/
  open_entries : ∀ k entry, s.table.entries.lookup k = some entry →
    NotStoredBefore s entry ∨ ∃ msg, s.receiver = .stored msg ∧ msg.key = entry.key
  /-- An entry that was taken is past its deadline, and its answer was not stored before. -/
  taken : ∀ entry ∈ s.taken, entry.deadline ≤ s.clock ∧ NotStoredBefore s entry
  /-- So is an entry that was handed over. -/
  handed : ∀ entry ∈ s.handed, entry.deadline ≤ s.clock ∧ NotStoredBefore s entry

variable {config}

/-- A node that has not queried anything yet. -/
theorem raceInv_init (window clock : ℤ) (redis : Bytes → Option Bytes) :
    RaceInv config (State.init window clock redis) where
  found k entry h := by simp [State.init, construct] at h
  own msg h := by simp [State.init] at h
  open_entries k entry h := by simp [State.init, construct] at h
  taken entry h := absurd h List.not_mem_nil
  handed entry h := absurd h List.not_mem_nil

/-- Scheduling in order keeps the invariant: the answer to the new entry was not stored before its
deadline. -/
theorem RaceInv.schedule {s s' : State} (h : RaceInv config s) {now : ℤ}
    (hordered : Ordered s (.schedule now)) (hstep : step config s (.schedule now) = some s') :
    RaceInv config s' := by
  cases hrequester : s.requester with
  | idle => simp [step, hrequester] at hstep
  | missed key => simp [step, hrequester] at hstep
  | queried key =>
    simp only [step, hrequester] at hstep
    split_ifs at hstep with hnow
    obtain rfl := Option.some.inj hstep
    -- The entry is the new one, or it was there before.
    refine ⟨fun k entry hentry => ?_, h.own, fun k entry hentry => ?_, h.taken, h.handed⟩
    · rcases lookup_schedule hentry with hentry | ⟨rfl, rfl⟩
      · exact h.found k entry hentry
      · rfl
    · rcases lookup_schedule hentry with hentry | ⟨rfl, rfl⟩
      · exact h.open_entries k entry hentry
      · exact Or.inl (hordered key hrequester)

/-- Storing an answer keeps the invariant: it is stored now, and its cancel comes next. -/
theorem RaceInv.receive {s s' : State} (h : RaceInv config s) {i : ℕ} {ok : Bool}
    (hstep : step config s (.receive i ok) = some s') : RaceInv config s' := by
  cases hreceiver : s.receiver with
  | stored msg => simp [step, hreceiver] at hstep
  | idle =>
    cases hmsg : s.answers[i]? with
    | none => simp [step, hreceiver, hmsg] at hstep
    | some msg =>
      simp only [step, hreceiver, hmsg] at hstep
      split_ifs at hstep with hstore
      · obtain rfl := Option.some.inj hstep
        -- While the receive thread is idle no cancel comes next, so only this one can now.
        have hnew : ∀ store ∈ s.stores ++ [(msg.key, s.clock)],
            store ∈ s.stores ∨ store = (msg.key, s.clock) := by simp
        refine ⟨h.found, ?_, fun k entry hentry => ?_, fun entry hentry => ?_,
          fun entry hentry => ?_⟩
        · rintro m ⟨⟩
          exact DataPipeline.origin_of_storeLocal hstore.1
        · rcases h.open_entries k entry hentry with hbefore | ⟨m, hm, -⟩
          · by_cases hanswered : msg.key = entry.key
            · exact Or.inr ⟨msg, rfl, hanswered⟩
            · refine Or.inl fun store hmem hkey => ?_
              rcases hnew store hmem with hold | rfl
              · exact hbefore store hold hkey
              · exact absurd hkey hanswered
          · exact absurd hm (by simp [hreceiver])
        · refine ⟨(h.taken entry hentry).1, fun store hmem hkey => ?_⟩
          rcases hnew store hmem with hold | rfl
          · exact (h.taken entry hentry).2 store hold hkey
          · exact (h.taken entry hentry).1
        · refine ⟨(h.handed entry hentry).1, fun store hmem hkey => ?_⟩
          rcases hnew store hmem with hold | rfl
          · exact (h.handed entry hentry).2 store hold hkey
          · exact (h.handed entry hentry).1
      · obtain rfl := Option.some.inj hstep
        exact h

/-- Cancelling keeps the invariant: the entry that was answered is gone. -/
theorem RaceInv.cancel {s s' : State} (h : RaceInv config s)
    (hstep : step config s .cancel = some s') : RaceInv config s' := by
  cases hreceiver : s.receiver with
  | idle => simp [step, hreceiver] at hstep
  | stored msg =>
    obtain rfl : _ = s' := by simpa [step, hreceiver] using hstep
    refine ⟨fun k entry hentry => h.found k entry (lookup_cancel hentry).1, by simp,
      fun k entry hentry => ?_, h.taken, h.handed⟩
    obtain ⟨hold, hne⟩ := lookup_cancel hentry
    rcases h.open_entries k entry hold with hbefore | ⟨m, hm, hmkey⟩
    · exact Or.inl hbefore
    · -- The entry whose cancel comes next is the one that is cancelled here.
      obtain rfl : msg = m := by simpa [hreceiver] using hm
      exact absurd (h.found k entry hold) (by rwa [h.own msg hreceiver, hmkey] at hne)

/-- Taking what is due in order keeps the invariant: no entry that is taken was answered before its
deadline. -/
theorem RaceInv.takeDue {s s' : State} (h : RaceInv config s) {it : Iteration} {now : ℤ}
    (hordered : Ordered s (.takeDue it now)) (hstep : step config s (.takeDue it now) = some s') :
    RaceInv config s' := by
  simp only [step] at hstep
  split_ifs at hstep with henabled
  obtain rfl := Option.some.inj hstep
  refine ⟨fun k entry hentry => h.found k entry (lookup_takeDue hentry), h.own,
    fun k entry hentry => h.open_entries k entry (lookup_takeDue hentry), fun entry hentry => ?_,
    h.handed⟩
  obtain ⟨⟨k, hlookup⟩, hdue⟩ := mem_dueEntries hentry
  refine ⟨le_trans hdue henabled.2, ?_⟩
  rcases h.open_entries k entry hlookup with hbefore | ⟨msg, hmsg, hmsgkey⟩
  · exact hbefore
  · -- Its cancel comes next, so the guard is about it, and it is due.
    have hfound : makeKey msg.origin msg.key = k := by
      rw [h.own msg hmsg, hmsgkey, h.found k entry hlookup]
    rcases hordered msg hmsg entry (hfound ▸ hlookup) with hbefore | hlt
    · exact hbefore
    · exact absurd hdue (not_le.mpr hlt)

/-- Handing over keeps the invariant. -/
theorem RaceInv.hand {s s' : State} (h : RaceInv config s) (hstep : step config s .hand = some s') :
    RaceInv config s' := by
  cases htaken : s.taken with
  | nil => simp [step, htaken] at hstep
  | cons entry taken =>
    obtain rfl : _ = s' := by simpa [step, htaken] using hstep
    refine ⟨h.found, h.own, h.open_entries, fun e he => ?_, fun e he => ?_⟩
    · exact h.taken e (htaken ▸ List.mem_cons_of_mem _ he)
    · rcases List.mem_append.mp he with he | he
      · exact h.handed e he
      · obtain rfl := List.mem_singleton.mp he
        exact h.taken e (htaken ▸ List.mem_cons_self)

/-- Every ordered step keeps the invariant. -/
theorem RaceInv.step {s s' : State} {action : Action} (h : RaceInv config s)
    (hordered : Ordered s action) (hstep : step config s action = some s') : RaceInv config s' := by
  cases action with
  | schedule now => exact h.schedule hordered hstep
  | receive i ok => exact h.receive hstep
  | cancel => exact h.cancel hstep
  | takeDue it now => exact h.takeDue hordered hstep
  | hand => exact h.hand hstep
  | tick clock =>
    simp only [FallbackRace.step] at hstep
    split_ifs at hstep with hclock
    obtain rfl := Option.some.inj hstep
    exact ⟨h.found, h.own, h.open_entries,
      fun entry he => ⟨le_trans (h.taken entry he).1 hclock, (h.taken entry he).2⟩,
      fun entry he => ⟨le_trans (h.handed entry he).1 hclock, (h.handed entry he).2⟩⟩
  -- The other steps change neither the table, nor the receive thread, nor what is stored or taken.
  | lookup key error =>
    cases hrequester : s.requester with
    | idle =>
      simp only [FallbackRace.step, hrequester] at hstep
      split_ifs at hstep <;> obtain rfl := Option.some.inj hstep
      · exact ⟨h.found, h.own, h.open_entries, h.taken, h.handed⟩
      · exact h
    | missed key => simp [FallbackRace.step, hrequester] at hstep
    | queried key => simp [FallbackRace.step, hrequester] at hstep
  | query request_id queued =>
    cases hrequester : s.requester with
    | idle => simp [FallbackRace.step, hrequester] at hstep
    | missed key =>
      simp only [FallbackRace.step, hrequester] at hstep
      obtain rfl := Option.some.inj hstep
      exact ⟨h.found, h.own, h.open_entries, h.taken, h.handed⟩
    | queried key => simp [FallbackRace.step, hrequester] at hstep
  | forward =>
    cases hqueue : s.queue with
    | nil => simp [FallbackRace.step, hqueue] at hstep
    | cons msg queue =>
      simp only [FallbackRace.step, hqueue] at hstep
      obtain rfl := Option.some.inj hstep
      exact ⟨h.found, h.own, h.open_entries, h.taken, h.handed⟩
  | answer i ttl value =>
    cases hreq : s.sent[i]? with
    | none => simp [FallbackRace.step, hreq] at hstep
    | some req =>
      simp only [FallbackRace.step, hreq] at hstep
      obtain rfl := Option.some.inj hstep
      exact ⟨h.found, h.own, h.open_entries, h.taken, h.handed⟩
  | flood msg =>
    obtain rfl := Option.some.inj hstep
    exact ⟨h.found, h.own, h.open_entries, h.taken, h.handed⟩

/-- When a key stored in time is not handed over. In every interleaving in which no fallback is
scheduled whose answer was stored before its deadline, and `take_due` does not take an entry whose
answer was stored before the deadline and is about to be cancelled, no key is handed to the
aggregator whose value was stored before the window of its query was over. -/
theorem not_handed_of_guarded (config : Config) (window clock : ℤ) (redis : Bytes → Option Bytes)
    (actions : List Action) (s : State)
    (hrun : Machine.run (step config) (State.init window clock redis) actions = some s)
    (hordered : Machine.Guarded (step config) Ordered (State.init window clock redis) actions) :
    ∀ entry ∈ s.handed, NotStoredBefore s entry := by
  have hinv : RaceInv config s :=
    Machine.Guarded.invariant (fun _ _ _ h hordered hstep => h.step hordered hstep)
      (raceInv_init window clock redis) hordered hrun
  exact fun entry hentry => (hinv.handed entry hentry).2

/-- A node `A` that asks for the key `k`. -/
def nodeA : Config :=
  { node_id := ascii "A", config_source := [], log_level := [], bind_ip := [], redis_socket := []
    neighbors := [], seed_keys := [], request_keys := [ascii "k"] }

/-- Redis without values. -/
def noValues : Bytes → Option Bytes := fun _ => none

/-- Two direct queries. The answer for `k` is stored a millisecond before `take_due` takes `l`, for
which there is none, and cancelled after that, before its own deadline of 400 ms. -/
def answeredInTime : List Action :=
  [.lookup (ascii "l") false, .query (ascii "A-1") true, .schedule 0, .forward,
    .tick (milliseconds 100), .lookup (ascii "k") false, .query (ascii "A-2") true,
    .schedule (milliseconds 100), .forward, .answer 1 3 (ascii "v"), .tick (milliseconds 299),
    .receive 0 true, .tick (milliseconds 300), .takeDue default (milliseconds 300), .cancel, .hand,
    .tick (milliseconds 400), .takeDue default (milliseconds 400)]

/-- The key that was not answered is handed over, and the one that was is not. -/
theorem not_handed_of_guarded_answered :
    ∃ s, Machine.run (step nodeA) (State.init 300 0 noValues) answeredInTime = some s ∧
      s.stores = [(ascii "k", milliseconds 299)] ∧ s.handed.map Entry.key = [ascii "l"] ∧
      s.taken = [] ∧ s.table.pendingCount = 0 ∧ ∀ entry ∈ s.handed, NotStoredBefore s entry := by
  refine ⟨_, rfl, rfl, rfl, rfl, rfl,
    not_handed_of_guarded nodeA 300 0 noValues answeredInTime _ rfl ?_⟩
  refine .cons trivial rfl (.cons trivial rfl (.cons ?_ rfl (.cons trivial rfl (.cons trivial rfl
    (.cons trivial rfl (.cons trivial rfl (.cons ?_ rfl (.cons trivial rfl (.cons trivial rfl
    (.cons trivial rfl (.cons trivial rfl (.cons trivial rfl (.cons ?_ rfl (.cons trivial rfl
    (.cons trivial rfl (.cons trivial rfl (.cons ?_ rfl trivial)))))))))))))))))
  · exact fun key _ store hstore => absurd hstore List.not_mem_nil
  · exact fun key _ store hstore => absurd hstore List.not_mem_nil
  · -- The answer for `k` is stored, and its entry is not due yet.
    rintro msg ⟨⟩ entry ⟨⟩
    exact Or.inr (by decide)
  · exact fun msg hmsg => nomatch hmsg

/-- An answer that is stored before the fallback is scheduled. -/
def earlyAnswer : List Action :=
  [.lookup (ascii "k") false, .query (ascii "A-1") true, .forward, .answer 0 3 (ascii "v"),
    .receive 0 true, .cancel, .schedule 0, .tick (milliseconds 300),
    .takeDue default (milliseconds 300), .hand]

/-- An answer that is stored just before the deadline, and cancelled after it. -/
def lateCancel : List Action :=
  [.lookup (ascii "k") false, .query (ascii "A-1") true, .schedule 0, .forward,
    .answer 0 3 (ascii "v"), .tick (milliseconds 299), .receive 0 true, .tick (milliseconds 300),
    .takeDue default (milliseconds 300), .cancel, .hand]

/-- In both runs the value of `k` is stored before the deadline of 300 ms, and `k` is handed over:
in the first there is no entry to cancel yet, in the second the fallback thread takes the entry
between the store and the cancel. -/
theorem stored_key_is_handed :
    (∃ s, Machine.run (step nodeA) (State.init 300 0 noValues) earlyAnswer = some s ∧
      s.stores = [(ascii "k", 0)] ∧ s.handed = [⟨ascii "k", ascii "A", milliseconds 300⟩] ∧
      ¬ ∀ entry ∈ s.handed, NotStoredBefore s entry) ∧
    ∃ s, Machine.run (step nodeA) (State.init 300 0 noValues) lateCancel = some s ∧
      s.stores = [(ascii "k", milliseconds 299)] ∧
      s.handed = [⟨ascii "k", ascii "A", milliseconds 300⟩] ∧
      ¬ ∀ entry ∈ s.handed, NotStoredBefore s entry := by
  constructor
  · refine ⟨_, rfl, rfl, rfl, fun h => ?_⟩
    have hle := h _ List.mem_cons_self _ List.mem_cons_self rfl
    exact absurd hle (by decide)
  · refine ⟨_, rfl, rfl, rfl, fun h => ?_⟩
    have hle := h _ List.mem_cons_self _ List.mem_cons_self rfl
    exact absurd hle (by decide)

end Netos.FallbackRace
