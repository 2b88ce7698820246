import Netos.Cache.RedisClient
import Netos.Lib.Machine
import Mathlib.Data.List.Nodup
import Mathlib.Data.List.Range

/-!
# One Redis connection, several threads

The threads of a node share one `RedisClient`, which has no lock: a `set` or `get` sends its command
on the socket, and later reads one reply from it. The socket is first in, first out both ways, and
Redis answers commands in the order received, so replies come back in the order of the commands. A
thread reads whatever reply is next.

The machine numbers the calls and remembers which call a reply answers; the client does not see
this. `own_replies_of_guarded` says that every call gets its own reply as long as the threads read
in the order in which they sent.
-/

namespace Netos.SharedSession

open CString RedisClient

variable {τ : Type}

/-- A call of `set` or `get`. -/
structure Call (τ : Type) where
  /-- Its number. -/
  id : ℕ
  /-- The thread that makes it. -/
  thread : τ
  /-- The command it sends. -/
  command : Command
deriving DecidableEq

/-- A command that Redis has answered. -/
structure Answer (τ : Type) where
  /-- The call whose command it is. -/
  call : Call τ
  /-- The values that Redis held when it processed the command. -/
  store : Store
  /-- The error text, if Redis refused the command. -/
  refusal : Option Bytes

/-- The reply on the socket. -/
def Answer.reply (a : Answer τ) : RespValue := (a.call.command.answer a.store a.refusal).2

/-- A call that has returned, with the reply it read. -/
structure Finished (τ : Type) where
  /-- The call. -/
  call : Call τ
  /-- The reply it read. -/
  reply : RespValue

/-- The connection, Redis, and what the threads are doing. -/
structure State (τ : Type) where
  /-- The values that Redis holds. -/
  store : Store
  /-- The commands on the socket, the oldest first. -/
  requests : List (Call τ)
  /-- The replies on the socket, the oldest first. -/
  replies : List (Answer τ)
  /-- The calls that have sent and not yet read, in the order of sending. -/
  waiting : List (Call τ)
  /-- The commands that Redis has answered. -/
  answered : List (Answer τ)
  /-- The calls that have returned. -/
  finished : List (Finished τ)
  /-- The number of calls so far. -/
  calls : ℕ

/-- A new connection to a Redis that holds some values. -/
def State.init (store : Store) : State τ := ⟨store, [], [], [], [], [], 0⟩

/-- A step: of a thread, or of Redis. -/
inductive Action (τ : Type) where
  /-- A thread that is in no call starts one and sends its command. -/
  | send (thread : τ) (command : Command)
  /-- Redis answers the oldest command, or refuses it. -/
  | answer (refusal : Option Bytes)
  /-- A thread in a call reads the next reply, and the call returns. -/
  | read (thread : τ)

variable [DecidableEq τ]

/-- The call that a thread is in. -/
def State.current (s : State τ) (thread : τ) : Option (Call τ) :=
  s.waiting.find? fun call => call.thread = thread

/-- One step. -/
def step (s : State τ) : Action τ → Option (State τ)
  | .send thread command =>
    match s.current thread with
    | some _ => none
    | none =>
      let call : Call τ := ⟨s.calls, thread, command⟩
      some { s with
        requests := s.requests ++ [call], waiting := s.waiting ++ [call], calls := s.calls + 1 }
  | .answer refusal =>
    match s.requests with
    | [] => none
    | call :: requests =>
      let answer : Answer τ := ⟨call, s.store, refusal⟩
      some { s with
        store := (call.command.answer s.store refusal).1, requests
        replies := s.replies ++ [answer], answered := s.answered ++ [answer] }
  | .read thread =>
    match s.current thread, s.replies with
    | some call, answer :: replies =>
      some { s with
        replies, waiting := s.waiting.filter fun call => !decide (call.thread = thread)
        finished := s.finished ++ [⟨call, answer.reply⟩] }
    | _, _ => none

/-- What a returned call was promised: a `get` that returned a value returned the one that Redis
held when it processed this call's command, and a `set` that succeeded had this call's command
acknowledged. -/
def OwnReply (s : State τ) (f : Finished τ) : Prop :=
  (∀ key value, f.call.command = .get key → getResult (.ok f.reply) = .ok (some value) →
    ∃ a ∈ s.answered, a.call = f.call ∧ a.store key = some value) ∧
  (∀ key value, f.call.command = .set key value → setResult (.ok f.reply) = .ok () →
    ∃ a ∈ s.answered, a.call = f.call ∧ a.refusal = none)

/-- The condition of a step: a thread that reads is the one that has waited longest. -/
def InOrder (s : State τ) : Action τ → Prop
  | .read thread => s.waiting.head?.map Call.thread = some thread
  | _ => True

/-- While threads read in order, the calls that wait are those of the replies and then those of the
commands on the socket. -/
structure SessionInv (s : State τ) : Prop where
  /-- The calls that wait, by what is on the socket. -/
  waiting_eq : s.waiting = s.replies.map Answer.call ++ s.requests
  /-- A thread waits for one call. -/
  threads : (s.waiting.map Call.thread).Nodup
  /-- Redis answers the calls in their order, each once. -/
  order : (s.answered.map fun a => a.call.id) ++ s.requests.map Call.id = List.range s.calls
  /-- The replies on the socket are Redis' answers. -/
  replies : ∀ a ∈ s.replies, a ∈ s.answered
  /-- A call that has returned read the answer to its own command. -/
  finished : ∀ f ∈ s.finished, ∃ a ∈ s.answered, a.call = f.call ∧ f.reply = a.reply

omit [DecidableEq τ] in
/-- A new connection. -/
theorem sessionInv_init (store : Store) : SessionInv (State.init store : State τ) where
  waiting_eq := rfl
  threads := List.nodup_nil
  order := rfl
  replies _ h := absurd h List.not_mem_nil
  finished _ h := absurd h List.not_mem_nil

/-- Sending keeps the invariant. -/
theorem SessionInv.send {s s' : State τ} (h : SessionInv s) {thread : τ} {command : Command}
    (hstep : step s (.send thread command) = some s') : SessionInv s' := by
  cases hcurrent : s.current thread with
  | some call => simp [step, hcurrent] at hstep
  | none =>
    obtain rfl : _ = s' := by simpa [step, hcurrent] using hstep
    -- The thread is in no call, so its new one is the only one it waits for.
    have hfree : ∀ call ∈ s.waiting, call.thread ≠ thread := by
      simpa [State.current] using hcurrent
    refine ⟨?_, ?_, ?_, h.replies, h.finished⟩
    · simp [h.waiting_eq]
    · rw [List.map_append, List.nodup_append]
      refine ⟨h.threads, List.nodup_singleton _, fun t ht t' ht' => ?_⟩
      obtain ⟨call, hcall, rfl⟩ := List.mem_map.mp ht
      rw [List.mem_singleton.mp ht']
      exact hfree call hcall
    · simp [List.range_succ, ← h.order]

/-- Answering keeps the invariant. -/
theorem SessionInv.answer {s s' : State τ} (h : SessionInv s) {refusal : Option Bytes}
    (hstep : step s (.answer refusal) = some s') : SessionInv s' := by
  cases hrequests : s.requests with
  | nil => simp [step, hrequests] at hstep
  | cons call requests =>
    obtain rfl : _ = s' := by simpa [step, hrequests] using hstep
    -- The oldest command goes from the requests to the replies, which keeps the order.
    refine ⟨?_, h.threads, ?_, fun a ha => ?_, fun f hf => ?_⟩
    · simp [h.waiting_eq, hrequests]
    · simp [← h.order, hrequests]
    · rcases List.mem_append.mp ha with ha | ha
      · exact List.mem_append_left _ (h.replies a ha)
      · exact List.mem_append_right _ ha
    · obtain ⟨a, ha, hcall, hreply⟩ := h.finished f hf
      exact ⟨a, List.mem_append_left _ ha, hcall, hreply⟩

/-- Reading in order keeps the invariant: the next reply answers the call that waited longest. -/
theorem SessionInv.read {s s' : State τ} (h : SessionInv s) {thread : τ}
    (horder : InOrder s (.read thread)) (hstep : step s (.read thread) = some s') :
    SessionInv s' := by
  cases hreplies : s.replies with
  | nil => cases hcurrent : s.current thread <;> simp [step, hcurrent, hreplies] at hstep
  | cons a replies =>
    -- The call that waited longest is the one that the next reply answers.
    have hwaiting : s.waiting = a.call :: (replies.map Answer.call ++ s.requests) := by
      rw [h.waiting_eq, hreplies]
      rfl
    have hthread : a.call.thread = thread := by simpa [InOrder, hwaiting] using horder
    have hcurrent : s.current thread = some a.call := by
      rw [State.current, hwaiting, List.find?_cons_of_pos (by simpa using hthread)]
    obtain rfl : _ = s' := by simpa [step, hcurrent, hreplies] using hstep
    have hthreads := h.threads
    rw [hwaiting, List.map_cons, List.nodup_cons] at hthreads
    -- No other call of the thread waits, so the filter takes this one only.
    have hrest : s.waiting.filter (fun call => !decide (call.thread = thread)) =
        replies.map Answer.call ++ s.requests := by
      rw [hwaiting, List.filter_cons_of_neg (by simpa using hthread), List.filter_eq_self]
      intro call hcall
      have hne : call.thread ≠ a.call.thread :=
        fun heq => hthreads.1 (heq ▸ List.mem_map_of_mem hcall)
      simpa [← hthread] using hne
    refine ⟨hrest, ?_, h.order, fun b hb => ?_, fun f hf => ?_⟩
    · show ((s.waiting.filter fun call => !decide (call.thread = thread)).map Call.thread).Nodup
      rw [hrest]
      exact hthreads.2
    · exact h.replies b (hreplies ▸ List.mem_cons_of_mem _ hb)
    · rcases List.mem_append.mp hf with hf | hf
      · exact h.finished f hf
      · obtain rfl := List.mem_singleton.mp hf
        exact ⟨a, h.replies a (hreplies ▸ List.mem_cons_self), rfl, rfl⟩

/-- Every step in order keeps the invariant. -/
theorem SessionInv.step {s s' : State τ} {action : Action τ} (h : SessionInv s)
    (horder : InOrder s action) (hstep : step s action = some s') : SessionInv s' := by
  cases action with
  | send thread command => exact h.send hstep
  | answer refusal => exact h.answer hstep
  | read thread => exact h.read horder hstep

omit [DecidableEq τ] in
/-- A call that read the answer to its own command has what it was promised. -/
theorem SessionInv.ownReply {s : State τ} (h : SessionInv s) {f : Finished τ}
    (hf : f ∈ s.finished) : OwnReply s f := by
  obtain ⟨a, ha, hcall, hreply⟩ := h.finished f hf
  refine ⟨fun key value hget hresult => ⟨a, ha, hcall, ?_⟩,
    fun key value hset hresult => ⟨a, ha, hcall, ?_⟩⟩
  · rw [hreply, Answer.reply, hcall, hget] at hresult
    exact held_of_getResult hresult
  · rw [hreply, Answer.reply] at hresult
    exact refusal_of_setResult hresult

/-- When the shared connection is safe. In every interleaving in which the threads read in the order
in which they sent, Redis answers every command once, in order, and every `get` that returns a value
returns the one held for its key when its own command was processed, and every `set` that succeeds
had its own command acknowledged. -/
theorem own_replies_of_guarded (store : Store) (actions : List (Action τ)) (s : State τ)
    (hrun : Machine.run step (State.init store) actions = some s)
    (horder : Machine.Guarded step InOrder (State.init store) actions) :
    (s.answered.map fun a => a.call.id).Nodup ∧ ∀ f ∈ s.finished, OwnReply s f := by
  have hinv : SessionInv s :=
    Machine.Guarded.invariant (fun _ _ _ h horder hstep => h.step horder hstep)
      (sessionInv_init store) horder hrun
  refine ⟨?_, fun f hf => hinv.ownReply hf⟩
  -- The numbers of the answered calls and of those on the socket are a range.
  have hnodup : ((s.answered.map fun a => a.call.id) ++ s.requests.map Call.id).Nodup := by
    rw [hinv.order]
    exact List.nodup_range
  exact (List.nodup_append.mp hnodup).1

/-- Two threads of a node. -/
inductive Thread where
  | receive
  | request
deriving DecidableEq

/-- Redis with the values of two keys. -/
def twoValues : Store := fun key =>
  if key = ascii "a" then some (ascii "1") else if key = ascii "b" then some (ascii "2") else none

/-- Two calls that overlap, and read in the order in which they sent. -/
theorem own_replies_of_guarded_overlapping :
    ∃ s, Machine.run step (State.init twoValues)
        [.send Thread.receive (.get (ascii "a")), .send .request (.get (ascii "b")), .answer none,
          .answer none, .read .receive, .read .request] = some s ∧
      s.finished.length = 2 ∧ ∀ f ∈ s.finished, OwnReply s f := by
  refine ⟨_, rfl, rfl, (own_replies_of_guarded twoValues
    [.send Thread.receive (.get (ascii "a")), .send .request (.get (ascii "b")), .answer none,
      .answer none, .read .receive, .read .request] _ rfl ?_).2⟩
  exact .cons trivial rfl (.cons trivial rfl (.cons trivial rfl (.cons trivial rfl
    (.cons rfl rfl (.cons rfl rfl trivial)))))

/-- Two calls that overlap, and read in the other order: the request thread reads the reply to the
receive thread's command, and takes the value of `a` for the value of `b`. -/
theorem overlapping_reads_swap_values :
    ∃ s, Machine.run step (State.init twoValues)
        [.send Thread.receive (.get (ascii "a")), .send .request (.get (ascii "b")), .answer none,
          .answer none, .read .request, .read .receive] = some s ∧
      s.finished.map (fun f => (f.call.command, f.reply.payload)) =
        [(.get (ascii "b"), ascii "1"), (.get (ascii "a"), ascii "2")] ∧
      ¬ ∀ f ∈ s.finished, OwnReply s f := by
  refine ⟨_, rfl, by decide, fun h => ?_⟩
  -- The call of the request thread was answered with the value that Redis held for `b`.
  obtain ⟨a, ha, hcall, hheld⟩ := (h _ List.mem_cons_self).1 (ascii "b") (ascii "1") rfl rfl
  rcases List.mem_cons.mp ha with rfl | ha
  · exact absurd hheld (by decide)
  · obtain rfl := List.mem_singleton.mp ha
    exact absurd hheld (by decide)

end Netos.SharedSession
