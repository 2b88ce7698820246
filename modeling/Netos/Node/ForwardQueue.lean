import Netos.Core.Message
import Netos.Lib.Machine
import Netos.Network.Address

/-!
# The forward queue

`node/forward_queue.h` and `node/forward_queue.cpp`: messages are sent by the caller when the queue
is disabled or not started, and else put into a bounded queue, from which workers send them. The
closures `on_success` and `on_failure` are values of arbitrary types; that one runs is logged.

What the mutex protects is one step, so are a call of the network and a callback; the steps of the
callers and the workers interleave in any order. Every call gets a ticket, the number of calls made
before it, by which the logs name it. The outcomes of the network are a parameter: `outcomes i` is
that of its call number `i`. Nothing clears the flag that would end the workers.
-/

namespace Netos

open CString

/-- `ForwardQueueConfig`; that `validate_config` admits one drop policy only is in `Config`. -/
structure ForwardQueueConfig where
  /-- Whether messages are queued at all. -/
  enabled : Bool := true
  /-- The number of elements the queue holds. -/
  max_depth : ℕ := 1024

/-- A call of the network. -/
inductive NetworkCall where
  /-- `UdpNetwork::send_direct`. -/
  | sendDirect (addr : SockaddrIn) (msg : Message)
  /-- `UdpNetwork::send_broadcast`. -/
  | sendBroadcast (msg : Message) (exclude : Option SockaddrIn)

namespace ForwardQueue

/-- The outcome of a call of the network: an error text if it fails. A broadcast returns nothing,
so its outcome is not looked at. -/
abbrev Outcome := Except Bytes Unit

/-- A callback that runs. -/
inductive Callback (σ φ : Type) where
  /-- `on_success`. -/
  | success (on_success : σ)
  /-- `on_failure`, with the error. -/
  | failure (on_failure : φ) (error : Bytes)

/-- `Kind`. -/
inductive Kind where
  | direct
  | broadcast
deriving DecidableEq

/-- `Item`. -/
structure Item (σ φ : Type) where
  /-- Which send. -/
  kind : Kind := .direct
  /-- The message. -/
  msg : Message
  /-- The destination of a direct message. -/
  addr : SockaddrIn := {}
  /-- The destination was set. -/
  has_addr : Bool := false
  /-- The address that a broadcast leaves out. -/
  exclude : SockaddrIn := {}
  /-- It was set. -/
  has_exclude : Bool := false
  /-- What runs after the message was sent. -/
  on_success : Option σ := none
  /-- What runs when it could not be sent, or is dropped. -/
  on_failure : Option φ := none

/-- A call of `send_direct` or `send_broadcast`. -/
inductive Call (σ φ : Type) where
  /-- `send_direct`. -/
  | direct (addr : SockaddrIn) (msg : Message) (on_success : Option σ) (on_failure : Option φ)
  /-- `send_broadcast`. -/
  | broadcast (msg : Message) (exclude : Option SockaddrIn)

variable {P W σ φ : Type}

/-- The item that the call builds. -/
def Call.item : Call σ φ → Item σ φ
  | .direct addr msg on_success on_failure =>
    { kind := .direct, msg, addr, has_addr := true, on_success, on_failure }
  | .broadcast msg none => { kind := .broadcast, msg }
  | .broadcast msg (some exclude) => { kind := .broadcast, msg, has_exclude := true, exclude }

/-- The call of the network that a caller makes itself. -/
def Call.inlineNetwork : Call σ φ → NetworkCall
  | .direct addr msg _ _ => .sendDirect addr msg
  | .broadcast msg exclude => .sendBroadcast msg exclude

/-- The callback that a caller then runs. -/
def Call.inlineCallback (outcome : Outcome) : Call σ φ → Option (Callback σ φ)
  | .direct _ _ on_success on_failure =>
    match outcome with
    | .error error => on_failure.map fun f => .failure f error
    | .ok () => on_success.map .success
  | .broadcast _ _ => none

/-- The call of the network that a worker makes for an item. -/
def Item.network (item : Item σ φ) : NetworkCall :=
  match item.kind with
  | .direct => .sendDirect item.addr item.msg
  | .broadcast => .sendBroadcast item.msg (if item.has_exclude then some item.exclude else none)

/-- The callback that the worker then runs. -/
def Item.callback (item : Item σ φ) (outcome : Outcome) : Option (Callback σ φ) :=
  match item.kind with
  | .direct =>
    match outcome with
    | .error error => item.on_failure.map fun f => .failure f error
    | .ok () => item.on_success.map .success
  | .broadcast => none

/-- The callback of an item that is dropped. -/
def Item.dropCallback (item : Item σ φ) : Option (Callback σ φ) :=
  item.on_failure.map fun f => .failure f (ascii "forward_queue_full")

/-- Where a worker is in `worker_loop`. -/
inductive Worker (σ φ : Type) where
  /-- It waits for an item. -/
  | waiting
  /-- It has taken an item from the queue. -/
  | holding (ticket : ℕ) (item : Item σ φ)
  /-- It has made the call of the network. -/
  | finishing (ticket : ℕ) (item : Item σ φ) (outcome : Outcome)

/-- What became of a call. -/
inductive Fate where
  /-- The caller sent the message itself. -/
  | inline
  /-- The item was put into the queue. -/
  | accepted
  /-- The queue was full. -/
  | rejected
deriving DecidableEq

/-- A forward queue with its callers `P` and its workers `W`. -/
structure State (P W σ φ : Type) where
  /-- `start` was called. -/
  started : Bool := false
  /-- The items in the queue, with their tickets, the oldest first. -/
  queue : List (ℕ × Item σ φ) := []
  /-- The workers. -/
  workers : W → Worker σ φ := fun _ => .waiting
  /-- The items that callers hold after they found the queue full. -/
  dropping : P → Option (ℕ × Item σ φ) := fun _ => none
  /-- Ghost: the items of all calls, with what became of them; the ticket is the position. -/
  calls : List (Item σ φ × Fate) := []
  /-- Ghost: the tickets in the order in which they left the queue. -/
  dequeued : List ℕ := []
  /-- Ghost: the calls of the network, with their tickets and outcomes, in their order. -/
  sent : List (ℕ × NetworkCall × Outcome) := []
  /-- Ghost: the callbacks that ran, with their tickets, in their order. -/
  ran : List (ℕ × Callback σ φ) := []

/-- A queue that was just constructed. -/
def construct : State P W σ φ := {}

/-- `start`. -/
def State.start (s : State P W σ φ) : State P W σ φ := { s with started := true }

/-- What a caller or a worker does next. -/
inductive Action (P W σ φ : Type) where
  /-- A call of `send_direct` or `send_broadcast`, up to the end of the critical section. -/
  | call (p : P) (c : Call σ φ)
  /-- The caller of a dropped item runs its callback. -/
  | drop (p : P)
  /-- A worker takes an item from the queue. -/
  | dequeue (w : W)
  /-- A worker makes the call of the network. -/
  | send (w : W)
  /-- A worker runs the callback. -/
  | finish (w : W)

variable [DecidableEq P] [DecidableEq W]

/-- One step. -/
def step (config : ForwardQueueConfig) (outcomes : ℕ → Outcome) (s : State P W σ φ) :
    Action P W σ φ → Option (State P W σ φ)
  | .call p c =>
    match s.dropping p with
    | some _ => none
    | none =>
      let ticket := s.calls.length
      if ¬ config.enabled ∨ ¬ s.started then
        let outcome := outcomes s.sent.length
        some { s with
          calls := s.calls ++ [(c.item, .inline)]
          sent := s.sent ++ [(ticket, c.inlineNetwork, outcome)]
          ran := s.ran ++ ((c.inlineCallback outcome).map fun run => (ticket, run)).toList }
      else if s.queue.length ≥ config.max_depth then
        -- The item was not moved, so its callback is still there.
        some { s with
          calls := s.calls ++ [(c.item, .rejected)]
          dropping := Function.update s.dropping p (some (ticket, c.item)) }
      else
        some { s with
          calls := s.calls ++ [(c.item, .accepted)]
          queue := s.queue ++ [(ticket, c.item)] }
  | .drop p =>
    match s.dropping p with
    | none => none
    | some (ticket, item) =>
      some { s with
        dropping := Function.update s.dropping p none
        ran := s.ran ++ (item.dropCallback.map fun run => (ticket, run)).toList }
  | .dequeue w =>
    match s.workers w, s.queue with
    | .waiting, (ticket, item) :: queue =>
      some { s with
        queue
        workers := Function.update s.workers w (.holding ticket item)
        dequeued := s.dequeued ++ [ticket] }
    | _, _ => none
  | .send w =>
    match s.workers w with
    | .holding ticket item =>
      let outcome := outcomes s.sent.length
      some { s with
        workers := Function.update s.workers w (.finishing ticket item outcome)
        sent := s.sent ++ [(ticket, item.network, outcome)] }
    | _ => none
  | .finish w =>
    match s.workers w with
    | .finishing ticket item outcome =>
      some { s with
        workers := Function.update s.workers w .waiting
        ran := s.ran ++ ((item.callback outcome).map fun run => (ticket, run)).toList }
    | _ => none

/-! ## The two ways to send -/

/-- The item of a call leads to the same call of the network. -/
theorem network_item (c : Call σ φ) : c.item.network = c.inlineNetwork := by
  cases c with
  | direct addr msg on_success on_failure => rfl
  | broadcast msg exclude =>
    cases exclude with
    | none => rfl
    | some addr => rfl

/-- The item of a call leads to the same callback. -/
theorem callback_item (c : Call σ φ) (outcome : Outcome) :
    c.item.callback outcome = c.inlineCallback outcome := by
  cases c with
  | direct addr msg on_success on_failure => rfl
  | broadcast msg exclude =>
    cases exclude with
    | none => rfl
    | some addr => rfl

/-! ## What a step does -/

/-- The steps, one rule for each branch of the code. -/
inductive Stepped (config : ForwardQueueConfig) (outcomes : ℕ → Outcome) (s : State P W σ φ) :
    Action P W σ φ → State P W σ φ → Prop where
  /-- The caller sends the message itself. -/
  | inline (p : P) (c : Call σ φ) (hfree : s.dropping p = none)
      (hinline : config.enabled = false ∨ s.started = false) :
      Stepped config outcomes s (.call p c) { s with
        calls := s.calls ++ [(c.item, .inline)]
        sent := s.sent ++ [(s.calls.length, c.inlineNetwork, outcomes s.sent.length)]
        ran := s.ran ++ ((c.inlineCallback (outcomes s.sent.length)).map fun run =>
          (s.calls.length, run)).toList }
  /-- The queue is full. -/
  | rejected (p : P) (c : Call σ φ) (hfree : s.dropping p = none) (henabled : config.enabled = true)
      (hstarted : s.started = true) (hfull : config.max_depth ≤ s.queue.length) :
      Stepped config outcomes s (.call p c) { s with
        calls := s.calls ++ [(c.item, .rejected)]
        dropping := Function.update s.dropping p (some (s.calls.length, c.item)) }
  /-- The item is queued. -/
  | accepted (p : P) (c : Call σ φ) (hfree : s.dropping p = none) (henabled : config.enabled = true)
      (hstarted : s.started = true) (hroom : s.queue.length < config.max_depth) :
      Stepped config outcomes s (.call p c) { s with
        calls := s.calls ++ [(c.item, .accepted)]
        queue := s.queue ++ [(s.calls.length, c.item)] }
  /-- The callback of a dropped item runs. -/
  | drop (p : P) (ticket : ℕ) (item : Item σ φ) (hdropping : s.dropping p = some (ticket, item)) :
      Stepped config outcomes s (.drop p) { s with
        dropping := Function.update s.dropping p none
        ran := s.ran ++ (item.dropCallback.map fun run => (ticket, run)).toList }
  /-- The oldest item leaves the queue. -/
  | dequeue (w : W) (ticket : ℕ) (item : Item σ φ) (queue : List (ℕ × Item σ φ))
      (hwaiting : s.workers w = .waiting) (hqueue : s.queue = (ticket, item) :: queue) :
      Stepped config outcomes s (.dequeue w) { s with
        queue
        workers := Function.update s.workers w (.holding ticket item)
        dequeued := s.dequeued ++ [ticket] }
  /-- The item that a worker holds is sent. -/
  | send (w : W) (ticket : ℕ) (item : Item σ φ) (hholding : s.workers w = .holding ticket item) :
      Stepped config outcomes s (.send w) { s with
        workers := Function.update s.workers w
          (.finishing ticket item (outcomes s.sent.length))
        sent := s.sent ++ [(ticket, item.network, outcomes s.sent.length)] }
  /-- Its callback runs. -/
  | finish (w : W) (ticket : ℕ) (item : Item σ φ) (outcome : Outcome)
      (hfinishing : s.workers w = .finishing ticket item outcome) :
      Stepped config outcomes s (.finish w) { s with
        workers := Function.update s.workers w .waiting
        ran := s.ran ++ ((item.callback outcome).map fun run => (ticket, run)).toList }

/-- Every step follows a rule. -/
theorem stepped_of_step {config : ForwardQueueConfig} {outcomes : ℕ → Outcome}
    {s s' : State P W σ φ} {a : Action P W σ φ} (hstep : step config outcomes s a = some s') :
    Stepped config outcomes s a s' := by
  unfold step at hstep
  cases a with
  | call p c =>
    dsimp only at hstep
    split at hstep
    · exact absurd hstep (by simp)
    · next hfree =>
      split_ifs at hstep with hinline hfull
      · obtain rfl := Option.some.inj hstep
        exact .inline p c hfree (by simpa using hinline)
      · obtain rfl := Option.some.inj hstep
        simp only [Bool.not_eq_true, not_or, Bool.not_eq_false] at hinline
        exact .rejected p c hfree hinline.1 hinline.2 hfull
      · obtain rfl := Option.some.inj hstep
        simp only [Bool.not_eq_true, not_or, Bool.not_eq_false] at hinline
        exact .accepted p c hfree hinline.1 hinline.2 (by omega)
  | drop p =>
    dsimp only at hstep
    split at hstep
    · exact absurd hstep (by simp)
    · next ticket item hdropping =>
      obtain rfl := Option.some.inj hstep
      exact .drop p ticket item hdropping
  | dequeue w =>
    dsimp only at hstep
    split at hstep
    · next ticket item queue hwaiting hqueue =>
      obtain rfl := Option.some.inj hstep
      exact .dequeue w ticket item queue hwaiting hqueue
    · exact absurd hstep (by simp)
  | send w =>
    dsimp only at hstep
    split at hstep
    · next ticket item hholding =>
      obtain rfl := Option.some.inj hstep
      exact .send w ticket item hholding
    · exact absurd hstep (by simp)
  | finish w =>
    dsimp only at hstep
    split at hstep
    · next ticket item outcome hfinishing =>
      obtain rfl := Option.some.inj hstep
      exact .finish w ticket item outcome hfinishing
    · exact absurd hstep (by simp)

end ForwardQueue

end Netos
