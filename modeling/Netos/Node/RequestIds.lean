import Netos.Lib.Machine
import Netos.Node.Node

/-!
# The ids of the requests

`make_request_id` on several nodes, each with threads of its own. A call reads the system clock and
then takes a number from the node's counter, in one atomic step; between the two, other threads of
the node may have taken theirs. The counters start at zero with the processes.

An id joins the node's id, the reading and the number by hyphens, none of which is escaped. The two
numerals hold no hyphen as long as the reading is not negative, so the last two hyphens are the
joints and the id determines its parts (`requestId_inj`), whatever the node's id holds.
-/

namespace Netos.RequestIds

open CString

/-- The id that a node makes of a reading of the clock and a number. -/
def requestId (node_id : Bytes) (millis counter : ℕ) : Bytes :=
  node_id ++ ascii "-" ++ natToString millis ++ ascii "-" ++ natToString counter

/-- An id determines its parts. -/
theorem requestId_inj {node_id node_id' : Bytes} {millis millis' counter counter' : ℕ} :
    requestId node_id millis counter = requestId node_id' millis' counter' ↔
      (node_id = node_id' ∧ millis = millis') ∧ counter = counter' := by
  have hshape : ∀ (a : Bytes) (m c : ℕ),
      requestId a m c = (a ++ 45 :: natToString m) ++ 45 :: natToString c := fun a m c => by
    have hhyphen : ascii "-" = [45] := rfl
    unfold requestId
    simp only [hhyphen, List.append_assoc, List.singleton_append]
  have hhyphen : isDigit 45 = false := by decide
  rw [hshape, hshape, append_natToString_inj hhyphen, append_natToString_inj hhyphen]

variable {ι τ : Type*} [DecidableEq ι] [DecidableEq τ]

/-- The nodes, and the calls under way. -/
structure State (ι τ : Type*) where
  /-- The nodes. -/
  nodes : ι → Node
  /-- The reading that a thread has made and not used. -/
  reading : ι → τ → Option ℕ
  /-- The ids returned, with the node. -/
  issued : List (ι × Bytes)

/-- A step of a call of `make_request_id`, by a thread of a node. -/
inductive Action (ι τ : Type*) where
  /-- The system clock is read, in milliseconds. -/
  | readClock (i : ι) (thread : τ) (millis : ℕ)
  /-- A number is taken, and the id returned. -/
  | takeNumber (i : ι) (thread : τ)

/-- A step: a thread that is not in a call reads the clock, and one that has read it goes on. -/
def step (s : State ι τ) : Action ι τ → Option (State ι τ)
  | .readClock i thread millis =>
    match s.reading i thread with
    | some _ => none
    | none => some { s with
        reading := Function.update s.reading i
          (Function.update (s.reading i) thread (some millis)) }
  | .takeNumber i thread =>
    match s.reading i thread with
    | none => none
    | some millis =>
      let (node, id) := (s.nodes i).makeRequestId millis
      some
        { nodes := Function.update s.nodes i node
          reading := Function.update s.reading i (Function.update (s.reading i) thread none)
          issued := s.issued ++ [(i, id)] }

/-- Processes that have just started. -/
def State.init (config : ι → Config) (redis : ι → RedisClient.Store) : State ι τ where
  nodes i := Node.construct (config i) (redis i)
  reading _ _ := none
  issued := []

/-- How many ids a node has returned. -/
def State.calls (s : State ι τ) (i : ι) : ℕ := s.issued.countP fun e => e.1 = i

/-- What was issued. As long as no counter goes round, the numbers of a node are those below the
number of its calls, and no id was issued twice. -/
structure Issued (config : ι → Config) (s : State ι τ) : Prop where
  /-- The nodes keep their ids. -/
  node_id : ∀ i, (s.nodes i).config.node_id = (config i).node_id
  /-- The counters count the calls. -/
  counter : ∀ i, (s.nodes i).request_counter = UInt64.ofNat (s.calls i)
  /-- The ids are made of numbers below the counters. -/
  made : (∀ i, s.calls i < 2 ^ 64) → ∀ e ∈ s.issued, ∃ millis counter,
    e.2 = requestId (config e.1).node_id millis counter ∧ counter < s.calls e.1
  /-- They are distinct. -/
  nodup : (∀ i, s.calls i < 2 ^ 64) → (s.issued.map Prod.snd).Nodup

/-- The id that a node makes. -/
theorem makeRequestId_eq (n : Node) (millis : ℕ) :
    n.makeRequestId millis = ({ n with request_counter := n.request_counter + 1 },
      requestId n.config.node_id millis n.request_counter.toNat) := by
  have hmillis : intToString (millis : ℤ) = natToString millis := by
    unfold intToString
    rw [if_neg (not_lt.mpr (Int.natCast_nonneg millis)), Int.natAbs_natCast]
  rw [Node.makeRequestId, hmillis, requestId]

omit [DecidableEq τ] in
/-- One call more. -/
theorem calls_concat {s s' : State ι τ} {i : ι} {id : Bytes}
    (h : s'.issued = s.issued ++ [(i, id)]) (j : ι) :
    s'.calls j = s.calls j + if i = j then 1 else 0 := by
  unfold State.calls
  rw [h, List.countP_append, List.countP_singleton]
  simp only [decide_eq_true_eq]

omit [DecidableEq τ] in
/-- A number is taken. -/
theorem Issued.takeNumber {config : ι → Config} {s s' : State ι τ} (h : Issued config s)
    (hids : Function.Injective fun i => (config i).node_id) {i : ι} {millis : ℕ}
    (hnodes : s'.nodes = Function.update s.nodes i ((s.nodes i).makeRequestId millis).1)
    (hissued : s'.issued = s.issued ++ [(i, ((s.nodes i).makeRequestId millis).2)]) :
    Issued config s' := by
  have hself : s'.nodes i = { s.nodes i with
      request_counter := (s.nodes i).request_counter + 1 } := by
    rw [hnodes, Function.update_self, makeRequestId_eq]
  have hother : ∀ j ≠ i, s'.nodes j = s.nodes j := fun j hj => by
    rw [hnodes, Function.update_of_ne hj]
  have hcalls := calls_concat hissued
  have hcalls_self : s'.calls i = s.calls i + 1 := by rw [hcalls, if_pos rfl]
  have hcalls_other : ∀ j ≠ i, s'.calls j = s.calls j := fun j hj => by
    rw [hcalls, if_neg (Ne.symm hj), Nat.add_zero]
  have hgrows : ∀ j, s.calls j ≤ s'.calls j := fun j => by
    rw [hcalls]
    exact Nat.le_add_right _ _
  -- While no counter has gone round, the number taken is the number of the calls before.
  have hnew : (∀ j, s'.calls j < 2 ^ 64) → ((s.nodes i).makeRequestId millis).2 =
      requestId (config i).node_id millis (s.calls i) := fun hfew => by
    have hlt : s.calls i < 2 ^ 64 := lt_of_le_of_lt (hgrows i) (hfew i)
    rw [makeRequestId_eq, h.node_id, h.counter, UInt64.toNat_ofNat', Nat.mod_eq_of_lt hlt]
  have hbefore : (∀ j, s'.calls j < 2 ^ 64) → ∀ j, s.calls j < 2 ^ 64 := fun hfew j =>
    lt_of_le_of_lt (hgrows j) (hfew j)
  refine ⟨fun j => ?_, fun j => ?_, fun hfew e he => ?_, fun hfew => ?_⟩
  · by_cases hj : j = i
    · subst hj
      rw [hself]
      exact h.node_id j
    · rw [hother j hj]
      exact h.node_id j
  · by_cases hj : j = i
    · subst hj
      rw [hself, hcalls_self, UInt64.ofNat_add, ← h.counter]
      rfl
    · rw [hother j hj, hcalls_other j hj]
      exact h.counter j
  · rw [hissued] at he
    rcases List.mem_append.mp he with he | he
    · obtain ⟨m, c, hid, hc⟩ := h.made (hbefore hfew) e he
      exact ⟨m, c, hid, lt_of_lt_of_le hc (hgrows e.1)⟩
    · rw [List.mem_singleton.mp he]
      exact ⟨millis, s.calls i, hnew hfew, by rw [hcalls_self]; exact Nat.lt_succ_self _⟩
  · rw [hissued, List.map_append, List.map_singleton, List.nodup_append']
    refine ⟨h.nodup (hbefore hfew), List.nodup_singleton _, fun id hold hlast => ?_⟩
    -- An older id of the node has a smaller number, one of another node another node's id.
    obtain ⟨e, he, rfl⟩ := List.mem_map.mp hold
    obtain ⟨m, c, hid, hc⟩ := h.made (hbefore hfew) e he
    rw [List.mem_singleton.mp hlast, hnew hfew] at hid
    obtain ⟨⟨hnode, -⟩, hnumber⟩ := requestId_inj.mp hid
    have hsame : i = e.1 := hids hnode
    rw [← hsame, ← hnumber] at hc
    exact lt_irrefl _ hc

/-- Every step keeps the ids distinct. -/
theorem Issued.step {config : ι → Config} {s s' : State ι τ} {a : Action ι τ}
    (h : Issued config s) (hids : Function.Injective fun i => (config i).node_id)
    (hstep : step s a = some s') : Issued config s' := by
  cases a with
  | readClock i thread millis =>
    cases hreading : s.reading i thread with
    | some _ => exact absurd hstep (by simp [RequestIds.step, hreading])
    | none =>
      -- Reading the clock issues nothing.
      simp only [RequestIds.step, hreading] at hstep
      obtain rfl := Option.some.inj hstep
      exact ⟨h.node_id, h.counter, h.made, h.nodup⟩
  | takeNumber i thread =>
    cases hreading : s.reading i thread with
    | none => exact absurd hstep (by simp [RequestIds.step, hreading])
    | some millis =>
      simp only [RequestIds.step, hreading] at hstep
      obtain rfl := Option.some.inj hstep
      exact h.takeNumber hids rfl rfl

/-- Request ids are unique across nodes. For every family of nodes with distinct ids, every family
of threads and every interleaving of their calls, at any readings of the clock that are not
negative: if every node has made fewer than `2 ^ 64` calls, no id was returned twice. -/
theorem request_ids_distinct (config : ι → Config) (redis : ι → RedisClient.Store)
    (hids : Function.Injective fun i => (config i).node_id) (actions : List (Action ι τ))
    (s : State ι τ) (hrun : Machine.run step (State.init config redis) actions = some s)
    (hfew : ∀ i, s.calls i < 2 ^ 64) : (s.issued.map Prod.snd).Nodup := by
  have hinit : Issued config (State.init config redis : State ι τ) :=
    ⟨fun _ => rfl, fun _ => rfl, fun _ e he => absurd he List.not_mem_nil,
      fun _ => List.nodup_nil⟩
  have hissued : Issued config s :=
    Machine.run_invariant (fun _ _ _ h hstep => h.step hids hstep) hinit hrun
  exact hissued.nodup hfew

/-- A configuration with a node id. -/
def namedConfig (node_id : Bytes) : Config where
  node_id
  config_source := []
  log_level := ascii "info"
  bind_ip := ascii "0.0.0.0"
  bind_port := 9000
  redis_socket := ascii "/tmp/redis.sock"
  neighbors := []
  seed_keys := []
  request_keys := []

/-- Two nodes, one with a hyphen and a digit in its id, at the same readings. -/
theorem request_ids_distinct_hyphen :
    ∃ s : State Bool Bool, Machine.run step
        (State.init (fun b => namedConfig (cond b (ascii "a-1") (ascii "a"))) fun _ _ => none)
        [.readClock true true 1, .readClock false true 1, .takeNumber false true,
          .readClock true false 1, .takeNumber true false, .takeNumber true true] = some s ∧
      s.issued.map Prod.snd = [ascii "a-1-0", ascii "a-1-1-0", ascii "a-1-1-1"] ∧
      (s.issued.map Prod.snd).Nodup := by
  have hids : Function.Injective fun b : Bool =>
      (namedConfig (cond b (ascii "a-1") (ascii "a"))).node_id := by
    intro b b' h
    cases b <;> cases b' <;> first | rfl | exact absurd h (by decide)
  refine ⟨_, rfl, by decide, request_ids_distinct _ (fun _ _ => none) hids
    [.readClock true true 1, .readClock false true 1, .takeNumber false true,
      .readClock true false 1, .takeNumber true false, .takeNumber true true] _ rfl fun b => ?_⟩
  cases b <;> exact Nat.lt_of_le_of_lt (List.countP_le_length) (by decide)

end Netos.RequestIds
