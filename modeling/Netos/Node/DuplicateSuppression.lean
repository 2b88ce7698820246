import Netos.Lib.Machine
import Netos.Node.RequestPipeline

/-!
# Duplicate suppression

The runs of the query table of a node: `RequestPipeline::run` on received requests, and the
`record_if_new` of `schedule_requests` on the node's own ones. The machine keeps, beside the table,
the log of the acceptances, latest first: an id is accepted when a request is served or forwarded,
or when an own request is recorded. `duplicate_suppression_exact` says that the table decides as the
log does.

The table forgets an entry only when a pruning finds it too old, and the clock does not go back, so
an entry that is gone would not count any more. That is the invariant `LogInv`: the table agrees
with the log on what it holds, and what it does not hold is older than `ttl`.
-/

namespace Netos.DuplicateSuppression

open CString Cxx

/-- What happens to the query table. -/
inductive Call where
  /-- A received `REQ`, with what Redis answers for its key and the two clock readings. -/
  | request (msg : Message) (cached : Option Bytes) (prune_now record_now : ℤ)
  /-- An own request of `schedule_requests`. -/
  | originate (request_id : Bytes) (prune_now record_now : ℤ)

/-- The clock reading of a call's pruning. -/
def Call.pruneNow : Call → ℤ
  | .request _ _ p _ => p
  | .originate _ p _ => p

/-- The clock reading that a call stores. -/
def Call.recordNow : Call → ℤ
  | .request _ _ _ r => r
  | .originate _ _ r => r

/-- An acceptance: the id, the clock when the call pruned, and the clock stored. -/
structure Acceptance where
  /-- The accepted id. -/
  id : Bytes
  /-- The clock when the call pruned. -/
  prunedAt : ℤ
  /-- The clock stored with the id. -/
  recordedAt : ℤ

/-- The query table, the log of acceptances with the latest first, and the last clock reading. -/
structure State where
  /-- The table of the code. -/
  table : QueryTable
  /-- The acceptances, latest first. -/
  log : List Acceptance
  /-- The last clock reading. -/
  clock : ℤ

/-- The empty table, at some time. -/
def State.init (ttl clock : ℤ) : State := ⟨.construct ttl, [], clock⟩

/-- A decision that accepts the id. -/
def accepts : RequestState → Bool
  | .serveLocal => true
  | .forward => true
  | _ => false

/-- The decision on a request in a state. -/
def decide (s : State) (msg : Message) (cached : Option Bytes) (p r : ℤ) : RequestDecision :=
  (RequestPipeline.run s.table (fun _ => cached) p r msg).1

/-- One call. -/
def step (s : State) : Call → Option State
  | .request msg cached p r =>
    some
      { table := (RequestPipeline.run s.table (fun _ => cached) p r msg).2
        log := if accepts (decide s msg cached p r).state then ⟨msg.request_id, p, r⟩ :: s.log
          else s.log
        clock := r }
  | .originate id p r =>
    some
      { table := (s.table.recordIfNew id p r).1
        log := if (s.table.recordIfNew id p r).2 then ⟨id, p, r⟩ :: s.log else s.log
        clock := r }

/-- The clock does not go back: not between two calls, and not within one. -/
def ClockOrdered (s : State) (c : Call) : Prop :=
  s.clock ≤ c.pruneNow ∧ c.pruneNow ≤ c.recordNow

/-- When an id was last accepted. -/
def State.lastAccepted (s : State) (id : Bytes) : Option ℤ :=
  (s.log.find? fun a => a.id = id).map Acceptance.recordedAt

/-- The table agrees with the log: what it holds is the last acceptance, what it does not hold is
older than `ttl`, and acceptances of one id are more than `ttl` apart. -/
structure LogInv (ttl : ℤ) (s : State) : Prop where
  /-- The table keeps its time to live. -/
  ttl_eq : s.table.ttl = ttl
  /-- An entry of the table is the last acceptance of its id. -/
  last : ∀ id τ, s.table.table.lookup id = some τ → s.lastAccepted id = some τ
  /-- An acceptance is covered by an entry at least as late, or older than `ttl`. -/
  held : ∀ a ∈ s.log, (∃ τ, s.table.table.lookup a.id = some τ ∧ a.recordedAt ≤ τ) ∨
    s.clock - a.recordedAt > milliseconds ttl
  /-- The log is not ahead of the clock. -/
  past : ∀ a ∈ s.log, a.recordedAt ≤ s.clock
  /-- Acceptances of one id are more than `ttl` apart. -/
  apart : s.log.Pairwise fun later earlier => later.id = earlier.id →
    later.prunedAt - earlier.recordedAt > milliseconds ttl

/-- The empty table agrees with the empty log. -/
theorem logInv_init (ttl clock : ℤ) : LogInv ttl (State.init ttl clock) where
  ttl_eq := rfl
  last id τ h := by simp [State.init, QueryTable.construct] at h
  held a h := by simp [State.init] at h
  past a h := by simp [State.init] at h
  apart := List.Pairwise.nil

/-- What an entry of the pruned table is. -/
theorem lookup_prune_eq_some_iff {ttl : ℤ} {s : State} (h : LogInv ttl s) {p τ : ℤ} {id : Bytes} :
    (s.table.prune p).1.lookup id = some τ ↔
      s.table.table.lookup id = some τ ∧ p - τ ≤ milliseconds ttl := by
  rw [QueryTable.lookup_prune, Option.filter_eq_some_iff]
  simp [QueryTable.expired, h.ttl_eq]

/-- The table finds an id after pruning exactly when it was last accepted at most `ttl` before. -/
theorem lookup_prune_ne_none_iff {ttl : ℤ} {s : State} (h : LogInv ttl s) {p : ℤ}
    (hp : s.clock ≤ p) (id : Bytes) : (s.table.prune p).1.lookup id ≠ none ↔
      ∃ τ, s.lastAccepted id = some τ ∧ p - τ ≤ milliseconds ttl := by
  rw [Option.ne_none_iff_exists']
  constructor
  · rintro ⟨τ, hτ⟩
    obtain ⟨hlook, hle⟩ := (lookup_prune_eq_some_iff h).mp hτ
    exact ⟨τ, h.last id τ hlook, hle⟩
  · rintro ⟨τ, hτ, hle⟩
    -- The last acceptance is recent, so the table still holds it.
    obtain ⟨a, ha, rfl⟩ := Option.map_eq_some_iff.mp hτ
    have hid : a.id = id := by simpa using List.find?_some ha
    rcases h.held a (List.mem_of_find?_eq_some ha) with ⟨τ', hτ', -⟩ | hold
    · rw [hid] at hτ'
      have heq : τ' = a.recordedAt := Option.some.inj ((h.last id τ' hτ').symm.trans hτ)
      exact ⟨τ', (lookup_prune_eq_some_iff h).mpr ⟨hτ', by omega⟩⟩
    · omega

/-- After pruning, the entry that covers an acceptance is still there, or the acceptance is old. -/
theorem LogInv.held_prune {ttl : ℤ} {s : State} (h : LogInv ttl s) {p : ℤ} (hp : s.clock ≤ p)
    {a : Acceptance} (ha : a ∈ s.log) :
    (∃ τ, (s.table.prune p).1.lookup a.id = some τ ∧ a.recordedAt ≤ τ) ∨
      p - a.recordedAt > milliseconds ttl := by
  rcases h.held a ha with ⟨τ, hτ, hle⟩ | hold
  · rcases le_or_gt (p - τ) (milliseconds ttl) with hin | hout
    · exact Or.inl ⟨τ, (lookup_prune_eq_some_iff h).mpr ⟨hτ, hin⟩, hle⟩
    · exact Or.inr (by omega)
  · exact Or.inr (by omega)

/-- What a recorded call does to the invariant, whether the id was new or not. -/
theorem LogInv.record {ttl : ℤ} {s : State} (h : LogInv ttl s) {p r : ℤ} (hp : s.clock ≤ p)
    (hr : p ≤ r) (id : Bytes) :
    LogInv ttl ⟨(s.table.recordIfNew id p r).1,
      if (s.table.recordIfNew id p r).2 then ⟨id, p, r⟩ :: s.log else s.log, r⟩ := by
  have hpast : ∀ a ∈ s.log, a.recordedAt ≤ r :=
    fun a ha => le_trans (h.past a ha) (le_trans hp hr)
  -- What is older than `ttl` when the call prunes is older when it stores.
  have hlater : ∀ a : Acceptance, p - a.recordedAt > milliseconds ttl →
      r - a.recordedAt > milliseconds ttl := fun a hold => by omega
  cases hnew : (s.table.prune p).1.lookup id with
  | some τ =>
    -- A duplicate: the log stays, the table is only pruned.
    obtain ⟨hres, htable⟩ := QueryTable.recordIfNew_of_some (r := r) hnew
    rw [hres]
    refine ⟨by simpa using h.ttl_eq, ?_, ?_, hpast, h.apart⟩
    · intro k τ' hk
      rw [htable, lookup_prune_eq_some_iff h] at hk
      exact h.last k τ' hk.1
    · intro a ha
      rw [htable]
      exact (h.held_prune hp ha).imp_right (hlater a)
  | none =>
    -- A new id: it goes to the front of the log and into the pruned table.
    obtain ⟨hres, htable⟩ := QueryTable.recordIfNew_of_none (r := r) hnew
    rw [hres]
    refine ⟨by simpa using h.ttl_eq, ?_, ?_, ?_, ?_⟩
    · intro k τ hk
      rw [htable] at hk
      by_cases hkid : k = id
      · subst hkid
        rw [AList.lookup_insert] at hk
        simpa [State.lastAccepted] using hk
      · rw [AList.lookup_insert_ne hkid, lookup_prune_eq_some_iff h] at hk
        have hlast := h.last k τ hk.1
        simpa [State.lastAccepted, Ne.symm hkid] using hlast
    · intro a ha
      rw [htable]
      rcases List.mem_cons.mp ha with rfl | ha
      · exact Or.inl ⟨r, AList.lookup_insert _, le_refl r⟩
      · -- An acceptance of the same id is covered by the new entry, any other as before.
        by_cases hid : a.id = id
        · exact Or.inl ⟨r, by rw [hid, AList.lookup_insert], hpast a ha⟩
        · rw [AList.lookup_insert_ne hid]
          exact (h.held_prune hp ha).imp_right (hlater a)
    · intro a ha
      rcases List.mem_cons.mp ha with rfl | ha
      · exact le_refl r
      · exact hpast a ha
    · refine List.pairwise_cons.mpr ⟨fun a ha hid => ?_, h.apart⟩
      -- An earlier acceptance of the id is not in the pruned table any more.
      rcases h.held_prune hp ha with ⟨τ, hτ, -⟩ | hold
      · rw [← show id = a.id from hid, hnew] at hτ
        exact absurd hτ (by simp)
      · exact hold

/-- A call that leaves table and log alone only moves the clock. -/
theorem LogInv.advance {ttl : ℤ} {s : State} (h : LogInv ttl s) {r : ℤ} (hr : s.clock ≤ r) :
    LogInv ttl { s with clock := r } where
  ttl_eq := h.ttl_eq
  last := h.last
  held a ha := (h.held a ha).imp_right fun hold => by show r - a.recordedAt > _; omega
  past a ha := le_trans (h.past a ha) hr
  apart := h.apart

/-- What a request does to the table and the log: nothing unless it is valid, and otherwise what
recording its id does. -/
theorem step_request (s : State) (msg : Message) (cached : Option Bytes) (p r : ℤ) :
    step s (.request msg cached p r) =
      if RequestPipeline.Valid msg then step s (.originate msg.request_id p r)
      else some { s with clock := r } := by
  split_ifs with hvalid
  · -- Served or forwarded: either way a new id is accepted.
    simp only [step, decide, RequestPipeline.run_of_valid _ _ _ _ hvalid]
    cases (s.table.recordIfNew msg.request_id p r).2 with
    | false => rfl
    | true => cases cached <;> rfl
  · obtain ⟨htable, hstate⟩ := RequestPipeline.run_of_not_valid s.table (fun _ => cached) p r
      hvalid
    rcases hstate with hstate | hstate
    · simp [step, decide, htable, hstate, accepts]
    · simp [step, decide, htable, hstate, accepts]

/-- Every call keeps the invariant. -/
theorem LogInv.step {ttl : ℤ} {s s' : State} {c : Call} (h : LogInv ttl s) (hc : ClockOrdered s c)
    (hs : step s c = some s') : LogInv ttl s' := by
  cases c with
  | originate id p r =>
    obtain rfl := Option.some.inj hs
    exact h.record hc.1 hc.2 id
  | request msg cached p r =>
    rw [step_request] at hs
    split_ifs at hs with hvalid
    · obtain rfl := Option.some.inj hs
      exact h.record hc.1 hc.2 msg.request_id
    · obtain rfl := Option.some.inj hs
      exact h.advance (le_trans hc.1 hc.2)

/-- A call that drops a request leaves every id as it was last accepted. -/
theorem lastAccepted_of_dropped {s s' : State} {msg : Message} {cached : Option Bytes} {p r : ℤ}
    (hdrop : (decide s msg cached p r).state = .dropDuplicate)
    (hs : step s (.request msg cached p r) = some s') (id : Bytes) :
    s'.lastAccepted id = s.lastAccepted id := by
  obtain rfl := Option.some.inj hs
  simp [State.lastAccepted, hdrop, accepts]

/-- Duplicate suppression is exact. After any sequence of received and own requests at nondecreasing
clock readings, a valid request is dropped as a duplicate if and only if its id was last accepted at
most `ttl` before this call prunes; dropping it does not move the last acceptance of any id; and any
two acceptances of one id are more than `ttl` apart. -/
theorem duplicate_suppression_exact (ttl clock : ℤ) (calls : List Call) (s : State)
    (hrun : Machine.run step (State.init ttl clock) calls = some s)
    (hclock : Machine.Guarded step ClockOrdered (State.init ttl clock) calls) :
    (∀ (msg : Message) (cached : Option Bytes) (p r : ℤ), s.clock ≤ p →
      msg.request_id ≠ [] → msg.origin ≠ [] → msg.key ≠ [] → 0 < msg.ttl →
      ((decide s msg cached p r).state = .dropDuplicate ↔
        ∃ τ, s.lastAccepted msg.request_id = some τ ∧ p - τ ≤ milliseconds ttl)) ∧
    (∀ (msg : Message) (cached : Option Bytes) (p r : ℤ) (s' : State),
      (decide s msg cached p r).state = .dropDuplicate →
      step s (.request msg cached p r) = some s' → ∀ id, s'.lastAccepted id = s.lastAccepted id) ∧
    s.log.Pairwise fun later earlier => later.id = earlier.id →
      later.prunedAt - earlier.recordedAt > milliseconds ttl := by
  have hinv : LogInv ttl s := Machine.Guarded.invariant (fun s c s' hi hc hs => hi.step hc hs)
    (logInv_init ttl clock) hclock hrun
  refine ⟨fun msg cached p r hp hid horigin hkey httl => ?_,
    fun msg cached p r s' hdrop hs => lastAccepted_of_dropped hdrop hs, hinv.apart⟩
  rw [decide, RequestPipeline.run_state_eq_dropDuplicate_iff _ _ _ _ ⟨hid, horigin, hkey, httl⟩,
    ← lookup_prune_ne_none_iff hinv hp, ← Bool.not_eq_true, Ne,
    ← QueryTable.recordIfNew_eq_true_iff]

/-- A request of `A` for the key `k`. -/
def repeatedRequest : Message := ⟨.request, ascii "A-1", ascii "A", 4, ascii "k", []⟩

/-- A request that comes back a millisecond after it was forwarded is dropped. -/
theorem duplicate_suppression_exact_repeated :
    ∃ s, Machine.run step (State.init 2000 0) [.request repeatedRequest none 5 6] = some s ∧
      (decide s repeatedRequest none 1000006 1000007).state = .dropDuplicate := by
  refine ⟨_, rfl, ((duplicate_suppression_exact 2000 0 [.request repeatedRequest none 5 6] _ rfl
    ⟨by simp [ClockOrdered, State.init, Call.pruneNow, Call.recordNow], fun _ _ => trivial⟩).1
      repeatedRequest none 1000006 1000007 (by decide) (by decide) (by decide) (by decide)
      (by decide)).mpr ⟨6, by decide, by decide⟩⟩

end Netos.DuplicateSuppression
