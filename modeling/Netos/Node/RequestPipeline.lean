import Netos.Core.Message
import Netos.Tables.QueryTable

/-!
# The request pipeline

`node/request_pipeline.h` and `node/request_pipeline.cpp`: what a node decides about a received
`REQ`. The order of the checks is the source's: fields, hop limit, duplicate, cache, forward. Redis
enters as the outcome of its `get`, and the two clock readings of the query table are arguments.
-/

namespace Netos

open CString

/-- `RequestState`. -/
inductive RequestState where
  | dropInvalid
  | dropTtl
  | dropDuplicate
  | serveLocal
  | forward
deriving DecidableEq, Repr

/-- `RequestDecision`. -/
structure RequestDecision where
  /-- What to do with the request. -/
  state : RequestState := .dropTtl
  /-- The hop limit of the forwarded request, meaningful when it is forwarded. -/
  forward_ttl : Int32 := 0
  /-- The value to serve. -/
  value : Option Bytes := none
  /-- Why the request was dropped. -/
  reason : Bytes := []
deriving DecidableEq

/-- `validate_request_fields`: the empty string when every field is there. -/
def validateRequestFields (msg : Message) : Bytes :=
  if msg.request_id = [] then ascii "missing_request_id"
  else if msg.origin = [] then ascii "missing_origin"
  else if msg.key = [] then ascii "missing_key"
  else []

namespace RequestPipeline

/-- `RequestPipeline::run` on the query table `t`, with `redisGet` the outcomes of Redis' `get`. -/
def run (t : QueryTable) (redisGet : Bytes → Option Bytes) (prune_now record_now : ℤ)
    (msg : Message) : RequestDecision × QueryTable :=
  if validateRequestFields msg ≠ [] then
    ({ state := .dropInvalid, reason := validateRequestFields msg }, t)
  else if ¬ 0 < msg.ttl then ({ state := .dropTtl, reason := ascii "ttl_expired" }, t)
  else
    let (t, isNew) := t.recordIfNew msg.request_id prune_now record_now
    if ¬ isNew then ({ state := .dropDuplicate, reason := ascii "duplicate_request_id" }, t)
    else
      match redisGet msg.key with
      | some value => ({ state := .serveLocal, value := some value }, t)
      | none => ({ state := .forward, forward_ttl := msg.ttl - 1 }, t)

/-- A request that reaches the duplicate check: its fields are there and its hop limit is
positive. -/
def Valid (msg : Message) : Prop :=
  msg.request_id ≠ [] ∧ msg.origin ≠ [] ∧ msg.key ≠ [] ∧ 0 < msg.ttl

/-- Decidable, so that a message can be checked. -/
instance (msg : Message) : Decidable (Valid msg) := inferInstanceAs (Decidable (_ ∧ _ ∧ _ ∧ _))

/-- A request is not valid exactly when a field is missing or its hop limit is not positive. -/
theorem not_valid_iff {msg : Message} :
    ¬ Valid msg ↔ msg.request_id = [] ∨ msg.origin = [] ∨ msg.key = [] ∨ msg.ttl ≤ 0 := by
  unfold Valid
  rw [← Int32.not_lt]
  tauto

/-- The field check passes when no field is empty. -/
theorem validateRequestFields_eq_nil_iff (msg : Message) :
    validateRequestFields msg = [] ↔ msg.request_id ≠ [] ∧ msg.origin ≠ [] ∧ msg.key ≠ [] := by
  unfold validateRequestFields
  split_ifs with hid horigin hkey
  · simp [hid, show ascii "missing_request_id" ≠ [] by decide]
  · simp [horigin, show ascii "missing_origin" ≠ [] by decide]
  · simp [hkey, show ascii "missing_key" ≠ [] by decide]
  · simp [hid, horigin, hkey]

variable (t : QueryTable) (redisGet : Bytes → Option Bytes) (p r : ℤ) {msg : Message}

/-- A request that is not valid is dropped before the query table is touched. -/
theorem run_of_not_valid (h : ¬ Valid msg) :
    (run t redisGet p r msg).2 = t ∧ ((run t redisGet p r msg).1.state = .dropInvalid ∨
      (run t redisGet p r msg).1.state = .dropTtl) := by
  unfold run
  split_ifs with hfields httl
  · exact ⟨rfl, Or.inl rfl⟩
  · -- Both checks passed, so the request is valid.
    rw [not_not, validateRequestFields_eq_nil_iff] at hfields
    exact absurd ⟨hfields.1, hfields.2.1, hfields.2.2, httl⟩ h
  · exact ⟨rfl, Or.inr rfl⟩

/-- A valid request records its id; a duplicate is dropped, and a new one is served or forwarded as
Redis has the key or not. -/
theorem run_of_valid (h : Valid msg) :
    run t redisGet p r msg =
      ((if (t.recordIfNew msg.request_id p r).2 = true then
          match redisGet msg.key with
          | some value => { state := .serveLocal, value := some value }
          | none => { state := .forward, forward_ttl := msg.ttl - 1 }
        else { state := .dropDuplicate, reason := ascii "duplicate_request_id" }),
        (t.recordIfNew msg.request_id p r).1) := by
  obtain ⟨hid, horigin, hkey, httl⟩ := h
  have hfields := (validateRequestFields_eq_nil_iff msg).mpr ⟨hid, horigin, hkey⟩
  unfold run
  rw [if_neg (by simp [hfields]), if_neg (by simp [httl])]
  dsimp only
  cases (t.recordIfNew msg.request_id p r).2 with
  | false => rfl
  | true => cases redisGet msg.key <;> rfl

/-- A valid request is dropped as a duplicate exactly when its id was not new. -/
theorem run_state_eq_dropDuplicate_iff (h : Valid msg) :
    (run t redisGet p r msg).1.state = .dropDuplicate ↔
      (t.recordIfNew msg.request_id p r).2 = false := by
  rw [run_of_valid _ _ _ _ h]
  cases (t.recordIfNew msg.request_id p r).2 with
  | false => simp
  | true => cases redisGet msg.key <;> simp

end RequestPipeline

end Netos
