import Netos.Core.Config
import Netos.Core.Message

/-!
# The data pipeline

`node/data_pipeline.h` and `node/data_pipeline.cpp`: what a node decides about a received `DATA`. It
is stored by the node that initiated the request, and by no other.
-/

namespace Netos

open CString

/-- `DataState`. -/
inductive DataState where
  | dropInvalid
  | dropNotOrigin
  | storeLocal
deriving DecidableEq, Repr

/-- `DataDecision`. -/
structure DataDecision where
  /-- What to do with the data. -/
  state : DataState := .dropNotOrigin
  /-- Why it is dropped. -/
  reason : Bytes := []
deriving DecidableEq

/-- `validate_data_fields`: the empty string when every field is there. -/
def validateDataFields (msg : Message) : Bytes :=
  if msg.request_id = [] then ascii "missing_request_id"
  else if msg.origin = [] then ascii "missing_origin"
  else if msg.key = [] then ascii "missing_key"
  else if msg.ttl ≤ 0 then ascii "non_positive_ttl"
  else []

namespace DataPipeline

/-- `DataPipeline::run`. -/
def run (config : Config) (msg : Message) : DataDecision :=
  if validateDataFields msg ≠ [] then { state := .dropInvalid, reason := validateDataFields msg }
  else if msg.origin = config.node_id then { state := .storeLocal }
  else { state := .dropNotOrigin }

/-- Only data of the node's own requests is stored. -/
theorem origin_of_storeLocal {config : Config} {msg : Message}
    (h : (run config msg).state = .storeLocal) : msg.origin = config.node_id := by
  unfold run at h
  split_ifs at h with hfields horigin
  exact horigin

/-- The field check of a `DATA`. -/
theorem validateDataFields_ne_nil_iff (msg : Message) :
    validateDataFields msg ≠ [] ↔
      msg.request_id = [] ∨ msg.origin = [] ∨ msg.key = [] ∨ msg.ttl ≤ 0 := by
  unfold validateDataFields
  split_ifs with hid horigin hkey httl
  · simp [hid, show ascii "missing_request_id" ≠ [] by decide]
  · simp [horigin, show ascii "missing_origin" ≠ [] by decide]
  · simp [hkey, show ascii "missing_key" ≠ [] by decide]
  · simp [httl, show ascii "non_positive_ttl" ≠ [] by decide]
  · simp [hid, horigin, hkey, httl]

/-- A `DATA` is dropped exactly when a field is missing, its hop limit is not positive, or another
node asked for it. -/
theorem not_storeLocal_iff {config : Config} {msg : Message} :
    (run config msg).state ≠ .storeLocal ↔
      msg.request_id = [] ∨ msg.origin = [] ∨ msg.key = [] ∨ msg.ttl ≤ 0 ∨
        msg.origin ≠ config.node_id := by
  have hfields := validateDataFields_ne_nil_iff msg
  unfold run
  split_ifs with hdrop horigin
  · have hmissing := hfields.mp hdrop
    simp only [ne_eq, reduceCtorEq, not_false_eq_true, true_iff]
    tauto
  · have hthere := hfields.not.mp hdrop
    simp only [ne_eq, not_true_eq_false, false_iff]
    tauto
  · simp [horigin]

end DataPipeline

end Netos
