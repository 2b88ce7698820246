import Netos.Core.StringUtils
import Mathlib.Tactic.NormNum

/-!
# Messages and their wire format

`core/message.h` and `core/message.cpp`: a message is printed as six fields between `|`, and read
back by splitting at `|`. Nothing is escaped, so a field that contains the delimiter does not
survive. `wire_codec_exact` gives the exact domain: a message comes back from its encoding if and
only if none of its four free fields contains `|`, and what the decoder once accepted is always in
that domain, so relays preserve it.
-/

namespace Netos

open CString

/-- `MessageType`. -/
inductive MessageType where
  | request
  | data
  | contentBloom
  | queryBloom
  | unknown
deriving DecidableEq, Repr

/-- `Message`. For both `REQ` and `DATA`, `origin` is the node that initiated the request. -/
structure Message where
  /-- The message type. -/
  type : MessageType
  /-- The request id. -/
  request_id : Bytes
  /-- The node that initiated the request. -/
  origin : Bytes
  /-- For `REQ` the hop limit; for `DATA` a sanity check only. -/
  ttl : Int32
  /-- The key, or the filter in hexadecimal for `CBF` and `QBF`. -/
  key : Bytes
  /-- The value, or the time of creation for `QBF`. -/
  value : Bytes
deriving DecidableEq

/-- `parse_type`. -/
def parseType (token : Bytes) : MessageType :=
  if token = ascii "REQ" then .request
  else if token = ascii "DATA" then .data
  else if token = ascii "CBF" then .contentBloom
  else if token = ascii "QBF" then .queryBloom
  else .unknown

/-- `parse_int`: the whole token must be a numeral; its `long` is narrowed to `int`. -/
def parseInt (token : Bytes) (fallback : Int32) : Int32 :=
  if token = [] then fallback
  else
    match strtol token with
    | none => fallback
    | some (value, rest) => if rest ≠ [] then fallback else Int32.ofInt value

/-- `message_type_label`. -/
def messageTypeLabel : MessageType → Bytes
  | .request => ascii "REQ"
  | .data => ascii "DATA"
  | .contentBloom => ascii "CBF"
  | .queryBloom => ascii "QBF"
  | .unknown => ascii "UNKNOWN"

/-- `Message::to_wire`. -/
def Message.toWire (m : Message) : Bytes :=
  messageTypeLabel m.type ++ [bar] ++ m.request_id ++ [bar] ++ m.origin ++ [bar] ++
    intToString m.ttl.toInt ++ [bar] ++ m.key ++ [bar] ++ m.value

/-- `Message::from_wire`: at least five parts; a sixth is the value, and further parts are
dropped. -/
def fromWire (wire : Bytes) : Option Message :=
  match split wire bar false with
  | type :: request_id :: origin :: ttl :: key :: rest =>
    some ⟨parseType type, request_id, origin, parseInt ttl 0, key, rest.headD []⟩
  | _ => none

/-- None of the four free fields contains the delimiter. -/
def Message.DelimiterFree (m : Message) : Prop :=
  bar ∉ m.request_id ∧ bar ∉ m.origin ∧ bar ∉ m.key ∧ bar ∉ m.value

/-- Decidable, so that an instance can be evaluated. -/
instance (m : Message) : Decidable m.DelimiterFree :=
  inferInstanceAs (Decidable (_ ∧ _ ∧ _ ∧ _))

/-- A label is read back as its type. -/
theorem parseType_messageTypeLabel (t : MessageType) : parseType (messageTypeLabel t) = t := by
  cases t <;> decide

/-- No label contains the delimiter. -/
theorem bar_not_mem_messageTypeLabel (t : MessageType) : bar ∉ messageTypeLabel t := by
  cases t <;> decide

/-- A printed integer does not contain the delimiter. -/
theorem bar_not_mem_intToString (z : ℤ) : bar ∉ intToString z := by
  intro h
  rcases mem_intToString h with h | h
  · exact absurd h (by decide)
  · exact absurd h (by decide)

/-- A printed `int` is read back exactly. -/
theorem parseInt_intToString (i fallback : Int32) :
    parseInt (intToString i.toInt) fallback = i := by
  -- An `int` is in the range of `long`, so `strtol` does not saturate it.
  have hl := i.le_toInt
  have hu := i.toInt_lt
  rw [parseInt, if_neg (intToString_ne_nil _), strtol_intToString (by omega) (by omega)]
  simp [Int32.ofInt_toInt]

/-- The encoding is the six fields joined by the delimiter. -/
theorem toWire_eq_intercalate (m : Message) :
    m.toWire = [bar].intercalate [messageTypeLabel m.type, m.request_id, m.origin,
      intToString m.ttl.toInt, m.key, m.value] := by
  simp [Message.toWire, List.append_assoc]

/-- A message whose free fields do not contain the delimiter comes back from its encoding. -/
theorem fromWire_toWire {m : Message} (h : m.DelimiterFree) : fromWire m.toWire = some m := by
  obtain ⟨hid, horigin, hkey, hvalue⟩ := h
  have hfree : ∀ l ∈ [messageTypeLabel m.type, m.request_id, m.origin, intToString m.ttl.toInt,
      m.key, m.value], bar ∉ l := by
    simp [bar_not_mem_messageTypeLabel, bar_not_mem_intToString, hid, horigin, hkey, hvalue]
  have hsplit : split m.toWire bar false = [messageTypeLabel m.type, m.request_id, m.origin,
      intToString m.ttl.toInt, m.key, m.value] := by
    rw [split_eq_splitOn, toWire_eq_intercalate]
    exact List.splitOn_intercalate bar hfree (List.cons_ne_nil _ _)
  rw [fromWire, hsplit]
  simp [parseType_messageTypeLabel, parseInt_intToString]

/-- What the decoder accepts: the split has five parts or more, and the message is made of them. -/
theorem fromWire_eq_some_iff {wire : Bytes} {m : Message} :
    fromWire wire = some m ↔ ∃ type request_id origin ttl key rest,
      split wire bar false = type :: request_id :: origin :: ttl :: key :: rest ∧
        m = ⟨parseType type, request_id, origin, parseInt ttl 0, key, rest.headD []⟩ := by
  constructor
  · intro h
    unfold fromWire at h
    split at h
    · next type request_id origin ttl key rest hs =>
      exact ⟨type, request_id, origin, ttl, key, rest, hs, (Option.some.inj h).symm⟩
    · exact absurd h (by simp)
  · rintro ⟨type, request_id, origin, ttl, key, rest, hs, rfl⟩
    simp [fromWire, hs]

/-- The fields of a decoded message do not contain the delimiter. -/
theorem delimiterFree_of_fromWire {wire : Bytes} {m : Message} (h : fromWire wire = some m) :
    m.DelimiterFree := by
  obtain ⟨type, request_id, origin, ttl, key, rest, hs, rfl⟩ := fromWire_eq_some_iff.mp h
  rw [split_eq_splitOn] at hs
  have hmem : ∀ l ∈ type :: request_id :: origin :: ttl :: key :: rest, bar ∉ l :=
    fun l hl => Delimited.not_mem_of_mem_splitOn (hs ▸ hl)
  refine ⟨hmem _ (by simp), hmem _ (by simp), hmem _ (by simp), ?_⟩
  -- The value is the sixth part, or empty when there is none.
  cases rest with
  | nil => exact List.not_mem_nil
  | cons value rest => exact hmem _ (by simp)

/-- Replacing the hop limit keeps the free fields. -/
theorem Message.DelimiterFree.withTtl {m : Message} (h : m.DelimiterFree) (ttl : Int32) :
    ({ m with ttl } : Message).DelimiterFree := h

/-- One relay of a wire string: decode it, replace the hop limit, and encode it again. -/
def relayWire (wire : Bytes) (ttl : Int32) : Option Bytes :=
  (fromWire wire).map fun m => ({ m with ttl } : Message).toWire

/-- A chain of relays delivers the message that entered it, with the last hop limit. -/
theorem foldlM_relayWire {wire : Bytes} {m : Message} (h : fromWire wire = some m)
    (ttls : List Int32) : ∃ wire', ttls.foldlM relayWire wire = some wire' ∧
      fromWire wire' = some { m with ttl := ttls.getLast?.getD m.ttl } := by
  induction ttls generalizing wire m with
  | nil => exact ⟨wire, rfl, h⟩
  | cons ttl ttls ih =>
    -- What the first relay sends is decoded as what it relays, and the others go on from there.
    have hm : fromWire ({ m with ttl } : Message).toWire = some { m with ttl } :=
      fromWire_toWire ((delimiterFree_of_fromWire h).withTtl ttl)
    obtain ⟨wire', hrun, hlast⟩ := ih hm
    refine ⟨wire', ?_, ?_⟩
    · simp only [List.foldlM_cons, relayWire, h, Option.map_some, Option.bind_eq_bind,
        Option.bind_some]
      exact hrun
    · rw [hlast, List.getLast?_cons]
      rfl

/-- The exact domain of the wire codec. A message comes back from its encoding if and only if none
of its four free fields contains `|`; and a message that the decoder accepted comes back from its
re-encoding, also with any other hop limit, so that a chain of relays of any length preserves
everything but the hop limit. -/
theorem wire_codec_exact :
    (∀ m : Message, fromWire m.toWire = some m ↔
      bar ∉ m.request_id ∧ bar ∉ m.origin ∧ bar ∉ m.key ∧ bar ∉ m.value) ∧
    ∀ (wire : Bytes) (m : Message), fromWire wire = some m →
      fromWire m.toWire = some m ∧
      (∀ ttl : Int32, fromWire ({ m with ttl } : Message).toWire = some { m with ttl }) ∧
      ∀ ttls : List Int32, ∃ wire', ttls.foldlM relayWire wire = some wire' ∧
        fromWire wire' = some { m with ttl := ttls.getLast?.getD m.ttl } := by
  refine ⟨fun m => ⟨fun h => delimiterFree_of_fromWire h, fun h => fromWire_toWire h⟩, ?_⟩
  intro wire m h
  have hfree := delimiterFree_of_fromWire h
  exact ⟨fromWire_toWire hfree, fun ttl => fromWire_toWire (hfree.withTtl ttl),
    foldlM_relayWire h⟩

end Netos
