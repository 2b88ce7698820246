import Netos.Core.Message

/-!
# The receive buffer

The loop of `UdpTransport::run` in `network/udp_transport.cpp`: a datagram is received into a buffer
of 2048 bytes, of which the last is kept for a NUL, so of a longer datagram only the first 2047
bytes reach the handler. An empty datagram does not reach it.

`arrives_toWire_iff` says which messages survive encoding, cut and decoding. Whatever is lost, the
type is not (`type_of_arrives`), and a relayed request or Query-BF always survives
(`arrives_relay`): it prints no longer than what was received, up to one empty field at the end.
-/

namespace Netos

open CString

namespace UdpTransport

/-- The length of the buffer of `run`. -/
def bufferSize : ℕ := 2048

/-- What `recvfrom` leaves in the buffer of `run`, and the handler is called with; nothing for an
empty datagram. -/
def receive (payload : Bytes) : Option Bytes :=
  let n := min payload.length (bufferSize - 1)
  if n = 0 then none else some (payload.take n)

/-- The message that a datagram arrives as. -/
def arrives (payload : Bytes) : Option Message := (receive payload).bind fromWire

/-- A message survives encoding and cut: no field contains the delimiter, and the encoding fits, or
only the delimiter before an empty value is cut. -/
def Fits (m : Message) : Prop :=
  m.DelimiterFree ∧
    (m.toWire.length ≤ bufferSize - 1 ∨ m.toWire.length = bufferSize ∧ m.value = [])

/-- Decidable, so that a message can be checked. -/
instance (m : Message) : Decidable (Fits m) :=
  inferInstanceAs (Decidable (_ ∧ (_ ∨ _ ∧ _)))

/-- The decoder rejects the empty string, so an empty datagram need not be told apart. -/
theorem arrives_eq (payload : Bytes) : arrives payload = fromWire (payload.take 2047) := by
  unfold arrives receive bufferSize
  dsimp only
  split_ifs with h
  · have hnil : payload = [] := by
      rw [← List.length_eq_zero_iff]
      omega
    rw [hnil]
    decide
  · rw [Option.bind_some]
    exact congrArg fromWire (List.take_eq_take_iff.mpr (by omega))

/-- The first part of an encoding, cut or not, is the label of the type. -/
theorem splitOn_take_toWire (m : Message) :
    ∃ rest, (m.toWire.take 2047).splitOn bar = messageTypeLabel m.type :: rest := by
  have hlen : (messageTypeLabel m.type).length < 2047 := by cases m.type <;> decide
  have hwire : m.toWire = messageTypeLabel m.type ++ bar :: (m.request_id ++ [bar] ++ m.origin ++
      [bar] ++ intToString m.ttl.toInt ++ [bar] ++ m.key ++ [bar] ++ m.value) := by
    simp [Message.toWire, List.append_assoc]
  obtain ⟨k, hk⟩ : ∃ k, 2047 - (messageTypeLabel m.type).length = k + 1 :=
    Nat.exists_eq_succ_of_ne_zero (by omega)
  rw [hwire, List.take_append, List.take_of_length_le hlen.le, hk, List.take_succ_cons,
    List.splitOn_append_cons_self_of_not_mem (bar_not_mem_messageTypeLabel m.type)]
  exact ⟨_, rfl⟩

/-- An encoding that arrives has the type of the message. -/
theorem type_of_arrives {m m' : Message} (h : arrives m.toWire = some m') : m'.type = m.type := by
  rw [arrives_eq] at h
  obtain ⟨type, request_id, origin, ttl, key, rest, hsplit, rfl⟩ := fromWire_eq_some_iff.mp h
  obtain ⟨parts, hparts⟩ := splitOn_take_toWire m
  rw [split_eq_splitOn, hparts] at hsplit
  obtain ⟨rfl, -⟩ := List.cons.inj hsplit
  exact parseType_messageTypeLabel m.type

/-- A message without a value whose last delimiter is cut off. -/
theorem fromWire_dropLast {m : Message} (h : m.DelimiterFree) (hvalue : m.value = []) :
    fromWire m.toWire.dropLast = some m := by
  obtain ⟨hid, horigin, hkey, -⟩ := h
  have hfree : ∀ l ∈ [messageTypeLabel m.type, m.request_id, m.origin, intToString m.ttl.toInt,
      m.key], bar ∉ l := by
    simp [bar_not_mem_messageTypeLabel, bar_not_mem_intToString, hid, horigin, hkey]
  have hwire : m.toWire = [bar].intercalate [messageTypeLabel m.type, m.request_id, m.origin,
      intToString m.ttl.toInt, m.key] ++ [bar] := by
    simp [Message.toWire, hvalue, List.append_assoc]
  have hsplit : split m.toWire.dropLast bar false = [messageTypeLabel m.type, m.request_id,
      m.origin, intToString m.ttl.toInt, m.key] := by
    rw [split_eq_splitOn, hwire, List.dropLast_concat]
    exact List.splitOn_intercalate bar hfree (List.cons_ne_nil _ _)
  rw [fromWire, hsplit]
  simp [parseType_messageTypeLabel, parseInt_intToString, ← hvalue]

/-- A message that fits arrives as it was sent. -/
theorem arrives_of_fits {m : Message} (h : Fits m) : arrives m.toWire = some m := by
  obtain ⟨hfree, hlen | ⟨hlen, hvalue⟩⟩ := h
  · -- Nothing is cut off.
    have hcut : m.toWire.take 2047 = m.toWire := List.take_of_length_le hlen
    rw [arrives_eq, hcut]
    exact fromWire_toWire hfree
  · -- Only the last delimiter is cut off.
    have hcut : m.toWire.take 2047 = m.toWire.dropLast := by
      rw [List.dropLast_eq_take, hlen]
      rfl
    rw [arrives_eq, hcut]
    exact fromWire_dropLast hfree hvalue

/-- What arrives of a message whose encoding is cut, when no field contains the delimiter: the value
is missing and the key may be shorter, or the key is there and the value is shorter. -/
theorem cut_of_arrives {m m' : Message} (hfree : m.DelimiterFree) (hlong : 2047 < m.toWire.length)
    (h : arrives m.toWire = some m') :
    (m'.value = [] ∧ ∃ rest, m.key = m'.key ++ rest ∧
      (rest = [] → m.toWire.length = 2048 + m.value.length)) ∨
    (m'.key = m.key ∧ ∃ rest, rest ≠ [] ∧ m.value = m'.value ++ rest) := by
  rw [arrives_eq] at h
  obtain ⟨type, request_id, origin, ttl, key, rest, hsplit, rfl⟩ := fromWire_eq_some_iff.mp h
  rw [split_eq_splitOn] at hsplit
  -- The encoding is the part received, and a rest that is not empty.
  have hrest : m.toWire.drop 2047 ≠ [] := by
    rw [Ne, List.drop_eq_nil_iff]
    omega
  have hwhole : m.toWire.splitOn bar = [messageTypeLabel m.type, m.request_id, m.origin,
      intToString m.ttl.toInt, m.key, m.value] := by
    rw [toWire_eq_intercalate]
    refine List.splitOn_intercalate bar ?_ (List.cons_ne_nil _ _)
    obtain ⟨hid, horigin, hkey, hvalue⟩ := hfree
    simp [bar_not_mem_messageTypeLabel, bar_not_mem_intToString, hid, horigin, hkey, hvalue]
  rw [← List.take_append_drop 2047 m.toWire, Delimited.splitOn_append] at hwhole
  obtain ⟨u, us, hu⟩ := List.exists_cons_of_ne_nil
    (List.splitOn_ne_nil bar (m.toWire.drop 2047))
  have hjoin : m.toWire.drop 2047 = [bar].intercalate (u :: us) := by
    rw [← hu, List.intercalate_splitOn]
  simp only [hsplit, hu, List.modifyHead_cons] at hwhole
  -- The parts received and the parts of the rest join to the six fields.
  rcases rest with - | ⟨value, - | ⟨extra, rest⟩⟩
  · -- The value was not received.
    have hparts : key ++ u = m.key ∧ us = [m.value] := by
      simp only [List.dropLast_cons_cons] at hwhole
      simp at hwhole
      exact hwhole.2.2.2.2
    obtain ⟨hkey, hus⟩ := hparts
    refine Or.inl ⟨rfl, u, hkey.symm, fun hu' => ?_⟩
    rw [hu', hus] at hjoin
    have hlength := congrArg List.length hjoin
    simp only [List.length_drop] at hlength
    simp at hlength
    omega
  · -- A part of the value was received.
    have hparts : key = m.key ∧ value ++ u = m.value ∧ us = [] := by
      simp at hwhole
      exact hwhole.2.2.2.2
    obtain ⟨hkey, hvalue, hus⟩ := hparts
    refine Or.inr ⟨hkey, u, fun hu' => hrest ?_, hvalue.symm⟩
    rw [hjoin, hu', hus]
    rfl
  · -- No more than six parts are sent.
    have hlength := congrArg List.length hwhole
    simp at hlength

/-- What arrives of a message without a delimiter in its fields: the type, the first two fields and
the hop limit are whole, and the key and the value may be cut. -/
theorem prefixes_of_arrives {m m' : Message} (hfree : m.DelimiterFree)
    (h : arrives m.toWire = some m') :
    m'.type = m.type ∧ m'.request_id = m.request_id ∧ m'.origin = m.origin ∧ m'.ttl = m.ttl ∧
      m'.key <+: m.key ∧ m'.value <+: m.value := by
  refine ⟨type_of_arrives h, ?_⟩
  rw [arrives_eq] at h
  obtain ⟨type, request_id, origin, ttl, key, rest, hsplit, rfl⟩ := fromWire_eq_some_iff.mp h
  rw [split_eq_splitOn] at hsplit
  have hwhole : m.toWire.splitOn bar = [messageTypeLabel m.type, m.request_id, m.origin,
      intToString m.ttl.toInt, m.key, m.value] := by
    rw [toWire_eq_intercalate]
    refine List.splitOn_intercalate bar ?_ (List.cons_ne_nil _ _)
    obtain ⟨hid, horigin, hkey, hvalue⟩ := hfree
    simp [bar_not_mem_messageTypeLabel, bar_not_mem_intToString, hid, horigin, hkey, hvalue]
  -- The parts received are those sent, up to the last one, which may be cut.
  obtain ⟨parts, last, u, us, hfront, hall⟩ :=
    Delimited.exists_splitOn_append bar (m.toWire.take 2047) (m.toWire.drop 2047)
  rw [List.take_append_drop, hwhole] at hall
  rw [hsplit] at hfront
  rcases parts with - | ⟨a, - | ⟨b, - | ⟨c, - | ⟨d, - | ⟨e, - | ⟨f, parts⟩⟩⟩⟩⟩⟩
  · simp at hfront
  · simp at hfront
  · simp at hfront
  · simp at hfront
  · -- The key was received last.
    simp only [List.cons_append, List.nil_append, List.cons.injEq] at hfront hall
    obtain ⟨rfl, rfl, rfl, rfl, rfl, rfl⟩ := hfront
    obtain ⟨-, hid, horigin, httl, hkey, -⟩ := hall
    refine ⟨hid.symm, horigin.symm, ?_, ⟨u, hkey.symm⟩, List.nil_prefix⟩
    rw [← httl]
    exact parseInt_intToString m.ttl 0
  · -- The value was received last.
    simp only [List.cons_append, List.nil_append, List.cons.injEq] at hfront hall
    obtain ⟨rfl, rfl, rfl, rfl, rfl, rfl⟩ := hfront
    obtain ⟨-, hid, horigin, httl, hkey, hvalue, -⟩ := hall
    refine ⟨hid.symm, horigin.symm, ?_, hkey ▸ List.prefix_refl _, ⟨u, hvalue.symm⟩⟩
    rw [← httl]
    exact parseInt_intToString m.ttl 0
  · -- No more than six parts are sent.
    have hlength := congrArg List.length hall
    simp at hlength

/-- A message that arrives as it was sent fits. -/
theorem fits_of_arrives {m : Message} (h : arrives m.toWire = some m) : Fits m := by
  have hfree : m.DelimiterFree := by
    rw [arrives_eq] at h
    exact delimiterFree_of_fromWire h
  refine ⟨hfree, ?_⟩
  by_contra hlong
  obtain ⟨hlong, hcut⟩ := not_or.mp hlong
  rcases cut_of_arrives hfree (not_le.mp hlong) h with ⟨hvalue, rest, hkey, hlength⟩ |
    ⟨-, rest, hne, hvalue⟩
  · -- The value is empty, and only its delimiter is missing.
    have hrest : rest = [] := List.append_right_eq_self.mp hkey.symm
    exact hcut ⟨by rw [hlength hrest, hvalue]; rfl, hvalue⟩
  · exact hne (List.append_right_eq_self.mp hvalue.symm)

/-- A front part with five delimiters fixes the key that arrives, whatever follows it. -/
theorem key_eq_of_five_bars {front rest₁ rest₂ : Bytes} {m₁ m₂ : Message}
    (hbars : 5 ≤ front.count bar) (h₁ : arrives (front ++ rest₁) = some m₁)
    (h₂ : arrives (front ++ rest₂) = some m₂) : m₁.key = m₂.key := by
  obtain ⟨fields, tail, rfl, hcount⟩ := Delimited.exists_cut_of_lt_count hbars
  rw [arrives_eq] at h₁ h₂
  have hassoc : ∀ rest, fields ++ bar :: tail ++ rest = fields ++ bar :: (tail ++ rest) := by simp
  rw [hassoc, List.take_append] at h₁ h₂
  cases hcut : 2047 - fields.length with
  | zero =>
    -- The cut is within the front part, so the same arrives.
    rw [hcut, List.take_zero] at h₁ h₂
    rw [Option.some.inj (h₁.symm.trans h₂)]
  | succ k =>
    -- The first five fields are received whole.
    rw [hcut, List.take_succ_cons, List.take_of_length_le (by omega)] at h₁ h₂
    obtain ⟨t₁, i₁, o₁, l₁, k₁, r₁, hsplit₁, rfl⟩ := fromWire_eq_some_iff.mp h₁
    obtain ⟨t₂, i₂, o₂, l₂, k₂, r₂, hsplit₂, rfl⟩ := fromWire_eq_some_iff.mp h₂
    rw [split_eq_splitOn, List.splitOn_append_cons_self] at hsplit₁ hsplit₂
    have hlength : (fields.splitOn bar).length = 5 := by rw [Delimited.length_splitOn, hcount]
    have hkey₁ : (fields.splitOn bar)[4]? = some k₁ := by
      rw [← List.getElem?_append_left (by omega), hsplit₁]
      rfl
    have hkey₂ : (fields.splitOn bar)[4]? = some k₂ := by
      rw [← List.getElem?_append_left (by omega), hsplit₂]
      rfl
    exact Option.some.inj (hkey₁.symm.trans hkey₂)

/-- The messages that survive encoding, cut and decoding. -/
theorem arrives_toWire_iff (m : Message) : arrives m.toWire = some m ↔ Fits m :=
  ⟨fits_of_arrives, arrives_of_fits⟩

/-- The length of an encoding: the six fields and five delimiters. -/
theorem length_toWire (m : Message) : m.toWire.length = (messageTypeLabel m.type).length +
    m.request_id.length + m.origin.length + (intToString m.ttl.toInt).length + m.key.length +
      m.value.length + 5 := by
  simp only [Message.toWire, List.length_append, List.length_singleton]
  omega

/-- A positive hop limit, as an integer. -/
theorem toInt_pos {ttl : Int32} (h : 0 < ttl) : 0 < ttl.toInt := by
  simpa [Int32.lt_iff_toInt_lt] using h

/-- A positive hop limit is counted down without overflow. -/
theorem toInt_sub_one {ttl : Int32} (h : 0 < ttl) : (ttl - 1).toInt = ttl.toInt - 1 := by
  rw [Int32.lt_iff_toInt_lt] at h
  rw [Int32.toInt_sub_of_le ttl 1 (by decide) (by rw [Int32.le_iff_toInt_le]; exact h)]
  rfl

/-- A positive hop limit below the one that a token denotes prints no longer than the token. -/
theorem length_intToString_le_of_parseInt {token : Bytes} {ttl : Int32}
    (h : parseInt token 0 = ttl) (hpos : 0 < ttl) :
    (intToString (ttl - 1).toInt).length ≤ token.length := by
  have hpos' : 0 < ttl.toInt := toInt_pos hpos
  unfold parseInt at h
  split_ifs at h with hempty
  · rw [← h] at hpos'
    exact absurd hpos' (by decide)
  · split at h
    · rw [← h] at hpos'
      exact absurd hpos' (by decide)
    · next value rest hstrtol =>
      split_ifs at h with hrest
      · rw [← h] at hpos'
        exact absurd hpos' (by decide)
      · obtain ⟨ds, hdigits, hne, hlength, hvalue⟩ := digits_of_strtol hstrtol
        -- Narrowing to a positive `int` does not make the magnitude larger.
        have hnarrow : ttl.toInt.natAbs ≤ value.natAbs := by
          rw [← h, Int32.toInt_ofInt] at hpos' ⊢
          simp only [Int.bmod, Int32.size] at hpos' ⊢
          omega
        have hbelow : (ttl - 1).toInt = ttl.toInt - 1 := toInt_sub_one hpos
        have hprint : intToString (ttl - 1).toInt = natToString (ttl - 1).toInt.natAbs := by
          rw [intToString, if_neg (by omega)]
        rw [hprint]
        exact le_trans (length_natToString_le hdigits hne (by omega)) hlength

/-- The label of a type that a node relays is the token that was received. -/
theorem messageTypeLabel_parseType {token : Bytes}
    (h : parseType token = .request ∨ parseType token = .queryBloom) :
    messageTypeLabel (parseType token) = token := by
  unfold parseType at h ⊢
  split_ifs at h ⊢ with hreq hdata hcbf hqbf
  · exact hreq.symm
  · simp at h
  · simp at h
  · exact hqbf.symm
  · simp at h

/-- A relayed request or Query-BF arrives as it was sent. -/
theorem arrives_relay {payload : Bytes} {m : Message} (h : arrives payload = some m)
    (htype : m.type = .request ∨ m.type = .queryBloom) (hpos : 0 < m.ttl) :
    arrives ({ m with ttl := m.ttl - 1 } : Message).toWire = some { m with ttl := m.ttl - 1 } := by
  rw [arrives_eq] at h
  have hfree : m.DelimiterFree := delimiterFree_of_fromWire h
  have hreceived : (payload.take 2047).length ≤ 2047 := List.length_take_le _ _
  obtain ⟨type, request_id, origin, ttl, key, rest, hsplit, rfl⟩ := fromWire_eq_some_iff.mp h
  rw [split_eq_splitOn] at hsplit
  have hlabel : messageTypeLabel (parseType type) = type := messageTypeLabel_parseType htype
  have hprint := length_intToString_le_of_parseInt rfl hpos
  have hjoin : payload.take 2047 = [bar].intercalate (type :: request_id :: origin :: ttl :: key ::
      rest) := by rw [← hsplit, List.intercalate_splitOn]
  -- Every field prints no longer than the part it was read from.
  refine arrives_of_fits ⟨hfree.withTtl _, ?_⟩
  rw [hjoin] at hreceived
  simp only [length_toWire, hlabel, bufferSize]
  cases rest with
  | nil =>
    -- Five parts were received, and six are sent, the last of them empty.
    have hlength : type.length + request_id.length + origin.length + ttl.length + key.length + 4 ≤
        2047 := le_trans (le_of_eq (by simp; omega)) hreceived
    simp only [List.headD_nil, List.length_nil, and_true]
    omega
  | cons value rest =>
    have hvalue : value.length ≤ ([bar].intercalate (value :: rest)).length := by
      cases rest <;> simp
    have hlength : type.length + request_id.length + origin.length + ttl.length + key.length +
        ([bar].intercalate (value :: rest)).length + 5 ≤ 2047 :=
      le_trans (le_of_eq (by simp; omega)) hreceived
    simp only [List.headD_cons]
    omega

end UdpTransport

end Netos
