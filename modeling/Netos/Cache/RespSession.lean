import Netos.Cache.RedisClient
import Netos.Lib.Machine
import Netos.Lib.Resp

/-!
# A session with Redis

`set` and `get` of `cache/redis_client.cpp` down to the system calls, by one thread on an open
socket, against a server that decodes what arrives and answers every command at once. A `send` or
`recv` transfers at least one byte and at most as many as asked for, or fails; which, is an argument
of the call, so that what is proved for every argument holds for every fragmentation.

A call that neither fails nor waits for ever leaves the session as it found it: nothing is left of
its command at the server, nor of its reply at the client (`call_of_reliable`).
`session_refines_map` says that a whole session is then one with a map. A call that fails in between
leaves a part of its command or its reply behind, and later calls read it (`stale_reply`); one that
fails before it has sent a byte does not (`later_gets_of_guarded`).
-/

namespace Netos.RespSession

open CString Incremental RedisClient Resp

/-! ## The server -/

/-- The two ends of the connection. -/
structure Session where
  /-- The values that Redis holds. -/
  store : Store
  /-- What the server received and has not decoded. -/
  buffer : Bytes := []
  /-- What the server sent and the client has not read. -/
  incoming : Bytes := []
  /-- Ghost: the commands that the server decoded. -/
  decoded : List (List Bytes) := []

/-- The commands that the server knows. -/
def commandOf : List Bytes → Option Command
  | [name, key, value] => if name = ascii "SET" then some (.set key value) else none
  | [name, key] => if name = ascii "GET" then some (.get key) else none
  | _ => none

/-- The server executes a command, or says that it does not know it. -/
def reply (store : Store) (args : List Bytes) : Store × RespValue :=
  match commandOf args with
  | some command => command.execute store
  | none => (store, ⟨minus, ascii "ERR unknown command", false⟩)

/-- A reply as it is sent. -/
def encodeReply (resp : RespValue) : Bytes :=
  if resp.type = dollar then
    if resp.is_null then ascii "$-1" ++ crlf else encodeBulk resp.payload
  else resp.type :: resp.payload ++ crlf

/-- The server answers the commands in its buffer. It waits for the rest of an incomplete one, and
does not answer a malformed one. -/
def serve : ℕ → Session → Session
  | 0, s => s
  | fuel + 1, s =>
    match Resp.command s.buffer with
    | .done args rest =>
      let (store, resp) := reply s.store args
      serve fuel ⟨store, rest, s.incoming ++ encodeReply resp, s.decoded ++ [args]⟩
    | .incomplete => s
    | .malformed => s

/-- The server receives bytes. -/
def Session.receive (s : Session) (bytes : Bytes) : Session :=
  let s := { s with buffer := s.buffer ++ bytes }
  serve s.buffer.length s

/-! ## System calls -/

/-- The outcomes of the system calls of a call, in their order: the text of an error, or how many
bytes to transfer. -/
abbrev Sys := ℕ → Except Bytes ℕ

/-- How many bytes are transferred when `requested` are asked for. -/
def transferred (wanted requested : ℕ) : ℕ := max 1 (min wanted requested)

/-- How a function ends, with the number of system calls made so far. -/
inductive Outcome (α : Type) where
  /-- It succeeds. -/
  | returned (value : α) (calls : ℕ) (s : Session)
  /-- It fails with an error text. -/
  | failed (error : Bytes) (s : Session)
  /-- It waits for bytes that do not come. -/
  | blocked

/-- `recv`, for at least one byte. -/
def recv (sys : Sys) (calls : ℕ) (s : Session) (requested : ℕ) : Outcome Bytes :=
  match sys calls with
  | .error error => .failed error s
  | .ok wanted =>
    if s.incoming = [] then .blocked
    else
      let n := transferred wanted (min requested s.incoming.length)
      .returned (s.incoming.take n) (calls + 1) { s with incoming := s.incoming.drop n }

/-! ## The client -/

/-- The loop of `send_command` over the payload; every round sends a byte or more, so it makes no
more rounds than there are bytes. -/
def sendLoop (sys : Sys) : (fuel : ℕ) → (calls : ℕ) → Session → Bytes → Outcome Unit
  | fuel, calls, s, payload =>
    if payload = [] then .returned () calls s
    else
      match fuel with
      | 0 => .blocked
      | fuel + 1 =>
        match sys calls with
        | .error error => .failed (ascii "send() failed: " ++ error) s
        | .ok wanted =>
          let n := transferred wanted payload.length
          sendLoop sys fuel (calls + 1) (s.receive (payload.take n)) (payload.drop n)

/-- `send_command`. -/
def sendCommand (sys : Sys) (calls : ℕ) (s : Session) (args : List Bytes) : Outcome Unit :=
  let payload := ascii "*" ++ natToString args.length ++ ascii "\r\n" ++
    args.flatMap fun arg =>
      ascii "$" ++ natToString arg.length ++ ascii "\r\n" ++ arg ++ ascii "\r\n"
  sendLoop sys payload.length calls s payload

/-- `read_line`; every round reads a byte. -/
def readLine (sys : Sys) : (fuel : ℕ) → (calls : ℕ) → Session → (out : Bytes) → Outcome Bytes
  | 0, _, _, _ => .blocked
  | fuel + 1, calls, s, out =>
    match recv sys calls s 1 with
    | .blocked => .blocked
    | .failed error s => .failed (ascii "recv() failed: " ++ error) s
    | .returned ch calls s =>
      if ch = [cr] then
        match recv sys calls s 1 with
        | .blocked => .blocked
        | .failed _ s => .failed (ascii "invalid line ending") s
        | .returned next calls s =>
          if next ≠ [lf] then .failed (ascii "invalid line ending") s else .returned out calls s
      else readLine sys fuel calls s (out ++ ch)

/-- `read_exact`, in chunks of at most 256 bytes; every round reads a byte or more. -/
def readExact (sys : Sys) (len : ℕ) : (fuel : ℕ) → (calls : ℕ) → Session → (out : Bytes) →
    Outcome Bytes
  | fuel, calls, s, out =>
    if out.length < len then
      match fuel with
      | 0 => .blocked
      | fuel + 1 =>
        let remaining := len - out.length
        let chunk := if remaining < 256 then remaining else 256
        match recv sys calls s chunk with
        | .blocked => .blocked
        | .failed error s => .failed (ascii "recv() failed: " ++ error) s
        | .returned bytes calls s => readExact sys len fuel calls s (out ++ bytes)
    else .returned out calls s

/-- `std::stoi`: the numeral at the front, if it is in the range of `int`. -/
def stoi (s : Bytes) : Option ℤ :=
  match strtol s with
  | none => none
  | some (value, _) => if -2 ^ 31 ≤ value ∧ value < 2 ^ 31 then some value else none

/-- `read_resp`. -/
def readResp (sys : Sys) (calls : ℕ) (s : Session) : Outcome RespValue :=
  match readLine sys (s.incoming.length + 1) calls s [] with
  | .blocked => .blocked
  | .failed error s => .failed error s
  | .returned line calls s =>
    match line with
    | [] => .failed (ascii "empty response") s
    | type :: payload =>
      if type = dollar then
        match stoi payload with
        | none => .failed (ascii "invalid bulk length") s
        | some len =>
          if len < 0 then .returned ⟨type, [], true⟩ calls s
          else
            match readExact sys (len.toNat + 2) (len.toNat + 2) calls s [] with
            | .blocked => .blocked
            | .failed error s => .failed error s
            | .returned bulk calls s =>
              .returned ⟨type, if bulk.length ≥ 2 then bulk.take (bulk.length - 2) else [], false⟩
                calls s
      else .returned ⟨type, payload, false⟩ calls s

/-- The arguments of a command. -/
def args : Command → List Bytes
  | .set key value => [ascii "SET", key, value]
  | .get key => [ascii "GET", key]

/-- What a call makes of the reply; a `set` that succeeds returns no value. -/
def result : Command → Except Bytes RespValue → Except Bytes (Option Bytes)
  | .set _ _, resp => (setResult resp).map fun _ => none
  | .get _, resp => getResult resp

/-- `set` or `get`: what it returns, and the session after it; nothing when it never returns. -/
def call (sys : Sys) (s : Session) (command : Command) :
    Option (Except Bytes (Option Bytes) × Session) :=
  match sendCommand sys 0 s (args command) with
  | .blocked => none
  | .failed error s => some (result command (.error error), s)
  | .returned _ calls s =>
    match readResp sys calls s with
    | .blocked => none
    | .failed error s => some (result command (.error error), s)
    | .returned resp _ s => some (result command (.ok resp), s)

/-! ## The server's end -/

/-- The server waits for the rest of a command. -/
theorem receive_part {s : Session} {list : List Bytes} {chunk rest : Bytes}
    (h : encodeCommand list = s.buffer ++ chunk ++ rest) (hne : rest ≠ []) :
    s.receive chunk = { s with buffer := s.buffer ++ chunk } := by
  have hwait : Resp.command (s.buffer ++ chunk) = .incomplete :=
    (takes_command list).wait _ rest h hne
  unfold Session.receive
  dsimp only
  cases (s.buffer ++ chunk).length with
  | zero => rfl
  | succ fuel => rw [serve, hwait]

/-- The server answers a command when its last bytes arrive. -/
theorem receive_last {s : Session} {list : List Bytes} {chunk : Bytes}
    (h : encodeCommand list = s.buffer ++ chunk) :
    s.receive chunk = ⟨(reply s.store list).1, [],
      s.incoming ++ encodeReply (reply s.store list).2, s.decoded ++ [list]⟩ := by
  have hdone : Resp.command (s.buffer ++ chunk) = .done list [] := by
    have hwhole := (takes_command list).whole []
    rwa [List.append_nil, h] at hwhole
  have hpos : (s.buffer ++ chunk).length ≠ 0 := by
    rw [← h]
    simp [encodeCommand, encodeHeader]
  obtain ⟨fuel, hfuel⟩ := Nat.exists_eq_succ_of_ne_zero hpos
  have hempty : ∀ s' : Session, s'.buffer = [] → serve fuel s' = s' := by
    intro s' hs'
    cases fuel with
    | zero => rfl
    | succ fuel =>
      have hwait : Resp.command [] = .incomplete := rfl
      rw [serve, hs', hwait]
  unfold Session.receive
  dsimp only
  rw [hfuel, serve, hdone]
  exact hempty _ rfl

/-! ## The client's end -/

/-- No system call fails. -/
def Reliable (sys : Sys) : Prop := ∀ i, ∃ wanted, sys i = .ok wanted

/-- At least one byte is transferred, and no more than asked for. -/
theorem transferred_bounds (wanted : ℕ) {requested : ℕ} (h : 1 ≤ requested) :
    1 ≤ transferred wanted requested ∧ transferred wanted requested ≤ requested := by
  unfold transferred
  omega

/-- A `recv` that does not fail reads a byte or more of what is there. -/
theorem recv_of_reliable {sys : Sys} (h : Reliable sys) (calls : ℕ) {s : Session}
    (hne : s.incoming ≠ []) {requested : ℕ} (hreq : 1 ≤ requested) :
    ∃ n, 1 ≤ n ∧ n ≤ requested ∧ n ≤ s.incoming.length ∧ recv sys calls s requested =
      .returned (s.incoming.take n) (calls + 1) { s with incoming := s.incoming.drop n } := by
  obtain ⟨wanted, hwanted⟩ := h calls
  have hpos : 0 < s.incoming.length := List.length_pos_iff.mpr hne
  obtain ⟨hlow, hhigh⟩ := transferred_bounds wanted
    (show 1 ≤ min requested s.incoming.length by omega)
  refine ⟨_, hlow, by omega, by omega, ?_⟩
  simp only [recv, hwanted, if_neg hne]

/-- A `recv` of one byte reads the next byte. -/
theorem recv_one {sys : Sys} (h : Reliable sys) (calls : ℕ) {s : Session} {c : UInt8}
    {rest : Bytes} (hincoming : s.incoming = c :: rest) :
    recv sys calls s 1 = .returned [c] (calls + 1) { s with incoming := rest } := by
  obtain ⟨n, hlow, hhigh, -, hrecv⟩ :=
    recv_of_reliable h calls (s := s) (by simp [hincoming]) le_rfl
  obtain rfl : n = 1 := by omega
  rw [hrecv, hincoming]
  rfl

/-- The loop of `send_command` sends the rest of a command, which the server then answers. -/
theorem sendLoop_of_reliable {sys : Sys} (h : Reliable sys) (list : List Bytes) (fuel calls : ℕ)
    (s : Session) (payload : Bytes) (hpayload : encodeCommand list = s.buffer ++ payload)
    (hne : payload ≠ []) (hfuel : payload.length ≤ fuel) :
    ∃ calls', sendLoop sys fuel calls s payload = .returned () calls'
      ⟨(reply s.store list).1, [], s.incoming ++ encodeReply (reply s.store list).2,
        s.decoded ++ [list]⟩ := by
  have hpos : 0 < payload.length := List.length_pos_iff.mpr hne
  induction fuel generalizing calls s payload with
  | zero => omega
  | succ fuel ih =>
    obtain ⟨wanted, hwanted⟩ := h calls
    obtain ⟨hlow, hhigh⟩ := transferred_bounds wanted (show 1 ≤ payload.length by omega)
    set n := transferred wanted payload.length with hn
    have hsplit : payload.take n ++ payload.drop n = payload := List.take_append_drop n payload
    rw [sendLoop, if_neg hne]
    simp only [hwanted, ← hn]
    by_cases hrest : payload.drop n = []
    · -- The last bytes are sent here.
      rw [hrest, List.append_nil] at hsplit
      rw [hrest, hsplit, receive_last hpayload]
      unfold sendLoop
      exact ⟨calls + 1, if_pos rfl⟩
    · have hpart : encodeCommand list = s.buffer ++ payload.take n ++ payload.drop n := by
        rw [List.append_assoc, hsplit, hpayload]
      rw [receive_part hpart hrest]
      have hlength : (payload.drop n).length = payload.length - n := List.length_drop
      exact ih (calls + 1) _ _ hpart hrest (by omega) (List.length_pos_iff.mpr hrest)

/-- The payload of `send_command` is the command in the protocol. -/
theorem sendCommand_of_reliable {sys : Sys} (h : Reliable sys) (s : Session) (list : List Bytes)
    (hbuffer : s.buffer = []) :
    ∃ calls, sendCommand sys 0 s list = .returned () calls
      ⟨(reply s.store list).1, [], s.incoming ++ encodeReply (reply s.store list).2,
        s.decoded ++ [list]⟩ := by
  have hpayload : ascii "*" ++ natToString list.length ++ ascii "\r\n" ++
      list.flatMap (fun arg => ascii "$" ++ natToString arg.length ++ ascii "\r\n" ++ arg ++
        ascii "\r\n") = encodeCommand list := by
    have hstar : ascii "*" = [star] := by decide
    have hdollar : ascii "$" = [Resp.dollar] := by decide
    have hcrlf : ascii "\r\n" = crlf := by decide
    have hbulk : (fun arg : Bytes => ascii "$" ++ natToString arg.length ++ ascii "\r\n" ++ arg ++
        ascii "\r\n") = encodeBulk := by
      funext arg
      simp [hdollar, hcrlf, encodeBulk, encodeHeader]
    rw [hbulk, hstar, hcrlf]
    simp [encodeCommand, encodeHeader]
  have hne : encodeCommand list ≠ [] := by simp [encodeCommand, encodeHeader]
  unfold sendCommand
  dsimp only
  rw [hpayload]
  exact sendLoop_of_reliable h list _ 0 s _ (by rw [hbuffer, List.nil_append]) hne le_rfl

/-- `read_line` reads the text of a line and its end. -/
theorem readLine_of_reliable {sys : Sys} (h : Reliable sys) (text tail : Bytes) (hcr : cr ∉ text)
    (fuel calls : ℕ) (s : Session) (out : Bytes) (hincoming : s.incoming = text ++ crlf ++ tail)
    (hfuel : text.length < fuel) :
    ∃ calls', readLine sys fuel calls s out =
      .returned (out ++ text) calls' { s with incoming := tail } := by
  induction text generalizing fuel calls s out with
  | nil =>
    obtain ⟨fuel, rfl⟩ := Nat.exists_eq_succ_of_ne_zero (Nat.ne_of_gt hfuel)
    have hfirst : recv sys calls s 1 = .returned [cr] (calls + 1)
        { s with incoming := lf :: tail } := recv_one h calls hincoming
    have hsecond : recv sys (calls + 1) { s with incoming := lf :: tail } 1 =
        .returned [lf] (calls + 1 + 1) { s with incoming := tail } := recv_one h (calls + 1) rfl
    exact ⟨calls + 1 + 1, by simp [readLine, hfirst, hsecond]⟩
  | cons c text ih =>
    obtain ⟨fuel, rfl⟩ := Nat.exists_eq_succ_of_ne_zero (Nat.ne_of_gt (Nat.zero_lt_of_lt hfuel))
    obtain ⟨hc, htext⟩ := not_or.mp (List.mem_cons.not.mp hcr)
    have hfirst : recv sys calls s 1 = .returned [c] (calls + 1)
        { s with incoming := text ++ crlf ++ tail } := recv_one h calls hincoming
    have hne : [c] ≠ [cr] := fun e => hc (List.cons.inj e).1.symm
    rw [readLine]
    simp only [hfirst, if_neg hne]
    have hrest := ih htext fuel (calls + 1) { s with incoming := text ++ crlf ++ tail } (out ++ [c])
      rfl (Nat.lt_of_succ_lt_succ hfuel)
    rwa [List.append_assoc out, List.singleton_append] at hrest

/-- `read_exact` reads the bytes that it is asked for, in whatever chunks they come. -/
theorem readExact_of_reliable {sys : Sys} (h : Reliable sys) (len : ℕ) (tail : Bytes)
    (fuel calls : ℕ) (s : Session) (out bytes : Bytes) (hincoming : s.incoming = bytes ++ tail)
    (hlen : out.length + bytes.length = len) (hfuel : bytes.length ≤ fuel) :
    ∃ calls', readExact sys len fuel calls s out =
      .returned (out ++ bytes) calls' { s with incoming := tail } := by
  induction fuel generalizing calls s out bytes with
  | zero =>
    obtain rfl : bytes = [] := List.length_eq_zero_iff.mp (Nat.le_zero.mp hfuel)
    have hdone : ¬ out.length < len := by simpa using Nat.le_of_eq hlen.symm
    obtain rfl : s.incoming = tail := hincoming
    exact ⟨calls, by rw [readExact, if_neg hdone, List.append_nil]⟩
  | succ fuel ih =>
    rw [readExact]
    split_ifs with hmore
    · -- A chunk is read, of what belongs to the bytes.
      have hrequest : 1 ≤ (if len - out.length < 256 then len - out.length else 256) ∧
          (if len - out.length < 256 then len - out.length else 256) ≤ bytes.length := by
        split_ifs <;> omega
      have hne : s.incoming ≠ [] := by
        rw [hincoming]
        exact List.append_ne_nil_of_left_ne_nil (List.length_pos_iff.mp (by omega)) _
      obtain ⟨n, hlow, hhigh, -, hrecv⟩ := recv_of_reliable h calls hne hrequest.1
      have hn : n ≤ bytes.length := le_trans hhigh hrequest.2
      simp only [hrecv]
      have htake : s.incoming.take n = bytes.take n := by
        rw [hincoming, List.take_append_of_le_length hn]
      have hdrop : s.incoming.drop n = bytes.drop n ++ tail := by
        rw [hincoming, List.drop_append_of_le_length hn]
      rw [htake, hdrop]
      have hrest := ih (calls + 1) { s with incoming := bytes.drop n ++ tail }
        (out ++ bytes.take n) (bytes.drop n) rfl (by simp; omega) (by simp; omega)
      rwa [List.append_assoc, List.take_append_drop] at hrest
    · obtain rfl : bytes = [] := List.length_eq_zero_iff.mp (by omega)
      obtain rfl : s.incoming = tail := hincoming
      exact ⟨calls, by rw [List.append_nil]⟩

/-! ## Replies -/

/-- A status line is read back. -/
theorem readResp_status {sys : Sys} (h : Reliable sys) (calls : ℕ) {s : Session} {type : UInt8}
    {text : Bytes} (htype : type ≠ dollar) (hcr : cr ∉ type :: text)
    (hincoming : s.incoming = encodeReply ⟨type, text, false⟩) :
    ∃ calls', readResp sys calls s =
      .returned ⟨type, text, false⟩ calls' { s with incoming := [] } := by
  have hline : s.incoming = (type :: text) ++ crlf ++ [] := by
    rw [hincoming, encodeReply, if_neg htype, List.append_nil]
  obtain ⟨calls', hread⟩ := readLine_of_reliable h (type :: text) [] hcr (s.incoming.length + 1)
    calls s [] hline (by rw [hline]; simp)
  exact ⟨calls', by simp only [readResp, hread, List.nil_append, if_neg htype]⟩

/-- The reply for a missing key is read back. -/
theorem readResp_null {sys : Sys} (h : Reliable sys) (calls : ℕ) {s : Session}
    (hincoming : s.incoming = encodeReply ⟨dollar, [], true⟩) :
    ∃ calls', readResp sys calls s =
      .returned ⟨dollar, [], true⟩ calls' { s with incoming := [] } := by
  have hstoi : stoi (ascii "-1") = some (-1) := by decide
  have hline : s.incoming = (dollar :: ascii "-1") ++ crlf ++ [] := hincoming
  obtain ⟨calls', hread⟩ := readLine_of_reliable h (dollar :: ascii "-1") [] (by decide)
    (s.incoming.length + 1) calls s [] hline (by rw [hline]; simp)
  refine ⟨calls', ?_⟩
  simp only [readResp, hread, List.nil_append, if_true, hstoi]
  rfl

/-- A printed length is read back. -/
theorem stoi_natToString {n : ℕ} (h : n < 2 ^ 31) : stoi (natToString n) = some (n : ℤ) := by
  have hprint : natToString n = intToString n := by
    rw [intToString, if_neg (by omega), Int.natAbs_natCast]
  rw [stoi, hprint, strtol_intToString (by omega) (by omega)]
  exact if_pos (by omega)

/-- A bulk string is read back. -/
theorem readResp_bulk {sys : Sys} (h : Reliable sys) (calls : ℕ) {s : Session} {value : Bytes}
    (hlength : value.length < 2 ^ 31)
    (hincoming : s.incoming = encodeReply ⟨dollar, value, false⟩) :
    ∃ calls', readResp sys calls s =
      .returned ⟨dollar, value, false⟩ calls' { s with incoming := [] } := by
  have hline : s.incoming = (dollar :: natToString value.length) ++ crlf ++ (value ++ crlf) := by
    rw [hincoming]
    simp [encodeReply, encodeBulk, encodeHeader]
  have hcr : cr ∉ dollar :: natToString value.length :=
    List.mem_cons.not.mpr (not_or.mpr ⟨by decide, cr_not_mem_natToString _⟩)
  have hfuel : (dollar :: natToString value.length).length < s.incoming.length + 1 := by
    rw [hline, List.length_append, List.length_append]
    omega
  obtain ⟨calls₁, hread⟩ := readLine_of_reliable h _ (value ++ crlf) hcr
    (s.incoming.length + 1) calls s [] hline hfuel
  obtain ⟨calls₂, hexact⟩ := readExact_of_reliable h (value.length + 2) [] (value.length + 2)
    calls₁ { s with incoming := value ++ crlf } [] (value ++ crlf) (by simp) (by simp) (by simp)
  have hnonneg : ¬ (value.length : ℤ) < 0 := by omega
  have htake : (if (value ++ crlf).length ≥ 2 then
      (value ++ crlf).take ((value ++ crlf).length - 2) else []) = value := by
    have htwo : (value ++ crlf).length = value.length + 2 := by simp
    rw [htwo, if_pos (by omega), Nat.add_sub_cancel, List.take_left]
  refine ⟨calls₂, ?_⟩
  simp only [readResp, hread, List.nil_append, if_true, stoi_natToString hlength, if_neg hnonneg,
    Int.toNat_natCast, hexact, htake]

/-- The values that a store holds are as short as Redis allows. -/
def Short (store : Store) : Prop := ∀ key value, store key = some value → value.length < 2 ^ 31

/-- The reply to a command is read back. -/
theorem readResp_of_execute {sys : Sys} (h : Reliable sys) (calls : ℕ) {s : Session}
    {store : Store} (hshort : Short store) (command : Command)
    (hincoming : s.incoming = encodeReply (command.execute store).2) :
    ∃ calls', readResp sys calls s =
      .returned (command.execute store).2 calls' { s with incoming := [] } := by
  cases command with
  | set key value =>
    exact readResp_status h calls (show (43 : UInt8) ≠ dollar by decide) (by decide) hincoming
  | get key =>
    cases hvalue : store key with
    | none =>
      simp only [Command.execute, hvalue] at hincoming ⊢
      exact readResp_null h calls hincoming
    | some value =>
      simp only [Command.execute, hvalue] at hincoming ⊢
      exact readResp_bulk h calls (hshort key value hvalue) hincoming

/-! ## Calls -/

/-- Nothing is underway on the connection. -/
def Quiet (s : Session) : Prop := s.buffer = [] ∧ s.incoming = []

/-- The server decodes the command that was sent. -/
theorem reply_args (store : Store) (command : Command) :
    reply store (args command) = command.execute store := by
  cases command with
  | set key value => rfl
  | get key => rfl

/-- A call without a failing system call: the server executes its command, it reads its reply, and
nothing is left. -/
theorem call_of_reliable {sys : Sys} (h : Reliable sys) {s : Session} (hquiet : Quiet s)
    (hshort : Short s.store) (command : Command) :
    call sys s command = some (result command (.ok (command.execute s.store).2),
      ⟨(command.execute s.store).1, [], [], s.decoded ++ [args command]⟩) := by
  obtain ⟨hbuffer, hincoming⟩ := hquiet
  obtain ⟨calls, hsend⟩ := sendCommand_of_reliable h s (args command) hbuffer
  rw [reply_args, hincoming, List.nil_append] at hsend
  obtain ⟨calls', hread⟩ := readResp_of_execute h calls hshort command
    (s := ⟨(command.execute s.store).1, [], encodeReply (command.execute s.store).2,
      s.decoded ++ [args command]⟩) rfl
  simp only [call, hsend, hread]

/-- A call whose first `send` fails returns an error and changes nothing. -/
theorem call_of_error {sys : Sys} {error : Bytes} (h : sys 0 = .error error) (s : Session)
    (command : Command) :
    call sys s command =
      some (result command (.error (ascii "send() failed: " ++ error)), s) := by
  have hsend : sendCommand sys 0 s (args command) =
      .failed (ascii "send() failed: " ++ error) s := by
    unfold sendCommand
    simp [sendLoop, h, show ascii "*" = [star] by decide]
  simp only [call, hsend]

/-- A command keeps the store short, when its arguments are. -/
theorem Short.execute {store : Store} (h : Short store) {command : Command}
    (hargs : ∀ arg ∈ args command, arg.length < 2 ^ 31) : Short (command.execute store).1 := by
  cases command with
  | set key value =>
    intro k v hv
    simp only [Command.execute, Function.update_apply] at hv
    split_ifs at hv with hk
    · rw [← Option.some.inj hv]
      exact hargs value (by simp [args])
    · exact h k v hv
  | get key => exact h

/-! ## Sessions -/

/-- A call, with the outcomes of its system calls. -/
structure Action where
  /-- The command. -/
  command : Command
  /-- The outcomes. -/
  sys : Sys

/-- A call that has returned. -/
structure Returned where
  /-- The command. -/
  command : Command
  /-- What the call returned. -/
  result : Except Bytes (Option Bytes)
  /-- What Redis held when it returned. -/
  store : Store

/-- The session of a thread, with its calls. -/
structure State where
  /-- The session. -/
  session : Session
  /-- The calls that have returned, in their order. -/
  returned : List Returned := []

/-- The thread makes a call; it makes no further one when this one never returns. -/
def step (s : State) (a : Action) : Option State :=
  (call a.sys s.session a.command).map fun (result, session) =>
    ⟨session, s.returned ++ [⟨a.command, result, session.store⟩]⟩

/-- A new connection to a Redis that holds some values. -/
def init (store : Store) : State := ⟨{ store }, []⟩

/-- The arguments of a command are as short as Redis allows. -/
def ShortArgs (command : Command) : Prop := ∀ arg ∈ args command, arg.length < 2 ^ 31

/-- The value that was last set for a key. -/
def lastSet (key : Bytes) (commands : List Command) : Option Bytes :=
  commands.foldl (fun last command =>
    match command with
    | .set k value => if key = k then some value else last
    | .get _ => last) none

/-- What a map returns for commands, after those in `past`: nothing for a `set`, and the value that
was last set for a `get`. -/
def mapResults : (past : List Command) → List Command → List (Except Bytes (Option Bytes))
  | _, [] => []
  | past, .set key value :: commands =>
    .ok none :: mapResults (past ++ [.set key value]) commands
  | past, .get key :: commands => .ok (lastSet key past) :: mapResults (past ++ [.get key]) commands

/-- Redis holds what was last set. -/
theorem execute_lastSet (past : List Command) (command : Command) :
    (command.execute fun key => lastSet key past).1 =
      fun key => lastSet key (past ++ [command]) := by
  funext key
  simp only [lastSet, List.foldl_append, List.foldl_cons, List.foldl_nil]
  cases command with
  | set k value => simp only [Command.execute, Function.update_apply]
  | get k => rfl

/-- What a call returns for the reply to its command. -/
theorem result_execute (past : List Command) (command : Command) (commands : List Command) :
    mapResults past (command :: commands) =
      result command (.ok (command.execute fun key => lastSet key past).2) ::
        mapResults (past ++ [command]) commands := by
  cases command with
  | set key value => rfl
  | get key =>
    rw [mapResults]
    congr 1
    cases hlast : lastSet key past <;> simp [result, getResult, Command.execute, hlast]

/-- A run of calls on a connection on which nothing is underway. -/
theorem run_of_reliable (actions : List Action) (past : List Command) (s : State)
    (hstore : s.session.store = fun key => lastSet key past) (hquiet : Quiet s.session)
    (hshort : Short s.session.store)
    (hactions : ∀ a ∈ actions, Reliable a.sys ∧ ShortArgs a.command) :
    ∃ s', Machine.run step s actions = some s' ∧ Quiet s'.session ∧
      s'.session.decoded = s.session.decoded ++ actions.map (fun a => args a.command) ∧
      s'.returned.map Returned.result =
        s.returned.map Returned.result ++ mapResults past (actions.map Action.command) := by
  induction actions generalizing past s with
  | nil => exact ⟨s, rfl, hquiet, by simp, by simp [mapResults]⟩
  | cons a actions ih =>
    obtain ⟨⟨hreliable, hargs⟩, hrest⟩ := List.forall_mem_cons.mp hactions
    have hcall := call_of_reliable hreliable hquiet hshort a.command
    have hstore' : (a.command.execute s.session.store).1 =
        fun key => lastSet key (past ++ [a.command]) := by rw [hstore, execute_lastSet]
    obtain ⟨s', hrun, hquiet', hdecoded, hreturned⟩ := ih (past ++ [a.command])
      ⟨⟨(a.command.execute s.session.store).1, [], [], s.session.decoded ++ [args a.command]⟩,
        s.returned ++ [⟨a.command, result a.command (.ok (a.command.execute s.session.store).2),
          (a.command.execute s.session.store).1⟩]⟩ hstore' ⟨rfl, rfl⟩ (hshort.execute hargs) hrest
    refine ⟨s', ?_, hquiet', ?_, ?_⟩
    · rw [Machine.run_cons, step, hcall, Option.map_some]
      exact hrun
    · rw [hdecoded]
      simp
    · rw [hreturned, List.map_cons, result_execute, ← hstore]
      simp

/-- A session with Redis is one with a map. For every sequence of calls of `set` and `get` whose
arguments are shorter than `2^31` bytes, with any bytes in them, and for every fragmentation of what
is sent and received without a failure: every call returns, the server has decoded exactly the
commands with their arguments, nothing is left of any command or reply, and what the calls returned
is what a map returns, which for a `get` is the value last set for the key, if there is one. -/
theorem session_refines_map (actions : List Action)
    (hreliable : ∀ a ∈ actions, Reliable a.sys) (hshort : ∀ a ∈ actions, ShortArgs a.command) :
    ∃ s, Machine.run step (init fun _ => none) actions = some s ∧
      s.session.buffer = [] ∧ s.session.incoming = [] ∧
      s.session.decoded = actions.map (fun a => args a.command) ∧
      s.returned.map Returned.result = mapResults [] (actions.map Action.command) := by
  obtain ⟨s, hrun, hquiet, hdecoded, hreturned⟩ := run_of_reliable actions [] (init fun _ => none)
    rfl ⟨rfl, rfl⟩ (fun _ _ h => absurd h (by simp [init]))
    fun a ha => ⟨hreliable a ha, hshort a ha⟩
  exact ⟨s, hrun, hquiet.1, hquiet.2, by simpa [init] using hdecoded,
    by simpa [init] using hreturned⟩

/-- A call, and how many bytes its system calls transfer. -/
def cut (command : Command) (wanted : ℕ) : Action := ⟨command, fun _ => .ok wanted⟩

/-- A value with the bytes that the protocol uses, sent in threes and read byte by byte. -/
theorem session_refines_map_cut :
    let value := ascii "$3\r\n*\r\n"
    ∃ s, Machine.run step (init fun _ => none)
        [cut (.set [] value) 3, cut (.get []) 1, cut (.get (ascii "k")) 7] = some s ∧
      s.session.incoming = [] ∧
      s.returned.map Returned.result = [.ok none, .ok (some value), .ok none] := by
  intro value
  obtain ⟨s, hrun, -, hincoming, -, hreturned⟩ := session_refines_map
    [cut (.set [] value) 3, cut (.get []) 1, cut (.get (ascii "k")) 7]
    (by
      intro a ha i
      simp only [List.mem_cons, List.not_mem_nil, or_false] at ha
      rcases ha with rfl | rfl | rfl <;> exact ⟨_, rfl⟩)
    (by
      intro a ha arg harg
      simp only [List.mem_cons, List.not_mem_nil, or_false] at ha
      rcases ha with rfl | rfl | rfl
      · have h : ∀ arg ∈ args (.set [] value), arg.length < 2 ^ 31 := by decide
        exact h arg harg
      · have h : ∀ arg ∈ args (.get []), arg.length < 2 ^ 31 := by decide
        exact h arg harg
      · have h : ∀ arg ∈ args (.get (ascii "k")), arg.length < 2 ^ 31 := by decide
        exact h arg harg)
  exact ⟨s, hrun, hincoming, hreturned⟩

/-! ## Failing system calls -/

/-- A call of `get` that returned a value returned the one that Redis holds. -/
def GotOwnValue (r : Returned) : Prop :=
  ∀ key value, r.command = .get key → r.result = .ok (some value) → r.store key = some value

/-- The condition of a call: none of its system calls fails, or the first one does, so that nothing
was sent. -/
def FailsFirst (a : Action) : Prop :=
  ShortArgs a.command ∧ (Reliable a.sys ∨ ∃ error, a.sys 0 = .error error)

/-- Between calls nothing is underway, and the calls got their own values. -/
structure InStep (s : State) : Prop where
  /-- Nothing is underway. -/
  quiet : Quiet s.session
  /-- The values are short. -/
  short : Short s.session.store
  /-- The calls got their own values. -/
  own : ∀ r ∈ s.returned, GotOwnValue r

/-- The value of a `get` is the one that Redis holds. -/
theorem gotOwnValue_execute (command : Command) (store : Store) :
    GotOwnValue ⟨command, result command (.ok (command.execute store).2),
      (command.execute store).1⟩ := by
  intro key value hcommand hresult
  subst hcommand
  cases hvalue : store key with
  | none => simp [result, getResult, Command.execute, hvalue] at hresult
  | some v =>
    obtain rfl : v = value := by
      simpa [result, getResult, Command.execute, hvalue] using hresult
    exact hvalue

/-- A call that returned an error got no value. -/
theorem gotOwnValue_error (command : Command) (error : Bytes) (store : Store) :
    GotOwnValue ⟨command, result command (.error error), store⟩ := by
  intro key value hcommand hresult
  subst hcommand
  exact absurd hresult (by simp [result, getResult])

/-- A call that meets the condition keeps step. -/
theorem InStep.step {s s' : State} {a : Action} (h : InStep s) (hguard : FailsFirst a)
    (hstep : step s a = some s') : InStep s' := by
  obtain ⟨hargs, hreliable | ⟨error, herror⟩⟩ := hguard
  · rw [RespSession.step, call_of_reliable hreliable h.quiet h.short] at hstep
    obtain rfl := Option.some.inj hstep
    refine ⟨⟨rfl, rfl⟩, h.short.execute hargs, List.forall_mem_append.mpr ⟨h.own, ?_⟩⟩
    exact List.forall_mem_singleton.mpr (gotOwnValue_execute a.command s.session.store)
  · rw [RespSession.step, call_of_error herror] at hstep
    obtain rfl := Option.some.inj hstep
    refine ⟨h.quiet, h.short, List.forall_mem_append.mpr ⟨h.own, ?_⟩⟩
    exact List.forall_mem_singleton.mpr (gotOwnValue_error a.command _ _)

/-- When a failed call does not poison later ones. In every session, from any Redis, in which a call
fails only at its first `send`, before a byte of its command was sent: every `get` that returned a
value returned the value that Redis held under its key, and nothing is underway between calls. -/
theorem later_gets_of_guarded (store : Store) (hshort : Short store) (actions : List Action)
    (s : State) (hrun : Machine.run step (init store) actions = some s)
    (hguard : Machine.Guarded step (fun _ => FailsFirst) (init store) actions) :
    (∀ r ∈ s.returned, GotOwnValue r) ∧ s.session.buffer = [] ∧ s.session.incoming = [] := by
  have hinit : InStep (init store) := ⟨⟨rfl, rfl⟩, hshort, fun _ h => absurd h List.not_mem_nil⟩
  have h : InStep s :=
    Machine.Guarded.invariant (fun _ _ _ h hguard hstep => h.step hguard hstep) hinit hguard hrun
  exact ⟨h.own, h.quiet⟩

/-- A call whose `send` works at once, and whose first `recv` fails. -/
def interrupted (command : Command) : Action :=
  ⟨command, fun i => if i = 0 then .ok 1000 else .error (ascii "Interrupted system call")⟩

/-- A call whose first `send` fails does not disturb the next one. -/
theorem later_gets_of_guarded_unsent : ∃ s,
    Machine.run step (init fun _ => none) [cut (.set (ascii "a") (ascii "1")) 1000,
      ⟨.get (ascii "b"), fun _ => .error (ascii "Interrupted system call")⟩,
      cut (.get (ascii "a")) 1000] = some s ∧
    s.returned.getLast?.map Returned.result = some (.ok (some (ascii "1"))) ∧
    ∀ r ∈ s.returned, GotOwnValue r := by
  have hlast : (Machine.run step (init fun _ => none) [cut (.set (ascii "a") (ascii "1")) 1000,
      ⟨.get (ascii "b"), fun _ => .error (ascii "Interrupted system call")⟩,
      cut (.get (ascii "a")) 1000]).map (fun s => s.returned.getLast?.map Returned.result) =
      some (some (.ok (some (ascii "1")))) := by decide +kernel
  obtain ⟨s, hrun, hlast⟩ := Option.map_eq_some_iff.mp hlast
  have hargs : ∀ command ∈ [Command.set (ascii "a") (ascii "1"), .get (ascii "b"),
      .get (ascii "a")], ShortArgs command := by
    have h : ∀ command ∈ [Command.set (ascii "a") (ascii "1"), .get (ascii "b"),
        .get (ascii "a")], ∀ arg ∈ args command, arg.length < 2 ^ 31 := by decide
    exact h
  have hguard : ∀ a ∈ [cut (.set (ascii "a") (ascii "1")) 1000,
      ⟨.get (ascii "b"), fun _ => .error (ascii "Interrupted system call")⟩,
      cut (.get (ascii "a")) 1000], FailsFirst a := by
    intro a ha
    simp only [List.mem_cons, List.not_mem_nil, or_false] at ha
    rcases ha with rfl | rfl | rfl
    · exact ⟨hargs _ (by simp [cut]), .inl fun _ => ⟨1000, rfl⟩⟩
    · exact ⟨hargs _ (by simp), .inr ⟨_, rfl⟩⟩
    · exact ⟨hargs _ (by simp [cut]), .inl fun _ => ⟨1000, rfl⟩⟩
  have hown := later_gets_of_guarded (fun _ => none) (fun _ _ h => absurd h (by simp)) _ s hrun
    (Machine.Guarded.of_forall_mem hguard _)
  exact ⟨s, hrun, hlast, hown.1⟩

/-- The reply to a call that failed is read by a later one. The first `get` is interrupted after its
command was sent, and the second one, of another key, returns the value of the first. -/
theorem stale_reply : ∃ s,
    Machine.run step (init fun _ => none) [cut (.set (ascii "a") (ascii "1")) 1000,
      cut (.set (ascii "b") (ascii "2")) 1000, interrupted (.get (ascii "a")),
      cut (.get (ascii "b")) 1000] = some s ∧
    ¬ ∀ r ∈ s.returned, GotOwnValue r := by
  have hlast : (Machine.run step (init fun _ => none) [cut (.set (ascii "a") (ascii "1")) 1000,
      cut (.set (ascii "b") (ascii "2")) 1000, interrupted (.get (ascii "a")),
      cut (.get (ascii "b")) 1000]).bind (fun s => s.returned.getLast?.map fun r =>
        (r.command, r.result, r.store (ascii "b"))) =
      some (.get (ascii "b"), .ok (some (ascii "1")), some (ascii "2")) := by
    decide +kernel
  obtain ⟨s, hrun, hlast⟩ := Option.bind_eq_some_iff.mp hlast
  obtain ⟨r, hr, hvalues⟩ := Option.map_eq_some_iff.mp hlast
  simp only [Prod.mk.injEq] at hvalues
  obtain ⟨hcommand, hresult, hstore⟩ := hvalues
  refine ⟨s, hrun, fun hown => ?_⟩
  have hvalue := hown r (List.mem_of_getLast? hr) _ _ hcommand hresult
  rw [hstore] at hvalue
  exact absurd hvalue (by decide)

end RespSession

end Netos
