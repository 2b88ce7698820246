import Netos.Lib.CString

/-!
# The Redis client

`cache/redis_client.h` and `cache/redis_client.cpp`: what `set` and `get` make of the reply that
`read_resp` read, and the commands they send. A call that fails with an error text is an `error`; a
`get` that finds nothing, and says nothing, is `ok none`. The server is Redis: a map from keys to
values, which may also refuse a command with an error reply.
-/

namespace Netos

open CString

/-- `RespValue`: the type is the first byte of the reply. -/
structure RespValue where
  /-- The type byte. -/
  type : UInt8 := 0
  /-- The rest of the line, or the bulk string. -/
  payload : Bytes := []
  /-- A bulk string of negative length. -/
  is_null : Bool := false
deriving DecidableEq, Repr

/-- `-`, the type of an error reply. -/
abbrev minus : UInt8 := 45

/-- `$`, the type of a bulk string. -/
abbrev dollar : UInt8 := 36

namespace RedisClient

/-- What `set` returns for the outcome of `read_resp`. -/
def setResult : Except Bytes RespValue → Except Bytes Unit
  | .error error => .error error
  | .ok resp =>
    if resp.type = minus then .error (ascii "redis error: " ++ resp.payload) else .ok ()

/-- What `get` returns for the outcome of `read_resp`. -/
def getResult : Except Bytes RespValue → Except Bytes (Option Bytes)
  | .error error => .error error
  | .ok resp =>
    if resp.type = dollar then
      if resp.is_null then .ok none else .ok (some resp.payload)
    else if resp.type = minus then .error (ascii "redis error: " ++ resp.payload)
    else .ok none

/-- The commands that the client sends. -/
inductive Command where
  /-- `SET key value`. -/
  | set (key value : Bytes)
  /-- `GET key`. -/
  | get (key : Bytes)
deriving DecidableEq

/-- The values that Redis holds. -/
abbrev Store := Bytes → Option Bytes

/-- Redis processes a command: the store, and the reply as `read_resp` delivers it. -/
def Command.execute (store : Store) : Command → Store × RespValue
  | .set key value => (Function.update store key (some value), ⟨43, ascii "OK", false⟩)
  | .get key =>
    (store,
      match store key with
      | some value => ⟨dollar, value, false⟩
      | none => ⟨dollar, [], true⟩)

/-- Redis answers a command: it processes it, or refuses it with an error text. -/
def Command.answer (store : Store) (command : Command) : Option Bytes → Store × RespValue
  | none => command.execute store
  | some error => (store, ⟨minus, error, false⟩)

/-- A `get` that returns a value got the bulk string of a `GET` that was processed. -/
theorem held_of_getResult {store : Store} {key value : Bytes} {refusal : Option Bytes}
    (h : getResult (.ok ((Command.get key).answer store refusal).2) = .ok (some value)) :
    store key = some value := by
  cases refusal with
  | some error => simp [Command.answer, getResult, minus, dollar] at h
  | none =>
    cases hstore : store key <;> simp_all [Command.answer, Command.execute, getResult, dollar]

/-- A `set` that succeeds got the reply of a command that was not refused. -/
theorem refusal_of_setResult {store : Store} {command : Command} {refusal : Option Bytes}
    (h : setResult (.ok (command.answer store refusal).2) = .ok ()) : refusal = none := by
  cases refusal with
  | some error => simp [Command.answer, setResult, minus] at h
  | none => rfl

end RedisClient

end Netos
