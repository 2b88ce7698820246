import Netos.Lib.CString
import Netos.Lib.Cxx

/-!
# The Query-BF limiter

`tables/query_bf_limiter.h` and `tables/query_bf_limiter.cpp`: how often a Query-BF may be relayed
within a window. A window that starts at time zero counts as not started, as in the source.
-/

namespace Netos

open CString Cxx

/-- `QueryBloomLimiter::Entry`. -/
structure QueryBloomLimiter.Entry where
  /-- When the window started. -/
  window_start : ℤ := 0
  /-- The attempts allowed since. -/
  attempts : ℕ := 0

/-- `QueryBloomLimiter`. -/
structure QueryBloomLimiter where
  /-- The attempts allowed in a window. -/
  attempt_limit : ℕ
  /-- The window, in milliseconds. -/
  window : ℤ
  /-- The windows. -/
  entries : UnorderedMap Bytes QueryBloomLimiter.Entry

namespace QueryBloomLimiter

/-- The constructor. -/
def construct (attempt_limit : ℕ) (window : ℤ) : QueryBloomLimiter := ⟨attempt_limit, window, ∅⟩

/-- `make_key`. -/
def makeKey (origin : Bytes) (digest : UInt64) : Bytes :=
  origin ++ ascii ":" ++ natToString digest.toNat

/-- `prune_locked`. -/
def pruneLocked (l : QueryBloomLimiter) (now : ℤ) : QueryBloomLimiter :=
  if l.window ≤ 0 then l
  else
    { l with
      entries := Cxx.filter
        (fun _ e => !decide (now - e.window_start > milliseconds (l.window * 2))) l.entries }

/-- `allow`. -/
def allow (l : QueryBloomLimiter) (now : ℤ) (origin : Bytes) (digest : UInt64) :
    QueryBloomLimiter × Bool :=
  if l.attempt_limit = 0 ∨ l.window ≤ 0 then (l, true)
  else
    let l := l.pruneLocked now
    let key := makeKey origin digest
    let entry := (l.entries.lookup key).getD {}
    -- A new entry starts its window now, and so does one whose window is over.
    let entry := if entry.window_start = 0 then { entry with window_start := now } else entry
    let entry : Entry :=
      if now - entry.window_start > milliseconds l.window then ⟨now, 0⟩ else entry
    if entry.attempts ≥ l.attempt_limit then
      ({ l with entries := l.entries.insert key entry }, false)
    else
      let entry := { entry with attempts := entry.attempts + 1 }
      ({ l with entries := l.entries.insert key entry }, true)

end QueryBloomLimiter

end Netos
