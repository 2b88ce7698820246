import Netos.Lib.FixedWindow
import Netos.Tables.QueryBfLimiter

/-!
# What the limiter decides

The calls of `allow` on one limiter, beside the fixed-window limiter that sees only the calls for
one origin and digest and deletes nothing. `Follows` relates the entry of a pair to the window of
that limiter: an entry is the window, and where there is no entry, the pair was never seen or its
window is so long over that the next attempt opens another one. So the deletions are not noticed,
nor, as `makeKey_inj` tells the pairs apart, the calls for other pairs.
-/

namespace Netos.QueryBloomLimiter

open CString Cxx

/-- A call of `allow`, with the reading of the clock. -/
structure Attempt where
  /-- The origin. -/
  origin : Bytes
  /-- The digest. -/
  digest : UInt64
  /-- The clock. -/
  now : ℤ
deriving DecidableEq

/-- The limiter after calls. -/
def after (l : QueryBloomLimiter) (calls : List Attempt) : QueryBloomLimiter :=
  calls.foldl (fun l call => (l.allow call.now call.origin call.digest).1) l

/-- The calls with their results. -/
def outcomes (l : QueryBloomLimiter) : List Attempt → List (Attempt × Bool)
  | [] => []
  | call :: calls =>
    let (l, allowed) := l.allow call.now call.origin call.digest
    (call, allowed) :: outcomes l calls

/-- The times of the calls for a pair. -/
def timesOf (calls : List Attempt) (origin : Bytes) (digest : UInt64) : List ℤ :=
  (calls.filter fun call => call.origin = origin ∧ call.digest = digest).map Attempt.now

/-- The clock does not go back, and it is positive. -/
structure Clocked (calls : List Attempt) : Prop where
  /-- The readings do not decrease. -/
  sorted : calls.Pairwise fun c c' => c.now ≤ c'.now
  /-- The readings are positive. -/
  pos : ∀ call ∈ calls, 0 < call.now

/-- The key of a pair tells it from all others. -/
theorem makeKey_inj {origin origin' : Bytes} {digest digest' : UInt64} :
    makeKey origin digest = makeKey origin' digest' ↔ origin = origin' ∧ digest = digest' := by
  have hshape : ∀ (o : Bytes) (d : UInt64), makeKey o d = o ++ 58 :: natToString d.toNat :=
    fun o d => by
      rw [makeKey, List.append_assoc]
      rfl
  rw [hshape, hshape, append_natToString_inj (by decide), UInt64.toNat_inj]

/-- An entry as a window. -/
def Entry.toWindow (e : Entry) : FixedWindow.Window := ⟨e.window_start, e.attempts⟩

/-- An entry follows the window of its pair's own limiter, for calls from a time on. -/
def Follows (window now : ℤ) : Option Entry → Option FixedWindow.Window → Prop
  | some e, w => w = some e.toWindow ∧ 0 < e.window_start
  | none, none => True
  | none, some w => now - w.start > milliseconds window

/-- Later, an entry still follows the window. -/
theorem Follows.mono {window now now' : ℤ} {e : Option Entry} {w : Option FixedWindow.Window}
    (h : Follows window now e w) (hle : now ≤ now') : Follows window now' e w := by
  cases e with
  | some e => exact h
  | none =>
    cases w with
    | none => trivial
    | some w =>
      have hover : now - w.start > milliseconds window := h
      have hover' : now' - w.start > milliseconds window := by omega
      exact hover'

/-- A deletion is not noticed. -/
theorem Follows.prune {window now : ℤ} {e : Option Entry} {w : Option FixedWindow.Window}
    (hwindow : 0 < window) (h : Follows window now e w) :
    Follows window now
      (e.filter fun e => !decide (now - e.window_start > milliseconds (window * 2))) w := by
  cases e with
  | none => exact h
  | some e =>
    obtain ⟨rfl, hpos⟩ := h
    rw [Option.filter_some]
    split_ifs with hkept
    · exact ⟨rfl, hpos⟩
    · -- Twice the window is over, so the window is.
      have hover : now - e.window_start > milliseconds window := by
        rw [Bool.not_eq_true, Bool.not_eq_false', decide_eq_true_eq] at hkept
        simp only [milliseconds] at hkept ⊢
        omega
      exact hover

/-- The entry under which an attempt is counted. -/
def opened (l : QueryBloomLimiter) (now : ℤ) (e : Option Entry) : Entry :=
  let entry := e.getD {}
  let entry := if entry.window_start = 0 then { entry with window_start := now } else entry
  if now - entry.window_start > milliseconds l.window then ⟨now, 0⟩ else entry

/-- It is the window of the pair's own limiter. -/
theorem Follows.opened {l : QueryBloomLimiter} {now : ℤ} {e : Option Entry}
    {w : Option FixedWindow.Window} (hwindow : 0 < l.window) (hnow : 0 < now)
    (h : Follows l.window now e w) :
    (l.opened now e).toWindow = FixedWindow.current (milliseconds l.window) w now ∧
      0 < (l.opened now e).window_start := by
  have hspan : ¬ now - now > milliseconds l.window := by
    simp only [milliseconds]
    omega
  cases e with
  | some e =>
    obtain ⟨rfl, hpos⟩ := h
    have hstarted : e.window_start ≠ 0 := hpos.ne'
    unfold QueryBloomLimiter.opened FixedWindow.current
    dsimp only [Option.getD_some]
    rw [if_neg hstarted]
    have hiff : now - e.toWindow.start > milliseconds l.window ↔
        now - e.window_start > milliseconds l.window := Iff.rfl
    simp only [hiff]
    split_ifs with hover
    · exact ⟨rfl, hnow⟩
    · exact ⟨rfl, hpos⟩
  | none =>
    -- A new entry starts its window now.
    have hnew : l.opened now none = ⟨now, 0⟩ := by
      unfold QueryBloomLimiter.opened
      dsimp only [Option.getD_none]
      rw [if_pos rfl, if_neg hspan]
    rw [hnew]
    refine ⟨?_, hnow⟩
    cases w with
    | none => rfl
    | some w =>
      have hover : now - w.start > milliseconds l.window := h
      exact (if_pos hover).symm

/-- What is left of an entry when old entries are deleted. -/
def kept (l : QueryBloomLimiter) (now : ℤ) (key : Bytes) : Option Entry :=
  (l.entries.lookup key).filter fun e =>
    !decide (now - e.window_start > milliseconds (l.window * 2))

/-- An entry after an attempt that is counted under it. -/
def attempted (l : QueryBloomLimiter) (e : Entry) : Entry :=
  if e.attempts ≥ l.attempt_limit then e else { e with attempts := e.attempts + 1 }

/-- A call of a limiter that is in use: the result, the entry of the pair and the others. -/
theorem allow_spec (l : QueryBloomLimiter) (hlimit : 1 ≤ l.attempt_limit) (hwindow : 0 < l.window)
    (now : ℤ) (origin : Bytes) (digest : UInt64) :
    let e := l.opened now (l.kept now (makeKey origin digest))
    let l' := (l.allow now origin digest).1
    (l.allow now origin digest).2 = decide (e.attempts < l.attempt_limit) ∧
      l'.attempt_limit = l.attempt_limit ∧ l'.window = l.window ∧
      l'.entries.lookup (makeKey origin digest) = some (l.attempted e) ∧
      ∀ key ≠ makeKey origin digest, l'.entries.lookup key = l.kept now key := by
  obtain ⟨entries, hpruned, hlookup⟩ : ∃ entries, l.pruneLocked now = { l with entries } ∧
      ∀ key, entries.lookup key = l.kept now key :=
    ⟨_, if_neg (not_le.mpr hwindow), fun _ => lookup_filter _ _ _⟩
  have hused : ¬ (l.attempt_limit = 0 ∨ l.window ≤ 0) := by omega
  have hallow : l.allow now origin digest =
      ({ l with
          entries := entries.insert (makeKey origin digest)
            (l.attempted (l.opened now (l.kept now (makeKey origin digest)))) },
        decide ((l.opened now (l.kept now (makeKey origin digest))).attempts <
          l.attempt_limit)) := by
    unfold allow
    rw [if_neg hused, hpruned]
    dsimp only
    rw [hlookup, ← opened]
    unfold attempted
    split_ifs with hfull
    · rw [decide_eq_false (not_lt.mpr hfull)]
    · rw [decide_eq_true (not_le.mp hfull)]
  rw [hallow]
  exact ⟨rfl, rfl, rfl, AList.lookup_insert _, fun key hkey =>
    (AList.lookup_insert_ne hkey).trans (hlookup key)⟩

/-! ## The pairs alone -/

/-- The calls for a pair, one call of its own later. -/
theorem timesOf_concat_self (calls : List Attempt) (call : Attempt) :
    timesOf (calls ++ [call]) call.origin call.digest =
      timesOf calls call.origin call.digest ++ [call.now] := by
  unfold timesOf
  rw [List.filter_append, List.map_append]
  congr 1
  rw [List.filter_cons_of_pos (by simp)]
  rfl

/-- The calls for a pair, one call for another pair later. -/
theorem timesOf_concat_of_ne (calls : List Attempt) (call : Attempt) {origin : Bytes}
    {digest : UInt64} (h : ¬ (call.origin = origin ∧ call.digest = digest)) :
    timesOf (calls ++ [call]) origin digest = timesOf calls origin digest := by
  unfold timesOf
  rw [List.filter_append, List.filter_cons_of_neg (by simpa using h), List.filter_nil,
    List.append_nil]

/-- A limiter after calls, seen from a time on: every pair's entry follows the pair's own
limiter. -/
structure Simulates (limit : ℕ) (window : ℤ) (calls : List Attempt) (now : ℤ)
    (l : QueryBloomLimiter) : Prop where
  /-- The limit stays. -/
  limit_eq : l.attempt_limit = limit
  /-- The window stays. -/
  window_eq : l.window = window
  /-- The entries. -/
  follows : ∀ origin digest, Follows window now (l.entries.lookup (makeKey origin digest))
    (FixedWindow.after limit (milliseconds window) none (timesOf calls origin digest))

variable {limit : ℕ} {window : ℤ}

/-- An attempt at the pair's own limiter is counted like one under its entry. -/
theorem attempt_eq {l : QueryBloomLimiter} {e : Entry} {w : Option FixedWindow.Window} {now : ℤ}
    (h : e.toWindow = FixedWindow.current (milliseconds l.window) w now) :
    FixedWindow.attempt l.attempt_limit (milliseconds l.window) w now =
      ((l.attempted e).toWindow, decide (e.attempts < l.attempt_limit)) := by
  have hused : e.toWindow.used = e.attempts := rfl
  unfold FixedWindow.attempt attempted
  rw [← h]
  dsimp only
  rw [hused]
  split_ifs with hfull
  · rw [decide_eq_false (not_lt.mpr hfull)]
  · rw [decide_eq_true (not_le.mp hfull)]
    rfl

/-- A call is decided as by its pair's own limiter, and the entries follow. -/
theorem Simulates.allow {calls : List Attempt} {l : QueryBloomLimiter} {call : Attempt}
    (hlimit : 1 ≤ limit) (hwindow : 0 < window) (hnow : 0 < call.now)
    (h : Simulates limit window calls call.now l) :
    (l.allow call.now call.origin call.digest).2 =
        (FixedWindow.attempt limit (milliseconds window) (FixedWindow.after limit
          (milliseconds window) none (timesOf calls call.origin call.digest)) call.now).2 ∧
      Simulates limit window (calls ++ [call]) call.now
        (l.allow call.now call.origin call.digest).1 := by
  obtain ⟨rfl, rfl, hfollows⟩ := h
  -- No deletion is noticed.
  have hkept : ∀ origin digest, Follows l.window call.now (l.kept call.now (makeKey origin digest))
      (FixedWindow.after l.attempt_limit (milliseconds l.window) none
        (timesOf calls origin digest)) :=
    fun origin digest => (hfollows origin digest).prune hwindow
  obtain ⟨hresult, hlimit_eq, hwindow_eq, hself, hother⟩ :=
    l.allow_spec hlimit hwindow call.now call.origin call.digest
  obtain ⟨hopened, hpos⟩ := (hkept call.origin call.digest).opened hwindow hnow
  have hattempt := attempt_eq hopened
  refine ⟨by rw [hresult, hattempt], hlimit_eq, hwindow_eq, fun origin digest => ?_⟩
  by_cases hpair : call.origin = origin ∧ call.digest = digest
  · obtain ⟨rfl, rfl⟩ := hpair
    rw [hself, timesOf_concat_self, FixedWindow.after_concat, hattempt]
    refine ⟨rfl, ?_⟩
    unfold attempted
    split_ifs
    · exact hpos
    · exact hpos
  · have hkey : makeKey origin digest ≠ makeKey call.origin call.digest := fun heq =>
      hpair ((makeKey_inj.mp heq).imp Eq.symm Eq.symm)
    rw [hother _ hkey, timesOf_concat_of_ne calls call hpair]
    exact hkept origin digest

/-- The calls before the last one. -/
theorem Clocked.init {calls : List Attempt} {call : Attempt} (h : Clocked (calls ++ [call])) :
    Clocked calls :=
  ⟨(List.pairwise_append.mp h.sorted).1, fun c hc => h.pos c (List.mem_append_left _ hc)⟩

/-- The calls before the last one were not made later. -/
theorem Clocked.le_last {calls : List Attempt} {call c : Attempt} (h : Clocked (calls ++ [call]))
    (hc : c ∈ calls) : c.now ≤ call.now :=
  (List.pairwise_append.mp h.sorted).2.2 c hc call List.mem_cons_self

/-- One call more. -/
theorem after_concat (l : QueryBloomLimiter) (calls : List Attempt) (call : Attempt) :
    l.after (calls ++ [call]) =
      ((l.after calls).allow call.now call.origin call.digest).1 := by
  rw [after, List.foldl_append, List.foldl_cons, List.foldl_nil, after]

/-- After calls, the entries follow the pairs' own limiters. -/
theorem simulates_after (hlimit : 1 ≤ limit) (hwindow : 0 < window) {calls : List Attempt}
    (hclock : Clocked calls) {now : ℤ} (hnow : ∀ c ∈ calls, c.now ≤ now) :
    Simulates limit window calls now ((construct limit window).after calls) := by
  induction calls using List.reverseRecOn generalizing now with
  | nil => exact ⟨rfl, rfl, fun _ _ => trivial⟩
  | append_singleton calls call ih =>
    have hcall : call ∈ calls ++ [call] := List.mem_append_right _ List.mem_cons_self
    have hbefore := ih hclock.init fun c hc => hclock.le_last hc
    obtain ⟨-, hlimit_eq, hwindow_eq, hfollows⟩ :=
      hbefore.allow hlimit hwindow (hclock.pos call hcall)
    rw [after_concat]
    exact ⟨hlimit_eq, hwindow_eq, fun origin digest => (hfollows origin digest).mono
      (hnow call hcall)⟩

/-- The limiter decides for every pair as if there were no other. For every limit and window that
are not zero and every sequence of calls at positive times that do not go back, a call returns what
the pair's own fixed-window limiter, which saw the earlier calls for the pair only and deletes
nothing, grants. -/
theorem allow_eq_reference (limit : ℕ) (hlimit : 1 ≤ limit) (window : ℤ) (hwindow : 0 < window)
    (earlier : List Attempt) (call : Attempt) (hclock : Clocked (earlier ++ [call])) :
    (((construct limit window).after earlier).allow call.now call.origin call.digest).2 =
      (FixedWindow.attempt limit (milliseconds window) (FixedWindow.after limit
        (milliseconds window) none (timesOf earlier call.origin call.digest)) call.now).2 := by
  have hcall : call ∈ earlier ++ [call] := List.mem_append_right _ List.mem_cons_self
  have hsimulates := simulates_after hlimit hwindow hclock.init fun c hc => hclock.le_last hc
  exact (hsimulates.allow hlimit hwindow (hclock.pos call hcall)).1

/-- Calls for two pairs that the same characters spell. -/
def spelledAlike : List Attempt :=
  [⟨ascii "a:1", 2, 1⟩, ⟨ascii "a", 12, 1⟩, ⟨ascii "a", 12, milliseconds 5⟩]

/-- The entry of the first pair is deleted before its second call. -/
theorem allow_eq_reference_deleted :
    (((construct 1 2).after spelledAlike).allow (milliseconds 6) (ascii "a:1") 2).2 =
      (FixedWindow.attempt 1 (milliseconds 2) (FixedWindow.after 1 (milliseconds 2) none
        (timesOf spelledAlike (ascii "a:1") 2)) (milliseconds 6)).2 :=
  allow_eq_reference 1 le_rfl 2 (by decide) spelledAlike ⟨ascii "a:1", 2, milliseconds 6⟩
    ⟨by decide, List.forall_iff_forall_mem.mp (by decide)⟩

/-! ## How many calls an interval sees allowed -/

/-- One call more. -/
theorem outcomes_concat (l : QueryBloomLimiter) (calls : List Attempt) (call : Attempt) :
    outcomes l (calls ++ [call]) = outcomes l calls ++
      [(call, ((l.after calls).allow call.now call.origin call.digest).2)] := by
  induction calls generalizing l with
  | nil => rfl
  | cons c calls ih =>
    have hrest := ih (l.allow c.now c.origin c.digest).1
    calc outcomes l (c :: calls ++ [call])
        = (c, (l.allow c.now c.origin c.digest).2) ::
            outcomes (l.allow c.now c.origin c.digest).1 (calls ++ [call]) := rfl
      _ = _ := by rw [hrest, ← List.cons_append]; rfl

/-- The times of the calls for a pair that were allowed. -/
def allowedTimes (l : QueryBloomLimiter) (calls : List Attempt) (origin : Bytes)
    (digest : UInt64) : List ℤ :=
  ((outcomes l calls).filter fun o =>
    o.2 = true ∧ o.1.origin = origin ∧ o.1.digest = digest).map fun o => o.1.now

/-- The calls that are allowed for a pair are those that its own limiter grants. -/
theorem allowedTimes_eq_granted (hlimit : 1 ≤ limit) (hwindow : 0 < window)
    {calls : List Attempt} (hclock : Clocked calls) (origin : Bytes) (digest : UInt64) :
    allowedTimes (construct limit window) calls origin digest =
      FixedWindow.granted limit (milliseconds window) none (timesOf calls origin digest) := by
  induction calls using List.reverseRecOn with
  | nil => rfl
  | append_singleton calls call ih =>
    have hcall : call ∈ calls ++ [call] := List.mem_append_right _ List.mem_cons_self
    have hbefore := ih hclock.init
    have hsimulates := simulates_after hlimit hwindow hclock.init fun c hc => hclock.le_last hc
    have hresult := (hsimulates.allow hlimit hwindow (hclock.pos call hcall)).1
    unfold allowedTimes at hbefore ⊢
    rw [outcomes_concat, List.filter_append, List.map_append, hbefore]
    by_cases hpair : call.origin = origin ∧ call.digest = digest
    · obtain ⟨rfl, rfl⟩ := hpair
      rw [timesOf_concat_self, FixedWindow.granted_concat, ← hresult]
      congr 1
      split_ifs with hallowed
      · rw [List.filter_cons_of_pos (by simpa using hallowed)]
        rfl
      · rw [List.filter_cons_of_neg (by simpa using hallowed)]
        rfl
    · rw [timesOf_concat_of_ne calls call hpair, List.filter_cons_of_neg (by simpa using
        fun _ => hpair), List.filter_nil, List.map_nil, List.append_nil]

/-- The calls for a pair that do not go back. -/
theorem Clocked.sorted_timesOf {calls : List Attempt} (h : Clocked calls) (origin : Bytes)
    (digest : UInt64) : (timesOf calls origin digest).Pairwise (· ≤ ·) :=
  List.pairwise_map.mpr (h.sorted.sublist List.filter_sublist)

/-- The forward cap in every interval. For every limit and window that are not zero and every
sequence of calls at positive times that do not go back, fewer than twice the limit of the calls for
a pair that are made in an interval no longer than the window are allowed. -/
theorem allowed_in_interval_lt (limit : ℕ) (hlimit : 1 ≤ limit) (window : ℤ)
    (hwindow : 0 < window) (calls : List Attempt) (hclock : Clocked calls) (origin : Bytes)
    (digest : UInt64) (a b : ℤ) (hinterval : b ≤ a + milliseconds window) :
    ((outcomes (construct limit window) calls).filter fun o => o.2 = true ∧
      o.1.origin = origin ∧ o.1.digest = digest ∧ a ≤ o.1.now ∧ o.1.now ≤ b).length ≤
        2 * limit - 1 := by
  have hlt : ((allowedTimes (construct limit window) calls origin digest).filter fun t =>
      a ≤ t ∧ t ≤ a + milliseconds window).length < 2 * limit := by
    rw [allowedTimes_eq_granted hlimit hwindow hclock]
    exact FixedWindow.length_granted_lt hlimit (hclock.sorted_timesOf origin digest) a
  rw [allowedTimes, List.filter_map, List.length_map, List.filter_filter] at hlt
  refine (List.monotone_filter_right _ fun o ho => ?_).length_le.trans (Nat.le_pred_of_lt hlt)
  simp only [Function.comp_apply, decide_eq_true_eq, Bool.and_eq_true] at ho ⊢
  obtain ⟨hallowed, horigin, hdigest, hfrom, hto⟩ := ho
  exact ⟨⟨hfrom, hto.trans hinterval⟩, hallowed, horigin, hdigest⟩

/-- Calls around the end of a window of a second: one opens it, two end it, three open the next. -/
def aroundTheEnd : List Attempt :=
  [1, milliseconds 1000, milliseconds 1000 + 1, milliseconds 1000 + 2, milliseconds 1000 + 2,
    milliseconds 1000 + 2].map fun now => ⟨ascii "A", 7, now⟩

/-- They are all allowed, within the bound. -/
theorem allowed_in_interval_lt_around :
    ((outcomes (construct 3 1000) aroundTheEnd).filter fun o => o.2 = true ∧
      o.1.origin = ascii "A" ∧ o.1.digest = 7 ∧ milliseconds 1000 ≤ o.1.now ∧
        o.1.now ≤ milliseconds 1000 + 2).length ≤ 2 * 3 - 1 :=
  allowed_in_interval_lt 3 (by decide) 1000 (by decide) aroundTheEnd
    ⟨by decide, List.forall_iff_forall_mem.mp (by decide)⟩ (ascii "A") 7 _ _ (by decide)

/-- Five calls for one pair are allowed within two nanoseconds, with the default limit of three in a
second: two that end a window, and three of the next. -/
theorem five_allowed_at_once :
    Clocked aroundTheEnd ∧ milliseconds 1000 + 2 ≤ milliseconds 1000 + milliseconds 1000 ∧
      ¬ ((outcomes (construct 3 1000) aroundTheEnd).filter fun o => o.2 = true ∧
        o.1.origin = ascii "A" ∧ o.1.digest = 7 ∧ milliseconds 1000 ≤ o.1.now ∧
          o.1.now ≤ milliseconds 1000 + 2).length ≤ 3 :=
  ⟨⟨by decide, List.forall_iff_forall_mem.mp (by decide)⟩, by decide, by decide +kernel⟩

end Netos.QueryBloomLimiter
