import Mathlib.Algebra.Order.Group.Int
import Mathlib.Data.List.Basic
import Mathlib.Data.List.Induction
import Mathlib.Tactic.SplitIfs

/-!
# Fixed-window limiters

A limiter that grants a number of attempts in a window: the first attempt opens a window, an attempt
later than the span of the window opens the next one, and an attempt is granted while fewer than the
limit were granted in its window. Times are integers.

The windows do not slide. An interval as long as the span meets two windows at most, and when it
meets two, it misses the attempt that opened the older one; so fewer than twice the limit are
granted in it (`length_granted_lt`).
-/

namespace FixedWindow

/-- A window: when it was opened, and how many attempts were granted in it. -/
structure Window where
  /-- The time of the attempt that opened it. -/
  start : ℤ
  /-- The attempts granted. -/
  used : ℕ
deriving DecidableEq

variable (limit : ℕ) (span : ℤ)

/-- The window that an attempt falls into: the last one, or a new one when there was none or it is
over. -/
def current (w : Option Window) (now : ℤ) : Window :=
  match w with
  | none => ⟨now, 0⟩
  | some w => if now - w.start > span then ⟨now, 0⟩ else w

/-- An attempt: its window afterwards, and whether it is granted. -/
def attempt (w : Option Window) (now : ℤ) : Window × Bool :=
  let w := current span w now
  if w.used ≥ limit then (w, false) else (⟨w.start, w.used + 1⟩, true)

/-- The window after attempts at these times. -/
def after (w : Option Window) (times : List ℤ) : Option Window :=
  times.foldl (fun w now => some (attempt limit span w now).1) w

/-- The times of the attempts that are granted. -/
def granted (w : Option Window) : List ℤ → List ℤ
  | [] => []
  | now :: times =>
    let (w, ok) := attempt limit span w now
    (if ok then [now] else []) ++ granted (some w) times

variable {limit span}

/-- One attempt more. -/
theorem after_concat (w : Option Window) (times : List ℤ) (now : ℤ) :
    after limit span w (times ++ [now]) =
      some (attempt limit span (after limit span w times) now).1 := by
  rw [after, List.foldl_append, List.foldl_cons, List.foldl_nil, after]

/-- One attempt more, granted or not. -/
theorem granted_concat (w : Option Window) (times : List ℤ) (now : ℤ) :
    granted limit span w (times ++ [now]) = granted limit span w times ++
      if (attempt limit span (after limit span w times) now).2 then [now] else [] := by
  induction times generalizing w with
  | nil => exact List.append_nil _
  | cons t times ih =>
    have hrest := ih (some (attempt limit span w t).1)
    calc granted limit span w (t :: times ++ [now])
        = (if (attempt limit span w t).2 then [t] else []) ++
            granted limit span (some (attempt limit span w t).1) (times ++ [now]) := rfl
      _ = _ := by rw [hrest, ← List.append_assoc]; rfl

/-- A granted attempt is one of the attempts. -/
theorem mem_of_mem_granted {w : Option Window} {times : List ℤ} {t : ℤ}
    (h : t ∈ granted limit span w times) : t ∈ times := by
  induction times generalizing w with
  | nil => exact h
  | cons now times ih =>
    rw [granted, List.mem_append] at h
    rcases h with h | h
    · split_ifs at h
      · rw [List.mem_singleton.mp h]
        exact List.mem_cons_self
      · exact absurd h List.not_mem_nil
    · exact List.mem_cons_of_mem now (ih h)

/-! ## How many attempts an interval sees -/

/-- The elements of a list from a time on. -/
def since (a : ℤ) (ts : List ℤ) : List ℤ := ts.filter fun t => a ≤ t

/-- From a later time on there are fewer. -/
theorem length_since_le {a b : ℤ} (h : a ≤ b) (ts : List ℤ) :
    (since b ts).length ≤ (since a ts).length := by
  refine (List.monotone_filter_right ts fun t ht => ?_).length_le
  rw [decide_eq_true_eq] at ht ⊢
  exact le_trans h ht

/-- The granted attempts, window by window: those of the windows before the last, and those of the
last. -/
structure Spread (limit : ℕ) (span : ℤ) (w : Window) (older newer : List ℤ) : Prop where
  /-- The last window counts its attempts. -/
  used : newer.length = w.used
  /-- The count stays within the limit. -/
  le_limit : w.used ≤ limit
  /-- The last window was opened by its first attempt. -/
  head : newer.head? = some w.start
  /-- The attempts of the earlier windows came before. -/
  older_le : ∀ t ∈ older, t ≤ w.start
  /-- A span before the last window was opened, the attempt that opened the one before was past. -/
  since_lt : (since (w.start - span) older).length < limit

/-- A window just opened. -/
theorem spread_opened {now : ℤ} {older : List ℤ} (hlimit : 1 ≤ limit)
    (hpast : ∀ t ∈ older, t ≤ now) (hsince : (since (now - span) older).length < limit) :
    Spread limit span ⟨now, 1⟩ older [now] :=
  ⟨rfl, hlimit, rfl, hpast, hsince⟩

/-- One attempt more in the last window. -/
theorem Spread.grant {w : Window} {older newer : List ℤ} (h : Spread limit span w older newer)
    (hused : w.used < limit) (now : ℤ) :
    Spread limit span ⟨w.start, w.used + 1⟩ older (newer ++ [now]) where
  used := by rw [List.length_append, h.used, List.length_singleton]
  le_limit := hused
  head := by rw [List.head?_append, h.head, Option.some_or]
  older_le := h.older_le
  since_lt := h.since_lt

/-- After the start of the last window, fewer attempts than the limit came. -/
theorem Spread.length_since_lt {w : Window} {older newer : List ℤ}
    (h : Spread limit span w older newer) {a : ℤ} (ha : w.start < a) :
    (since a (older ++ newer)).length < limit := by
  obtain ⟨rest, rfl⟩ : ∃ rest, newer = w.start :: rest := List.head?_eq_some_iff.mp h.head
  have holder : older.filter (fun t => a ≤ t) = [] := by
    refine List.filter_eq_nil_iff.mpr fun t ht => ?_
    rw [decide_eq_true_eq, not_le]
    exact lt_of_le_of_lt (h.older_le t ht) ha
  -- The attempt that opened the window is too early.
  have hhead : (w.start :: rest).filter (fun t => a ≤ t) = rest.filter fun t => a ≤ t :=
    List.filter_cons_of_neg (by rwa [decide_eq_true_eq, not_le])
  have hrest : (rest.filter fun t => a ≤ t).length ≤ rest.length := List.length_filter_le _ _
  have hused : rest.length + 1 = w.used := h.used
  have hle := h.le_limit
  rw [since, List.filter_append, holder, List.nil_append, hhead]
  omega

/-- In the span before a time after the start of the last window, fewer than twice the limit
came. -/
theorem Spread.length_since_lt_two_mul {w : Window} {older newer : List ℤ}
    (h : Spread limit span w older newer) {now : ℤ} (hnow : w.start ≤ now) :
    (since (now - span) (older ++ newer)).length < 2 * limit := by
  have holder : (since (now - span) older).length < limit :=
    lt_of_le_of_lt (length_since_le (by omega) older) h.since_lt
  have hnewer : (since (now - span) newer).length ≤ newer.length := List.length_filter_le _ _
  have hused := h.used
  have hle := h.le_limit
  unfold since at holder hnewer ⊢
  rw [List.filter_append, List.length_append]
  omega

/-- The attempts at times that do not go back are spread over windows, the last of which opened at
one of these times. -/
theorem exists_spread (hlimit : 1 ≤ limit) {times : List ℤ} (hsorted : times.Pairwise (· ≤ ·))
    (hne : times ≠ []) :
    ∃ w older newer, after limit span none times = some w ∧
      granted limit span none times = older ++ newer ∧ Spread limit span w older newer := by
  induction times using List.reverseRecOn with
  | nil => exact absurd rfl hne
  | append_singleton times now ih =>
    obtain ⟨hbefore, -, hlast⟩ := List.pairwise_append.mp hsorted
    have hpast : ∀ t ∈ times, t ≤ now := fun t ht => hlast t ht now List.mem_cons_self
    rw [after_concat, granted_concat]
    by_cases hfirst : times = []
    · -- The first attempt opens the first window.
      subst hfirst
      refine ⟨⟨now, 1⟩, [], [now], ?_⟩
      have hattempt : attempt limit span (after limit span none []) now = (⟨now, 1⟩, true) := by
        have hcurrent : current span (after limit span none []) now = ⟨now, 0⟩ := rfl
        unfold attempt
        rw [hcurrent]
        exact if_neg (not_le.mpr hlimit)
      rw [hattempt]
      exact ⟨rfl, rfl, spread_opened hlimit (fun t ht => absurd ht List.not_mem_nil) hlimit⟩
    · obtain ⟨w, older, newer, hafter, hgranted, hspread⟩ := ih hbefore hfirst
      have hpast' : ∀ t ∈ older ++ newer, t ≤ now := fun t ht =>
        hpast t (mem_of_mem_granted (hgranted ▸ ht))
      rw [hafter, hgranted]
      by_cases hover : now - w.start > span
      · -- The last window is over.
        refine ⟨⟨now, 1⟩, older ++ newer, [now], ?_⟩
        have hattempt : attempt limit span (some w) now = (⟨now, 1⟩, true) := by
          have hcurrent : current span (some w) now = ⟨now, 0⟩ := if_pos hover
          unfold attempt
          rw [hcurrent]
          exact if_neg (not_le.mpr hlimit)
        rw [hattempt]
        exact ⟨rfl, rfl, spread_opened hlimit hpast' (hspread.length_since_lt (by omega))⟩
      · have hcurrent : current span (some w) now = w := if_neg hover
        unfold attempt
        rw [hcurrent]
        by_cases hused : w.used ≥ limit
        · rw [if_pos hused]
          exact ⟨w, older, newer, rfl, List.append_nil _, hspread⟩
        · rw [if_neg hused]
          exact ⟨⟨w.start, w.used + 1⟩, older, newer ++ [now], rfl, List.append_assoc _ _ _,
            hspread.grant (not_le.mp hused) now⟩

/-- Fewer than twice the limit are granted in every interval as long as the span, when times do not
go back. -/
theorem length_granted_lt (hlimit : 1 ≤ limit) {times : List ℤ}
    (hsorted : times.Pairwise (· ≤ ·)) (a : ℤ) :
    ((granted limit span none times).filter fun t => a ≤ t ∧ t ≤ a + span).length < 2 * limit := by
  induction times using List.reverseRecOn with
  | nil =>
    have hempty : granted limit span none [] = [] := rfl
    rw [hempty, List.filter_nil, List.length_nil]
    omega
  | append_singleton times now ih =>
    by_cases hin : a ≤ now ∧ now ≤ a + span
    · -- The interval reaches back at most a span from the last attempt.
      have hne : times ++ [now] ≠ [] :=
        List.append_ne_nil_of_right_ne_nil times (List.cons_ne_nil _ _)
      obtain ⟨w, older, newer, -, hgranted, hspread⟩ := exists_spread hlimit hsorted hne
      have hstart : w.start ∈ granted limit span none (times ++ [now]) := by
        rw [hgranted]
        exact List.mem_append_right _ (List.mem_of_mem_head? hspread.head)
      have hnow : w.start ≤ now := by
        rcases List.mem_append.mp (mem_of_mem_granted hstart) with hmem | hmem
        · exact (List.pairwise_append.mp hsorted).2.2 _ hmem now List.mem_cons_self
        · exact (List.mem_singleton.mp hmem).le
      have hsince := hspread.length_since_lt_two_mul hnow
      rw [hgranted]
      refine lt_of_le_of_lt (List.monotone_filter_right _ fun t ht => ?_).length_le hsince
      simp only [decide_eq_true_eq] at ht ⊢
      omega
    · rw [granted_concat, List.filter_append]
      have hlast : (if (attempt limit span (after limit span none times) now).2 then [now]
          else []).filter (fun t => a ≤ t ∧ t ≤ a + span) = [] := by
        split_ifs
        · exact List.filter_cons_of_neg (by simpa using hin)
        · rfl
      rw [hlast, List.append_nil]
      exact ih (List.pairwise_append.mp hsorted).1

end FixedWindow
