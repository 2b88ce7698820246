import Netos.Lib.CString
import Netos.Lib.Cxx

/-!
# The Content-BF fallback table

`tables/content_bf_fallback.h` and `tables/content_bf_fallback.cpp`: the keys that a neighbor was
asked for directly, each with the time after which the query counts as failed. An entry is found
under its origin and key. The clock readings of `schedule` and `take_due` are arguments.
-/

namespace Netos

open CString Cxx

namespace ContentBfFallbackTable

/-- `Pending`. -/
structure Pending where
  /-- The key. -/
  key : Bytes
  /-- The origin. -/
  origin : Bytes
deriving DecidableEq

/-- `Entry`. -/
structure Entry where
  /-- The key. -/
  key : Bytes
  /-- The origin. -/
  origin : Bytes
  /-- When the query counts as failed. -/
  deadline : ℤ
deriving DecidableEq

/-- `make_key`. -/
def makeKey (origin key : Bytes) : Bytes := origin ++ ascii "|" ++ key

end ContentBfFallbackTable

/-- `ContentBfFallbackTable`. -/
structure ContentBfFallbackTable where
  /-- How long a direct query may take, in milliseconds. -/
  window : ℤ
  /-- The entries. -/
  entries : UnorderedMap Bytes ContentBfFallbackTable.Entry

namespace ContentBfFallbackTable

/-- The constructor. -/
def construct (window : ℤ) : ContentBfFallbackTable := ⟨window, ∅⟩

/-- `schedule`. -/
def schedule (t : ContentBfFallbackTable) (now : ℤ) (key origin : Bytes) :
    ContentBfFallbackTable × Bool :=
  if t.window ≤ 0 then (t, false)
  else
    let entry : Entry := ⟨key, origin, now + milliseconds t.window⟩
    ({ t with entries := t.entries.insert (makeKey origin key) entry }, true)

/-- `cancel`. -/
def cancel (t : ContentBfFallbackTable) (key origin : Bytes) : ContentBfFallbackTable × Bool :=
  ({ t with entries := t.entries.erase (makeKey origin key) },
    (t.entries.lookup (makeKey origin key)).isSome)

/-- The entries that `take_due` takes, in the order in which its loop visits them. -/
def dueEntries (t : ContentBfFallbackTable) (it : Iteration) (now : ℤ) : List Entry :=
  if t.window ≤ 0 then []
  else ((it.order t.entries.entries).filter fun e => now ≥ e.2.deadline).map Sigma.snd

/-- `take_due`. -/
def takeDue (t : ContentBfFallbackTable) (it : Iteration) (now : ℤ) :
    ContentBfFallbackTable × List Pending :=
  if t.window ≤ 0 then (t, [])
  else
    ({ t with entries := Cxx.filter (fun _ e => !decide (now ≥ e.deadline)) t.entries },
      (t.dueEntries it now).map fun e => ⟨e.key, e.origin⟩)

/-- `pending_count`. -/
def pendingCount (t : ContentBfFallbackTable) : ℕ := size t.entries

/-- An entry after `schedule`: the new one, or an old one under another key. -/
theorem lookup_schedule {t : ContentBfFallbackTable} {now : ℤ} {key origin k : Bytes} {e : Entry}
    (h : (t.schedule now key origin).1.entries.lookup k = some e) :
    t.entries.lookup k = some e ∨
      k = makeKey origin key ∧ e = ⟨key, origin, now + milliseconds t.window⟩ := by
  unfold schedule at h
  split_ifs at h with hwindow
  · exact Or.inl h
  · by_cases hk : k = makeKey origin key
    · subst hk
      rw [AList.lookup_insert] at h
      exact Or.inr ⟨rfl, (Option.some.inj h).symm⟩
    · rw [AList.lookup_insert_ne hk] at h
      exact Or.inl h

/-- An entry after `cancel` was there before, under another key. -/
theorem lookup_cancel {t : ContentBfFallbackTable} {key origin k : Bytes} {e : Entry}
    (h : (t.cancel key origin).1.entries.lookup k = some e) :
    t.entries.lookup k = some e ∧ k ≠ makeKey origin key := by
  unfold cancel at h
  by_cases hk : k = makeKey origin key
  · subst hk
    rw [AList.lookup_erase] at h
    exact absurd h (by simp)
  · rw [AList.lookup_erase_ne hk] at h
    exact ⟨h, hk⟩

/-- An entry after `take_due` was there before. -/
theorem lookup_takeDue {t : ContentBfFallbackTable} {it : Iteration} {now : ℤ} {k : Bytes}
    {e : Entry} (h : (t.takeDue it now).1.entries.lookup k = some e) :
    t.entries.lookup k = some e := by
  unfold takeDue at h
  split_ifs at h with hwindow
  · exact h
  · rw [Cxx.lookup_filter, Option.filter_eq_some_iff] at h
    exact h.1

/-- An entry that `take_due` takes was in the table, and its time is over. -/
theorem mem_dueEntries {t : ContentBfFallbackTable} {it : Iteration} {now : ℤ} {e : Entry}
    (h : e ∈ t.dueEntries it now) :
    (∃ k, t.entries.lookup k = some e) ∧ e.deadline ≤ now := by
  unfold dueEntries at h
  split_ifs at h with hwindow
  · exact absurd h List.not_mem_nil
  · obtain ⟨⟨k, e'⟩, hmem, rfl⟩ := List.mem_map.mp h
    obtain ⟨hmem, hdue⟩ := List.mem_filter.mp hmem
    exact ⟨⟨k, Cxx.lookup_eq_some_iff.mpr (it.mem_order.mp hmem)⟩, by simpa using hdue⟩

end ContentBfFallbackTable

end Netos
