import Mathlib.Data.List.Dedup

/-!
# Recency

Least-recently-used orders. `recent` lists the distinct elements of a sequence of uses, the most
recently used first; one use more moves its element to the front (`recent_concat`). A cache that
keeps the first elements of that list only can be kept up without the others: the front of the list
after a use depends on its front before (`take_touch`).
-/

namespace Recency

variable {κ : Type*} [DecidableEq κ]

/-- An element moves to the front. -/
def touch (k : κ) (l : List κ) : List κ := k :: l.filter (· ≠ k)

/-- The distinct elements of a sequence, the one whose last occurrence is last first. -/
def recent (uses : List κ) : List κ := uses.dedup.reverse

/-- Each element is listed once. -/
theorem nodup_recent (uses : List κ) : (recent uses).Nodup :=
  List.nodup_reverse.mpr (List.nodup_dedup uses)

/-- The last occurrences in a sequence with one element more. -/
theorem dedup_concat (uses : List κ) (k : κ) :
    (uses ++ [k]).dedup = uses.dedup.filter (· ≠ k) ++ [k] := by
  induction uses with
  | nil => rfl
  | cons a uses ih =>
    rw [List.cons_append]
    by_cases ha : a ∈ uses
    · rw [List.dedup_cons_of_mem ha, List.dedup_cons_of_mem (List.mem_append_left _ ha), ih]
    · rw [List.dedup_cons_of_notMem ha]
      by_cases hk : a = k
      · -- This occurrence is not the last.
        subst hk
        have hlast : a ∈ uses ++ [a] := List.mem_append_right _ List.mem_cons_self
        rw [List.dedup_cons_of_mem hlast, ih, List.filter_cons_of_neg (by simp)]
      · have hlast : a ∉ uses ++ [k] := by
          rw [List.mem_append, List.mem_singleton]
          exact not_or.mpr ⟨ha, hk⟩
        rw [List.dedup_cons_of_notMem hlast, ih, List.filter_cons_of_pos (by simpa using hk),
          List.cons_append]

/-- One use more moves its element to the front. -/
theorem recent_concat (uses : List κ) (k : κ) :
    recent (uses ++ [k]) = touch k (recent uses) := by
  rw [recent, dedup_concat, List.reverse_append, List.reverse_singleton, List.singleton_append,
    ← List.filter_reverse, touch, recent]

/-- An element that is not listed is put in front. -/
theorem touch_of_notMem {k : κ} {l : List κ} (h : k ∉ l) : touch k l = k :: l := by
  rw [touch, List.filter_eq_self.mpr fun a ha => by simpa using ne_of_mem_of_not_mem ha h]

/-- Without one element, the front of a list of distinct elements is that of a front one longer. -/
theorem take_filter_ne {l : List κ} (h : l.Nodup) (k : κ) (n : ℕ) :
    (l.filter (· ≠ k)).take n = ((l.take (n + 1)).filter (· ≠ k)).take n := by
  induction l generalizing n with
  | nil => rw [List.take_nil]
  | cons a l ih =>
    obtain ⟨hnotin, hl⟩ := List.nodup_cons.mp h
    rw [List.take_succ_cons]
    by_cases ha : a = k
    · -- The element occurs here only.
      subst ha
      have hrest : l.filter (· ≠ a) = l :=
        List.filter_eq_self.mpr fun b hb => by simpa using ne_of_mem_of_not_mem hb hnotin
      have hfront : (l.take n).filter (· ≠ a) = l.take n :=
        List.filter_eq_self.mpr fun b hb => by
          simpa using ne_of_mem_of_not_mem (List.mem_of_mem_take hb) hnotin
      rw [List.filter_cons_of_neg (by simp), List.filter_cons_of_neg (by simp), hrest, hfront,
        List.take_take, Nat.min_self]
    · rw [List.filter_cons_of_pos (by simpa using ha), List.filter_cons_of_pos (by simpa using ha)]
      cases n with
      | zero => rfl
      | succ n => rw [List.take_succ_cons, List.take_succ_cons, ih hl]

/-- The front of a list after a use depends on its front before. -/
theorem take_touch {l : List κ} (h : l.Nodup) (k : κ) (n : ℕ) :
    (touch k l).take n = (touch k (l.take n)).take n := by
  cases n with
  | zero => rfl
  | succ n => rw [touch, touch, List.take_succ_cons, List.take_succ_cons, take_filter_ne h]

/-- A use keeps the elements distinct. -/
theorem nodup_touch {l : List κ} (h : l.Nodup) (k : κ) : (touch k l).Nodup := by
  rw [touch, List.nodup_cons]
  exact ⟨by simp, h.filter _⟩

/-- A list with a listed element in front is as long as before. -/
theorem length_touch_of_mem {l : List κ} (h : l.Nodup) {k : κ} (hk : k ∈ l) :
    (touch k l).length = l.length := by
  have herase : l.filter (· ≠ k) = l.erase k := by
    rw [h.erase_eq_filter]
    exact List.filter_congr fun a _ => Bool.eq_iff_iff.mpr (by simp)
  rw [touch, herase, List.length_cons, List.length_erase_of_mem hk]
  exact Nat.sub_add_cancel (List.length_pos_of_mem hk)

end Recency
