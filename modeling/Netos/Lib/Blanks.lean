import Mathlib.Data.List.DropRight
import Netos.Lib.Delimited

/-!
# Stripping blanks

A text without the blanks at its two ends, where a predicate says which characters are blank.
Blanks that are added at an end change nothing (`strip_blank_append`, `strip_append_blank`), and a
text without blanks at its ends is found again between blanks (`strip_padded`). Stripping a text
changes its fields by blanks only (`map_strip_splitOn`).
-/

namespace Blanks

variable {α : Type*}

/-- The text without the blanks at its ends. -/
def strip (blank : α → Bool) (s : List α) : List α := (s.dropWhile blank).rdropWhile blank

variable {blank : α → Bool}

/-- The blanks at the ends, and the text between them. -/
theorem exists_ends (blank : α → Bool) (s : List α) :
    ∃ front back, s = front ++ (strip blank s ++ back) ∧ (∀ c ∈ front, blank c = true) ∧
      ∀ c ∈ back, blank c = true :=
  ⟨s.takeWhile blank, (s.dropWhile blank).rtakeWhile blank,
    by rw [strip, List.rdropWhile_append_rtakeWhile, List.takeWhile_append_dropWhile],
    fun _ => List.mem_takeWhile_imp, fun _ => List.mem_rtakeWhile_imp⟩

/-- What is left does not start with a blank. -/
theorem not_blank_of_head?_strip {s : List α} {c : α} (h : (strip blank s).head? = some c) :
    blank c = false := by
  obtain ⟨back, hback⟩ := List.rdropWhile_prefix blank (s.dropWhile blank)
  have hfirst := List.head?_dropWhile_not blank s
  rw [strip] at h
  rwa [← hback, List.head?_append, h] at hfirst

/-- Nothing is left of blanks only. -/
theorem strip_eq_nil_iff {s : List α} : strip blank s = [] ↔ ∀ c ∈ s, blank c = true := by
  rw [strip, List.rdropWhile_eq_nil_iff]
  refine ⟨fun h c hc => ?_, fun h c hc => h c ((List.dropWhile_suffix _).subset hc)⟩
  rw [← List.takeWhile_append_dropWhile (p := blank) (l := s)] at hc
  exact (List.mem_append.mp hc).elim List.mem_takeWhile_imp (h c)

/-- Blanks at the front change nothing. -/
theorem strip_blank_append {front : List α} (h : ∀ c ∈ front, blank c = true) (s : List α) :
    strip blank (front ++ s) = strip blank s := by
  rw [strip, strip, List.dropWhile_append_of_pos h]

/-- Blanks at the end change nothing. -/
theorem strip_append_blank {back : List α} (h : ∀ c ∈ back, blank c = true) (s : List α) :
    strip blank (s ++ back) = strip blank s := by
  induction back using List.reverseRecOn with
  | nil => rw [List.append_nil]
  | append_singleton back c ih =>
    have hc : blank c = true := h c (by simp)
    have hback : ∀ d ∈ back, blank d = true := fun d hd => h d (by simp [hd])
    rw [← ih hback, ← List.append_assoc, strip, strip, List.dropWhile_append]
    split_ifs with hnil
    · -- Only blanks stand before the last one.
      rw [List.isEmpty_iff] at hnil
      rw [hnil, List.dropWhile_cons, if_pos hc]
      rfl
    · rw [List.rdropWhile_concat_pos _ _ _ hc]

/-- A text without blanks at its ends is left as it is. -/
theorem strip_eq_self {s : List α} (hfirst : ∀ c, s.head? = some c → blank c = false)
    (hlast : ∀ c, s.getLast? = some c → blank c = false) : strip blank s = s := by
  have hdrop : s.dropWhile blank = s := by
    cases s with
    | nil => rfl
    | cons c s => rw [List.dropWhile_cons, hfirst c rfl, if_neg Bool.false_ne_true]
  rw [strip, hdrop, List.rdropWhile_eq_self_iff]
  intro hne
  rw [hlast _ (List.getLast?_eq_some_getLast hne)]
  exact Bool.false_ne_true

/-- Such a text between blanks. -/
theorem strip_padded {front s back : List α} (hfront : ∀ c ∈ front, blank c = true)
    (hfirst : ∀ c, s.head? = some c → blank c = false)
    (hlast : ∀ c, s.getLast? = some c → blank c = false) (hback : ∀ c ∈ back, blank c = true) :
    strip blank (front ++ (s ++ back)) = s := by
  rw [strip_blank_append hfront, strip_append_blank hback, strip_eq_self hfirst hlast]

/-- A text that does not start with a blank starts as before. -/
theorem strip_cons_of_not_blank {c : α} (hc : blank c = false) (s : List α) :
    ∃ t, strip blank (c :: s) = c :: t := by
  have hdrop : (c :: s).dropWhile blank = c :: s := by
    rw [List.dropWhile_cons, hc, if_neg Bool.false_ne_true]
  obtain ⟨t, ht⟩ := List.rdropWhile_prefix blank (c :: s)
  rw [strip, hdrop]
  cases hrest : (c :: s).rdropWhile blank with
  | nil =>
    -- The first character is no blank, so something is left.
    have hblank := List.rdropWhile_eq_nil_iff.mp hrest c List.mem_cons_self
    exact absurd (hc.symm.trans hblank) Bool.false_ne_true
  | cons d u =>
    rw [hrest, List.cons_append] at ht
    exact ⟨u, by rw [(List.cons.inj ht).1]⟩

/-- The fields of a stripped text are those of the text, up to blanks. -/
theorem map_strip_splitOn [BEq α] [LawfulBEq α] {d : α} (hd : blank d = false) (s : List α) :
    ((strip blank s).splitOn d).map (strip blank) = (s.splitOn d).map (strip blank) := by
  obtain ⟨front, back, hs, hfront, hback⟩ := exists_ends blank s
  have hnotin : ∀ {b : List α}, (∀ c ∈ b, blank c = true) → d ∉ b := fun hb hmem =>
    Bool.false_ne_true (hd.symm.trans (hb d hmem))
  have hne := List.splitOn_ne_nil d (strip blank s)
  conv_rhs => rw [hs]
  rw [Delimited.splitOn_append, Delimited.splitOn_append]
  simp only [List.splitOn_eq_singleton (hnotin hfront), List.splitOn_eq_singleton (hnotin hback)]
  conv_lhs => rw [← List.dropLast_append_getLast hne]
  cases hinit : ((strip blank s).splitOn d).dropLast with
  | nil => simp [strip_blank_append hfront, strip_append_blank hback]
  | cons f fs => simp [strip_blank_append hfront, strip_append_blank hback]

end Blanks
