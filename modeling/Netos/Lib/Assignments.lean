import Netos.Lib.Blanks

/-!
# Assignments in lines

The lines `key = value` of a file of settings, where a predicate says which characters are blank.
`Assigns` says on the text of a line what it assigns to a key, and `assigns_iff` that a parser who
strips the line, cuts it at its first `=` and strips the key finds just that. What a file gives is
what its last line for the key gives (`LastOf`), and two readers of the lines find the same if the
last line in which either of them finds something gives them the same (`getLast?_flatMap_eq`).
A reader who does not see blanks at the ends of a line sees only the middle of a text that has no
line end between its blanks (`filterMap_splitOnP_padded`).
-/

namespace Assignments

variable {α β γ : Type*}

/-! ## Lines -/

/-- A text assigns a value to a key: without the blanks around it, it is the key, blanks, the sign
of an assignment and the value. -/
def Assigns (blank : α → Bool) (sign : α) (key value line : List α) : Prop :=
  ∃ gap, (∀ c ∈ gap, blank c = true) ∧ Blanks.strip blank line = key ++ (gap ++ sign :: value)

/-- A key that a line can assign to: a word without blanks and without the sign. -/
structure Word (blank : α → Bool) (sign : α) (key : List α) : Prop where
  /-- There is something. -/
  ne_nil : key ≠ []
  /-- It has no blanks and no sign. -/
  plain : ∀ c ∈ key, blank c = false ∧ c ≠ sign

variable {blank : α → Bool} {sign : α} {key value line : List α}

/-- A line that assigns to a key starts with it but for blanks. -/
theorem Assigns.head?_eq (hkey : key ≠ []) (h : Assigns blank sign key value line) :
    (Blanks.strip blank line).head? = key.head? := by
  obtain ⟨gap, -, hline⟩ := h
  rw [hline, List.head?_append_of_ne_nil _ hkey]

/-- A parser who strips the line, cuts it at its first sign and strips the key finds the key and the
value. -/
theorem assigns_iff [BEq α] [LawfulBEq α] (hkey : Word blank sign key)
    (hsign : blank sign = false) : Assigns blank sign key value line ↔
      Blanks.strip blank ((Blanks.strip blank line).takeWhile (· != sign)) = key ∧
        (Blanks.strip blank line).dropWhile (· != sign) = sign :: value := by
  constructor
  · rintro ⟨gap, hgap, hline⟩
    have hfront : ∀ c ∈ key ++ gap, (c != sign) = true := fun c hc => by
      rw [bne_iff_ne]
      rcases List.mem_append.mp hc with hc | hc
      · exact (hkey.plain c hc).2
      · rintro rfl
        exact absurd (hgap _ hc) (by rw [hsign]; exact Bool.false_ne_true)
    have hstrip : Blanks.strip blank (key ++ gap) = key :=
      Blanks.strip_padded (List.forall_mem_nil _)
        (fun c hc => (hkey.plain c (List.mem_of_mem_head? hc)).1)
        (fun c hc => (hkey.plain c (List.mem_of_getLast? hc)).1) hgap
    have hstop : (sign != sign) = false := bne_self_eq_false _
    rw [hline, ← List.append_assoc, List.takeWhile_append_of_pos hfront,
      List.dropWhile_append_of_pos hfront, List.takeWhile_cons, List.dropWhile_cons, hstop]
    exact ⟨by rw [if_neg Bool.false_ne_true, List.append_nil, hstrip], rfl⟩
  · rintro ⟨hstrip, hvalue⟩
    obtain ⟨front, back, hends, hfront, hback⟩ :=
      Blanks.exists_ends blank ((Blanks.strip blank line).takeWhile (· != sign))
    rw [hstrip] at hends
    have hline : Blanks.strip blank line = front ++ (key ++ back) ++ sign :: value := by
      rw [← hends, ← hvalue, List.takeWhile_append_dropWhile]
    -- A stripped line does not start with a blank.
    obtain rfl : front = [] := by
      cases front with
      | nil => rfl
      | cons c front =>
        have hc : blank c = false := Blanks.not_blank_of_head?_strip (by rw [hline]; rfl)
        exact absurd (hfront c List.mem_cons_self) (by rw [hc]; exact Bool.false_ne_true)
    exact ⟨back, hback, by rw [hline, List.nil_append, List.append_assoc]⟩

/-! ## The last line -/

/-- What the last of the lines that give something gives, nothing if none does. -/
def LastOf (gives : α → β → Prop) (lines : List α) : Option β → Prop
  | none => ∀ line ∈ lines, ∀ value, ¬ gives line value
  | some value => ∃ before line after, lines = before ++ line :: after ∧ gives line value ∧
      ∀ l ∈ after, ∀ v, ¬ gives l v

/-- It is what a loop over the lines finds, when a later line overrides an earlier one. -/
theorem lastOf_iff {gives : α → β → Prop} {f : α → Option β}
    (hf : ∀ line value, f line = some value ↔ gives line value) (lines : List α)
    (value : Option β) : LastOf gives lines value ↔ (lines.filterMap f).getLast? = value := by
  have hnone : ∀ line, (∀ v, ¬ gives line v) ↔ f line = none := fun line => by
    rw [Option.eq_none_iff_forall_ne_some]
    exact forall_congr' fun v => (hf line v).symm.not
  rw [List.getLast?_filterMap]
  cases value with
  | none =>
    rw [List.findSome?_eq_none_iff]
    exact ⟨fun h line hline => (hnone line).mp (h line (List.mem_reverse.mp hline)),
      fun h line hline => (hnone line).mpr (h line (List.mem_reverse.mpr hline))⟩
  | some value =>
    rw [List.findSome?_eq_some_iff]
    constructor
    · rintro ⟨before, line, after, rfl, hline, hafter⟩
      exact ⟨after.reverse, line, before.reverse, by simp, (hf line value).mpr hline,
        fun l hl => (hnone l).mp (hafter l (List.mem_reverse.mp hl))⟩
    · rintro ⟨after, line, before, hlines, hline, hafter⟩
      refine ⟨before.reverse, line, after.reverse, ?_, (hf line value).mp hline,
        fun l hl => (hnone l).mpr (hafter l (List.mem_reverse.mp hl))⟩
      rw [← List.reverse_reverse lines, hlines]
      simp

/-- Two readers of the lines, one of whom may find several things in a line, find the same in the
end if they find the same in the last line in which either finds something. -/
theorem getLast?_flatMap_eq {f : α → List β} {g : α → Option γ} {e : β → γ} {lines : List α}
    (h : ∀ before line after, lines = before ++ line :: after → f line ≠ [] ∨ g line ≠ none →
      (∀ l ∈ after, f l = [] ∧ g l = none) → (f line).map e = (g line).toList) :
    (lines.flatMap f).getLast?.map e = (lines.filterMap g).getLast? := by
  induction lines using List.reverseRecOn with
  | nil => rfl
  | append_singleton lines line ih =>
    rw [List.flatMap_append, List.filterMap_append, List.flatMap_cons, List.flatMap_nil,
      List.append_nil, List.filterMap_cons, List.filterMap_nil]
    by_cases hfound : f line ≠ [] ∨ g line ≠ none
    · have hsame := h lines line [] rfl hfound (List.forall_mem_nil _)
      cases hg : g line with
      | none =>
        -- Then the first reader finds nothing in the line either.
        rw [hg, Option.toList_none, List.map_eq_nil_iff] at hsame
        exact absurd hfound (by simp [hsame, hg])
      | some v =>
        rw [hg, Option.toList_some] at hsame
        obtain ⟨b, hb, rfl⟩ := List.map_eq_singleton_iff.mp hsame
        rw [hb, List.getLast?_concat, List.getLast?_concat, Option.map_some]
    · rw [not_or, not_not, not_not] at hfound
      rw [hfound.1, hfound.2, List.append_nil, List.append_nil]
      refine ih fun before l after hlines hl hafter => ?_
      refine h before l (after ++ [line]) (by rw [hlines]; simp) hl fun l' hl' => ?_
      rcases List.mem_append.mp hl' with hl' | hl'
      · exact hafter l' hl'
      · obtain rfl := List.mem_singleton.mp hl'
        exact hfound

/-! ## Blanks and line ends around a line -/

section Pieces

variable {p : α → Bool} {f : List α → Option β}

/-- The pieces of a text whose front has no line end: the front goes to the first piece. -/
theorem splitOnP_append_of_forall {front : List α} (h : ∀ c ∈ front, p c = false) (xs : List α) :
    (front ++ xs).splitOnP p = (xs.splitOnP p).modifyHead (front ++ ·) := by
  obtain ⟨fs, hfs⟩ := Delimited.exists_splitOnP p xs
  induction front with
  | nil =>
    rw [List.nil_append, hfs]
    rfl
  | cons c front ih =>
    obtain ⟨hc, hfront⟩ := List.forall_mem_cons.mp h
    rw [List.cons_append, List.splitOnP_cons_eq_if_modifyHead, hc, if_neg Bool.false_ne_true,
      ih hfront, hfs]
    rfl

variable (hblank : ∀ back : List α, (∀ c ∈ back, blank c = true) → f back = none)
  (hfront : ∀ c xs, blank c = true → f (c :: xs) = f xs)

include hfront hblank in
/-- A reader who does not see blanks at the front of a line sees neither blanks nor line ends at the
front of a text. -/
theorem filterMap_splitOnP_blank_append {front : List α} (h : ∀ c ∈ front, blank c = true)
    (xs : List α) :
    ((front ++ xs).splitOnP p).filterMap f = (xs.splitOnP p).filterMap f := by
  induction front with
  | nil => rfl
  | cons c front ih =>
    obtain ⟨hc, h⟩ := List.forall_mem_cons.mp h
    rw [← ih h, List.cons_append, List.splitOnP_cons_eq_if_modifyHead]
    split_ifs with hend
    · rw [List.filterMap_cons, hblank [] (List.forall_mem_nil _)]
    · obtain ⟨fs, hfs⟩ := Delimited.exists_splitOnP p (front ++ xs)
      rw [hfs, List.modifyHead_cons, List.filterMap_cons, List.filterMap_cons, hfront c _ hc]

include hfront hblank in
/-- A reader who does not see blanks at the ends of a line sees of a text that has no line end
between the blanks around it that text alone. -/
theorem filterMap_splitOnP_padded
    (hback : ∀ xs back, (∀ c ∈ back, blank c = true) → f (xs ++ back) = f xs)
    {front xs back : List α} (hf : ∀ c ∈ front, blank c = true) (hxs : ∀ c ∈ xs, p c = false)
    (hb : ∀ c ∈ back, blank c = true) :
    ((front ++ (xs ++ back)).splitOnP p).filterMap f = (f xs).toList := by
  rw [filterMap_splitOnP_blank_append hblank hfront hf, splitOnP_append_of_forall hxs]
  obtain ⟨fs, hfs⟩ := Delimited.exists_splitOnP p back
  -- The pieces after the first one are blank.
  have hpiece : ∀ piece ∈ back.splitOnP p, ∀ c ∈ piece, blank c = true := fun piece hpiece c hc =>
    hb c ((Delimited.infix_of_mem_splitOnP hpiece).subset hc)
  rw [hfs] at hpiece ⊢
  obtain ⟨hfirst, hrest⟩ := List.forall_mem_cons.mp hpiece
  have hnone : fs.filterMap f = [] :=
    List.filterMap_eq_nil_iff.mpr fun piece hmem => hblank piece (hrest piece hmem)
  rw [List.modifyHead_cons, List.filterMap_cons, hback xs _ hfirst, hnone]
  cases f xs with
  | none => rfl
  | some b => rfl

end Pieces

end Assignments
