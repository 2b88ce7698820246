import Mathlib.Data.List.Basic

/-!
# Fields between delimiters

What a parser of delimited fields needs about `List.splitOn` besides the two inversion laws of the
library (`List.intercalate_splitOn` and `List.splitOn_intercalate`): the fields do not contain the
delimiter, so the fields of any text can be joined and split again, there is one more of them than
delimiters, and a text can be cut after any number of them. A text is determined by what stands
before and after its last delimiter (`append_cons_inj_of_last`).

Where several characters end a line, the lines are those of `List.splitOnP`. `splitOnP_eq_flatMap`
compares two notions of a line end, and `filterMap_lines` and `filterMap_splitOnP_append` say that a
reader who skips empty lines does not see line ends at the end of a text, so that he finds the lines
of which a text was joined (`filterMap_splitOn_joined`).
-/

namespace Delimited

variable {α : Type*} [BEq α] [LawfulBEq α]

/-- No field contains the delimiter. -/
theorem not_mem_of_mem_splitOn {d : α} {xs l : List α} (h : l ∈ xs.splitOn d) : d ∉ l := by
  induction xs generalizing l with
  | nil => simp_all
  | cons x xs ih =>
    rw [List.splitOn_cons_eq_if_modifyHead] at h
    split_ifs at h with hx
    · rcases List.mem_cons.mp h with rfl | h
      · exact List.not_mem_nil
      · exact ih h
    · -- `x` goes to the front of the first field of the rest.
      obtain ⟨f, fs, hf⟩ := List.exists_cons_of_ne_nil (List.splitOn_ne_nil d xs)
      rw [hf, List.modifyHead_cons] at h
      rcases List.mem_cons.mp h with rfl | h
      · rw [List.mem_cons, not_or]
        exact ⟨fun e => hx (by simp [e]), ih (by simp [hf])⟩
      · exact ih (by simp [hf, h])

omit [LawfulBEq α] in
/-- The fields of a text and a continuation: all fields of the text but the last, which goes on. -/
theorem splitOn_append (d : α) (xs ys : List α) :
    (xs ++ ys).splitOn d = (xs.splitOn d).dropLast ++
      (ys.splitOn d).modifyHead ((xs.splitOn d).getLast (List.splitOn_ne_nil d xs) ++ ·) := by
  induction xs with
  | nil =>
    obtain ⟨f, fs, hf⟩ := List.exists_cons_of_ne_nil (List.splitOn_ne_nil d ys)
    simp [hf]
  | cons x xs ih =>
    -- `x` goes to the front of the first field, which is also the last when there is no other.
    obtain ⟨f, fs, hf⟩ := List.exists_cons_of_ne_nil (List.splitOn_ne_nil d xs)
    simp only [List.cons_append, List.splitOn_cons_eq_if_modifyHead, ih]
    split_ifs with hx
    · simp [hf]
    · cases fs with
      | nil =>
        obtain ⟨g, gs, hg⟩ := List.exists_cons_of_ne_nil (List.splitOn_ne_nil d ys)
        simp [hf, hg]
      | cons f' fs => simp [hf]

omit [LawfulBEq α] in
/-- The fields of the front of a text are those of the text, up to the last one, which goes on. -/
theorem exists_splitOn_append (d : α) (xs ys : List α) :
    ∃ fields last u us, xs.splitOn d = fields ++ [last] ∧
      (xs ++ ys).splitOn d = fields ++ (last ++ u) :: us := by
  obtain ⟨u, us, hu⟩ := List.exists_cons_of_ne_nil (List.splitOn_ne_nil d ys)
  refine ⟨_, _, u, us, (List.dropLast_append_getLast (List.splitOn_ne_nil d xs)).symm, ?_⟩
  rw [splitOn_append, hu, List.modifyHead_cons]

omit [LawfulBEq α] in
/-- There is one field more than delimiters. -/
theorem length_splitOn (d : α) (xs : List α) : (xs.splitOn d).length = xs.count d + 1 := by
  induction xs with
  | nil => simp
  | cons x xs ih =>
    rw [List.splitOn_cons_eq_if_modifyHead, List.count_cons]
    split_ifs with hx
    · rw [List.length_cons, ih]
    · rw [List.length_modifyHead, ih, Nat.add_zero]

/-- A text with more than `n` delimiters can be cut at one that `n` others precede. -/
theorem exists_cut_of_lt_count {d : α} {n : ℕ} {xs : List α} (h : n < xs.count d) :
    ∃ ys zs, xs = ys ++ d :: zs ∧ ys.count d = n := by
  induction xs generalizing n with
  | nil => simp at h
  | cons x xs ih =>
    rw [List.count_cons] at h
    split_ifs at h with hx
    · obtain rfl : x = d := by simpa using hx
      cases n with
      | zero => exact ⟨[], xs, rfl, List.count_nil⟩
      | succ n =>
        obtain ⟨ys, zs, rfl, hcount⟩ := ih (Nat.lt_of_succ_lt_succ h)
        exact ⟨x :: ys, zs, rfl, by rw [List.count_cons_self, hcount]⟩
    · obtain ⟨ys, zs, rfl, hcount⟩ := ih h
      exact ⟨x :: ys, zs, rfl, by rw [List.count_cons, if_neg hx, hcount, Nat.add_zero]⟩

omit [BEq α] [LawfulBEq α] in
/-- The last delimiter of a text separates it in one way only. -/
theorem append_cons_inj_of_last {d : α} {xs ys xs' ys' : List α} (h : d ∉ ys) (h' : d ∉ ys') :
    xs ++ d :: ys = xs' ++ d :: ys' ↔ xs = xs' ∧ ys = ys' := by
  refine ⟨fun heq => ?_, fun ⟨hxs, hys⟩ => by rw [hxs, hys]⟩
  rcases List.append_eq_append_iff.mp heq with ⟨zs, rfl, hzs⟩ | ⟨zs, rfl, hzs⟩
  · cases zs with
    | nil => exact ⟨(List.append_nil xs).symm, (List.cons.inj hzs).2⟩
    | cons z zs =>
      -- The delimiter of the other text would stand in `ys`.
      obtain ⟨rfl, rfl⟩ := List.cons.inj hzs
      exact absurd (List.mem_append_right zs List.mem_cons_self) h
  · cases zs with
    | nil => exact ⟨List.append_nil xs', (List.cons.inj hzs).2.symm⟩
    | cons z zs =>
      obtain ⟨rfl, rfl⟩ := List.cons.inj hzs
      exact absurd (List.mem_append_right zs List.mem_cons_self) h'

/-! ## Lines -/

section Lines

variable {β γ : Type*} {p : β → Bool} {f : List β → Option γ}

/-- The first field is the text before the first delimiter. -/
theorem exists_splitOnP (p : β → Bool) (xs : List β) :
    ∃ fs, xs.splitOnP p = xs.takeWhile (fun x => !p x) :: fs := by
  induction xs with
  | nil => exact ⟨[], rfl⟩
  | cons x xs ih =>
    obtain ⟨fs, hfs⟩ := ih
    rw [List.splitOnP_cons_eq_if_modifyHead, List.takeWhile_cons, hfs]
    cases hx : p x with
    | true => exact ⟨_, rfl⟩
    | false => exact ⟨fs, rfl⟩

/-- A field is a part of the text. -/
theorem infix_of_mem_splitOnP {xs l : List β} (h : l ∈ xs.splitOnP p) : l <:+: xs := by
  induction xs generalizing l with
  | nil =>
    obtain rfl := List.mem_singleton.mp h
    exact List.infix_rfl
  | cons x xs ih =>
    obtain ⟨fs, hfs⟩ := exists_splitOnP p xs
    rw [List.splitOnP_cons_eq_if_modifyHead] at h
    have hrest : ∀ {l}, l ∈ xs.splitOnP p → l <:+: x :: xs := fun hl =>
      (ih hl).trans (List.suffix_cons x xs).isInfix
    split_ifs at h with hx
    · rcases List.mem_cons.mp h with rfl | h
      · exact List.nil_infix
      · exact hrest h
    · rw [hfs, List.modifyHead_cons] at h
      rcases List.mem_cons.mp h with rfl | h
      · exact (List.prefix_cons_inj x |>.mpr (List.takeWhile_prefix _)).isInfix
      · exact hrest (by rw [hfs]; exact List.mem_cons_of_mem _ h)

/-- Splitting at one delimiter first and then at all of them is splitting at all of them. -/
theorem splitOnP_eq_flatMap [BEq β] [LawfulBEq β] {d : β} (hd : p d = true) (xs : List β) :
    xs.splitOnP p = (xs.splitOn d).flatMap (·.splitOnP p) := by
  induction xs with
  | nil => rfl
  | cons x xs ih =>
    obtain ⟨f, fs, hf⟩ := List.exists_cons_of_ne_nil (List.splitOn_ne_nil d xs)
    rw [List.splitOnP_cons_eq_if_modifyHead, List.splitOn_cons_eq_if_modifyHead, ih, hf]
    by_cases hx : (x == d) = true
    · obtain rfl : x = d := by simpa using hx
      rw [if_pos hd, if_pos hx]
      rfl
    · rw [if_neg hx, List.modifyHead_cons, List.flatMap_cons, List.flatMap_cons,
        List.splitOnP_cons_eq_if_modifyHead]
      obtain ⟨gs, hgs⟩ := exists_splitOnP p f
      rw [hgs]
      split_ifs <;> rfl

/-- A reader who skips empty lines does not see an empty last line. -/
theorem filterMap_lines [DecidableEq β] (hf : f [] = none) (lines : List (List β)) :
    (if lines.getLast? = some [] then lines.dropLast else lines).filterMap f =
      lines.filterMap f := by
  split_ifs with hlast
  · obtain ⟨init, rfl⟩ := List.getLast?_eq_some_iff.mp hlast
    rw [List.dropLast_concat, List.filterMap_append, List.filterMap_cons, hf, List.filterMap_nil,
      List.append_nil]
  · rfl

/-- Nor does he see delimiters at the end of a text. -/
theorem filterMap_splitOnP_append (hf : f [] = none) (xs : List β) {ys : List β}
    (hys : ∀ y ∈ ys, p y = true) :
    ((xs ++ ys).splitOnP p).filterMap f = (xs.splitOnP p).filterMap f := by
  induction ys generalizing xs with
  | nil => rw [List.append_nil]
  | cons y ys ih =>
    obtain ⟨hy, hys⟩ := List.forall_mem_cons.mp hys
    have hrest := ih [] hys
    rw [List.nil_append] at hrest
    rw [List.splitOnP_append_cons _ _ hy, List.filterMap_append, hrest]
    simp [hf]

/-- He finds the lines of a text that was joined of them, with a line end after the last or not. -/
theorem filterMap_splitOn_joined [BEq β] [LawfulBEq β] (hf : f [] = none) {d : β}
    {lines : List (List β)} (hlines : ∀ line ∈ lines, d ∉ line) (final : Bool) :
    (([d].intercalate lines ++ if final then [d] else []).splitOn d).filterMap f =
      lines.filterMap f := by
  have hends : ∀ y ∈ (if final then [d] else []), (y == d) = true := by
    cases final with
    | false => exact List.forall_mem_nil _
    | true => simp
  have hjoined := filterMap_splitOnP_append hf ([d].intercalate lines) hends
  rw [← List.splitOn_eq_splitOnP, ← List.splitOn_eq_splitOnP] at hjoined
  rw [hjoined]
  cases lines with
  | nil =>
    -- The empty text has one empty field.
    rw [List.intercalate_nil, List.splitOn_nil]
    simp [hf]
  | cons line lines => rw [List.splitOn_intercalate d hlines (List.cons_ne_nil line lines)]

end Lines

end Delimited
