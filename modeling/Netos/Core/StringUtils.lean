import Netos.Lib.Blanks
import Netos.Lib.CString
import Netos.Lib.Delimited

/-!
# String utilities

`split` and `trim` of `core/string_utils.cpp`. The loop of `split` carries the finished parts and
the current one (`splitStep`), and `split_eq_filter` says that it computes `List.splitOn`, whose
laws the wire decoder's proofs use, without the empty fields if these are skipped. `trim` is
`Blanks.strip` for the white space of the C locale.
-/

namespace Netos

open CString

/-- `|`, the delimiter of the wire format. -/
abbrev bar : UInt8 := 124

/-- One character of the loop of `split`: the finished parts and the current part. -/
def splitStep (delim : UInt8) (skip_empty : Bool) (acc : List Bytes × Bytes) (ch : UInt8) :
    List Bytes × Bytes :=
  if ch == delim then
    (if !acc.2.isEmpty || !skip_empty then acc.1 ++ [acc.2] else acc.1, [])
  else (acc.1, acc.2 ++ [ch])

/-- `split`: the loop, then the last part. -/
def split (input : Bytes) (delim : UInt8) (skip_empty : Bool) : List Bytes :=
  let acc := input.foldl (splitStep delim skip_empty) ([], [])
  if !acc.2.isEmpty || !skip_empty then acc.1 ++ [acc.2] else acc.1

/-- The loop and the last part, from any point: the finished parts stay, and the fields of the rest
follow, the current part at the front of the first, without the empty ones if these are skipped. -/
theorem foldl_splitStep (delim : UInt8) (skip_empty : Bool) (input : Bytes) (parts : List Bytes)
    (current : Bytes) :
    (if !(input.foldl (splitStep delim skip_empty) (parts, current)).2.isEmpty || !skip_empty then
        (input.foldl (splitStep delim skip_empty) (parts, current)).1 ++
          [(input.foldl (splitStep delim skip_empty) (parts, current)).2]
      else (input.foldl (splitStep delim skip_empty) (parts, current)).1) =
      parts ++ ((input.splitOn delim).modifyHead (current ++ ·)).filter
        fun part => !part.isEmpty || !skip_empty := by
  induction input generalizing parts current with
  | nil =>
    rw [List.foldl_nil, List.splitOn_nil, List.modifyHead_cons, List.append_nil,
      List.filter_cons, List.filter_nil]
    split_ifs
    · rfl
    · rw [List.append_nil]
  | cons ch input ih =>
    rw [List.foldl_cons, List.splitOn_cons_eq_if_modifyHead]
    obtain ⟨f, fs, hf⟩ := List.exists_cons_of_ne_nil (List.splitOn_ne_nil delim input)
    by_cases h : (ch == delim) = true
    · -- A delimiter finishes the current part, which stays unless it is empty and skipped.
      have hstep : splitStep delim skip_empty (parts, current) ch =
          (if !current.isEmpty || !skip_empty then parts ++ [current] else parts, []) := by
        rw [splitStep, if_pos h]
      rw [hstep, ih, if_pos h, hf, List.modifyHead_cons, List.modifyHead_cons, List.nil_append,
        List.append_nil, List.filter_cons (x := current)]
      split_ifs
      · rw [List.append_assoc, List.singleton_append]
      · rfl
    · -- Any other character goes to the end of it.
      have hstep : splitStep delim skip_empty (parts, current) ch = (parts, current ++ [ch]) := by
        rw [splitStep, if_neg h]
      rw [hstep, ih, if_neg h, hf, List.modifyHead_cons, List.modifyHead_cons,
        List.modifyHead_cons, List.append_assoc, List.singleton_append]

/-- `split` returns the fields, without the empty ones if these are skipped. -/
theorem split_eq_filter (input : Bytes) (delim : UInt8) (skip_empty : Bool) :
    split input delim skip_empty =
      (input.splitOn delim).filter fun part => !part.isEmpty || !skip_empty := by
  have h := foldl_splitStep delim skip_empty input [] []
  obtain ⟨f, fs, hf⟩ := List.exists_cons_of_ne_nil (List.splitOn_ne_nil delim input)
  rw [hf, List.modifyHead_cons, List.nil_append, List.nil_append] at h
  rw [hf]
  exact h

/-- With empty parts kept, `split` is the library's `splitOn`. -/
theorem split_eq_splitOn (input : Bytes) (delim : UInt8) :
    split input delim false = input.splitOn delim := by
  rw [split_eq_filter]
  exact List.filter_eq_self.mpr fun part _ => Bool.or_true _

/-- Without empty parts, `split` returns the nonempty fields. -/
theorem split_skip_empty (input : Bytes) (delim : UInt8) :
    split input delim true = (input.splitOn delim).filter (!·.isEmpty) := by
  rw [split_eq_filter]
  exact List.filter_congr fun part _ => Bool.or_false _

/-- `split` is the inverse of joining. Keeping the empty parts, it returns the one list that has one
part more than the string has delimiters, whose parts do not contain the delimiter, and that joined
with the delimiter gives the string back; skipping them, it returns this list without its empty
parts, in the same order. -/
theorem split_inverse_of_join (input : Bytes) (delim : UInt8) :
    (∀ parts, parts = split input delim false ↔ parts.length = input.count delim + 1 ∧
      (∀ part ∈ parts, delim ∉ part) ∧ [delim].intercalate parts = input) ∧
    split input delim true = (split input delim false).filter (!·.isEmpty) := by
  refine ⟨fun parts => ?_, by rw [split_skip_empty, split_eq_splitOn]⟩
  rw [split_eq_splitOn]
  constructor
  · rintro rfl
    exact ⟨Delimited.length_splitOn delim input,
      fun part hpart => Delimited.not_mem_of_mem_splitOn hpart, List.intercalate_splitOn delim⟩
  · rintro ⟨hlength, hfree, hjoin⟩
    -- There is a part, so the parts are found again in what they were joined to.
    have hne : parts ≠ [] := by
      rintro rfl
      simp at hlength
    rw [← hjoin, List.splitOn_intercalate delim hfree hne]

/-- `trim`. -/
def trim (input : Bytes) : Bytes := Blanks.strip isSpace input

example : split (ascii "a,,b") 44 false = [ascii "a", ascii "", ascii "b"] := by decide

end Netos
