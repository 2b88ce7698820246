import Mathlib.Data.List.Induction
import Mathlib.Data.List.TakeWhile
import Mathlib.Tactic.Ring
import Mathlib.Tactic.SplitIfs
import Netos.Lib.Delimited

/-!
# Byte strings and decimal numerals

Strings of bytes as C and C++ programs hold them, printing an integer in decimal, and reading one
back with the conversions of the C standard library. `strtol` and `strtoull` share one scanner,
`scanNumeral`: on the text before the first NUL it skips white space, takes an optional sign, and
takes the longest run of decimal digits. `strtol_intToString` is the round trip, and
`length_natToString_le` compares the length of a printed number with that of any numeral that
denotes a number at least as large. `scanNumeral_eq_some_iff` says which texts the scanner accepts,
and with which integer, in terms of the text alone.
-/

namespace CString

/-- A string of bytes. Any byte may occur in it, NUL included. -/
abbrev Bytes := List UInt8

/-- The bytes of an ASCII literal. -/
def ascii (s : String) : Bytes := s.toList.map fun c => c.toNat.toUInt8

/-- The decimal numeral of a natural number: `std::to_string` of an unsigned integer. -/
def natToString (n : ℕ) : Bytes := (Nat.toDigits 10 n).map fun c => c.toNat.toUInt8

/-- The decimal numeral of an integer: `std::to_string` of a signed integer. -/
def intToString (z : ℤ) : Bytes :=
  if z < 0 then 45 :: natToString z.natAbs else natToString z.natAbs

/-- `std::isspace` in the C locale: the blank and the control characters 9 to 13. -/
def isSpace (c : UInt8) : Bool := c == 32 || (9 ≤ c && c ≤ 13)

/-- A decimal digit. -/
def isDigit (c : UInt8) : Bool := 48 ≤ c && c ≤ 57

/-- What a C function sees of a string: the bytes before the first NUL. -/
def cStr (s : Bytes) : Bytes := s.takeWhile (· != 0)

/-- The number that a run of digits denotes. -/
def digitsValue (ds : Bytes) : ℕ := ds.foldl (fun n c => 10 * n + (c.toNat - 48)) 0

/-- A numeral as the scanner found it: its sign, its digits, and the text after it. -/
structure Numeral where
  /-- A minus sign stands before the digits. -/
  negative : Bool
  /-- The digits, at least one. -/
  digits : Bytes
  /-- The text from the end pointer to the NUL. -/
  rest : Bytes
deriving DecidableEq

/-- The integer that a numeral denotes, of any size. -/
def Numeral.value (n : Numeral) : ℤ :=
  if n.negative then -(digitsValue n.digits : ℤ) else digitsValue n.digits

/-- An optional sign and the text after it. -/
def scanSign : Bytes → Bool × Bytes
  | [] => (false, [])
  | c :: t => if c = 45 then (true, t) else if c = 43 then (false, t) else (false, c :: t)

/-- The common scanner of the `strto*` family in base ten; `none` when no conversion is possible,
where the end pointer is the start of the string. -/
def scanNumeral (s : Bytes) : Option Numeral :=
  let t := scanSign ((cStr s).dropWhile isSpace)
  if t.2.takeWhile isDigit = [] then none
  else some ⟨t.1, t.2.takeWhile isDigit, t.2.dropWhile isDigit⟩

/-- `std::strtol` in base ten with a 64-bit `long`: the value, saturated to the range of `long`, and
the text from the end pointer. -/
def strtol (s : Bytes) : Option (ℤ × Bytes) :=
  (scanNumeral s).map fun n => (max (-2 ^ 63) (min (2 ^ 63 - 1) n.value), n.rest)

/-- `std::strtoull` in base ten: a magnitude from `2^64` on saturates to `2^64 - 1`, and a minus
sign negates the result modulo `2^64`. -/
def strtoull (s : Bytes) : Option (UInt64 × Bytes) :=
  (scanNumeral s).map fun n =>
    (if 2 ^ 64 ≤ digitsValue n.digits then UInt64.ofNat (2 ^ 64 - 1)
      else UInt64.ofInt n.value, n.rest)

/-! ## Printed digits -/

/-- The byte of a decimal digit character. -/
theorem toUInt8_toNat_of_isDigit {c : Char} (h : c.isDigit = true) :
    (c.toNat.toUInt8).toNat = c.toNat ∧ 48 ≤ c.toNat ∧ c.toNat ≤ 57 := by
  have hc : 48 ≤ c.toNat ∧ c.toNat ≤ 57 := by
    simpa [Char.isDigit, Char.le_def, UInt32.le_iff_toNat_le] using h
  refine ⟨?_, hc⟩
  rw [Nat.toUInt8_eq, UInt8.toNat_ofNat']
  omega

/-- The bytes of a printed number are digits. -/
theorem isDigit_of_mem_natToString {n : ℕ} {b : UInt8} (h : b ∈ natToString n) :
    isDigit b = true := by
  obtain ⟨c, hc, rfl⟩ := List.mem_map.mp h
  obtain ⟨hv, h48, h57⟩ := toUInt8_toNat_of_isDigit
    (Nat.isDigit_of_mem_toDigits (by decide) (by decide) hc)
  simp only [isDigit, Bool.and_eq_true, decide_eq_true_eq, UInt8.le_iff_toNat_le, hv]
  exact ⟨h48, h57⟩

/-- A printed number is not empty. -/
theorem natToString_ne_nil (n : ℕ) : natToString n ≠ [] := by
  simp [natToString, Nat.toDigits_ne_nil]

/-- A printed number denotes the number. -/
theorem digitsValue_natToString (n : ℕ) : digitsValue (natToString n) = n := by
  -- The library evaluates the characters of a numeral by the same fold as `digitsValue` the bytes.
  have hfold : ∀ (cs : List Char) (i : ℕ), (∀ c ∈ cs, c.isDigit = true) →
      (cs.map fun c => c.toNat.toUInt8).foldl (fun n c => 10 * n + (c.toNat - 48)) i =
        Nat.ofDigitChars 10 cs i := by
    intro cs
    induction cs with
    | nil => intro i _; simp
    | cons c cs ih =>
      intro i h
      obtain ⟨hv, -, -⟩ := toUInt8_toNat_of_isDigit (h c List.mem_cons_self)
      rw [List.map_cons, List.foldl_cons, Nat.ofDigitChars_cons, hv]
      exact ih _ fun d hd => h d (List.mem_cons_of_mem _ hd)
  rw [digitsValue, natToString, hfold _ _ fun c hc =>
    Nat.isDigit_of_mem_toDigits (by decide) (by decide) hc]
  exact Nat.ofDigitChars_ten_toDigits

/-- Different numbers are printed differently. -/
theorem natToString_injective : Function.Injective natToString :=
  Function.LeftInverse.injective digitsValue_natToString

/-- A text that ends in a printed number, after a byte that is no digit, determines the number and
the text before that byte. -/
theorem append_natToString_inj {c : UInt8} (hc : isDigit c = false) {s s' : Bytes} {m n : ℕ} :
    s ++ c :: natToString m = s' ++ c :: natToString n ↔ s = s' ∧ m = n := by
  have hnotin : ∀ k : ℕ, c ∉ natToString k := fun k hmem =>
    Bool.false_ne_true (hc.symm.trans (isDigit_of_mem_natToString hmem))
  rw [Delimited.append_cons_inj_of_last (hnotin m) (hnotin n), natToString_injective.eq_iff]

/-- A run of `k` digits denotes a number below `10^k`. -/
theorem digitsValue_lt {ds : Bytes} (h : ∀ c ∈ ds, isDigit c = true) :
    digitsValue ds < 10 ^ ds.length := by
  induction ds using List.reverseRecOn with
  | nil => simp [digitsValue]
  | append_singleton ds c ih =>
    have hc : isDigit c = true := h c (by simp)
    have hds := ih fun d hd => h d (by simp [hd])
    simp only [isDigit, Bool.and_eq_true, decide_eq_true_eq, UInt8.le_iff_toNat_le] at hc
    -- The last digit adds at most nine to ten times the rest.
    have h57 : c.toNat ≤ 57 := hc.2
    rw [digitsValue, List.foldl_append] at *
    simp only [List.foldl_cons, List.foldl_nil, List.length_append, List.length_singleton,
      pow_succ]
    omega

/-- A run of digits denotes at least what a part at its front denotes, with zeros for the rest. -/
theorem mul_pow_le_digitsValue_append (xs ys : Bytes) :
    digitsValue xs * 10 ^ ys.length ≤ digitsValue (xs ++ ys) := by
  induction ys using List.reverseRecOn with
  | nil => simp
  | append_singleton ys c ih =>
    have hstep : digitsValue (xs ++ (ys ++ [c])) =
        10 * digitsValue (xs ++ ys) + (c.toNat - 48) := by
      simp [digitsValue]
    have hpow : digitsValue xs * 10 ^ (ys ++ [c]).length =
        10 * (digitsValue xs * 10 ^ ys.length) := by
      rw [List.length_append, List.length_singleton, pow_succ, ← mul_assoc, mul_comm]
    rw [hstep, hpow]
    omega

/-- A number prints no longer than any nonempty run of digits that denotes it or a larger number. -/
theorem length_natToString_le {n : ℕ} {ds : Bytes} (h : ∀ c ∈ ds, isDigit c = true) (hne : ds ≠ [])
    (hn : n ≤ digitsValue ds) : (natToString n).length ≤ ds.length := by
  rw [natToString, List.length_map,
    Nat.length_toDigits_le_iff (by decide) (List.length_pos_iff.mpr hne)]
  exact lt_of_le_of_lt hn (digitsValue_lt h)

/-- A number below a power of ten prints in that many digits. -/
theorem length_natToString_le_of_lt {n k : ℕ} (hk : 0 < k) (h : n < 10 ^ k) :
    (natToString n).length ≤ k := by
  rw [natToString, List.length_map, Nat.length_toDigits_le_iff (by decide) hk]
  exact h

/-- An integer below a power of ten in magnitude prints in that many digits and a sign. -/
theorem length_intToString_le_of_lt {z : ℤ} {k : ℕ} (hk : 0 < k) (h : z.natAbs < 10 ^ k) :
    (intToString z).length ≤ k + 1 := by
  have hdigits := length_natToString_le_of_lt hk h
  unfold intToString
  split_ifs
  · rw [List.length_cons]
    omega
  · omega


/-! ## The scanner on printed numbers -/

/-- A digit is neither NUL, white space, nor a sign. -/
theorem isDigit_facts {c : UInt8} (h : isDigit c = true) :
    (c != 0) = true ∧ isSpace c = false ∧ c ≠ 45 ∧ c ≠ 43 := by
  simp only [isDigit, Bool.and_eq_true, decide_eq_true_eq, UInt8.le_iff_toNat_le] at h
  have h48 : 48 ≤ c.toNat := h.1
  refine ⟨?_, ?_, ?_, ?_⟩
  · rw [bne_iff_ne]
    rintro rfl
    simp at h48
  · simp only [isSpace, Bool.or_eq_false_iff, beq_eq_false_iff_ne, Bool.and_eq_false_iff,
      decide_eq_false_iff_not, UInt8.le_iff_toNat_le]
    refine ⟨?_, Or.inr ?_⟩
    · rintro rfl
      simp at h48
    · show ¬ c.toNat ≤ 13
      omega
  · rintro rfl
    simp at h48
  · rintro rfl
    simp at h48

/-- White space is not NUL. -/
theorem ne_zero_of_isSpace {c : UInt8} (h : isSpace c = true) : (c != 0) = true := by
  rw [bne_iff_ne]
  rintro rfl
  exact absurd h (by decide)

/-- White space is no digit. -/
theorem isDigit_of_isSpace {c : UInt8} (h : isSpace c = true) : isDigit c = false := by
  cases hdigit : isDigit c with
  | false => rfl
  | true => exact absurd (h.symm.trans (isDigit_facts hdigit).2.1) (by decide)

/-- The texts that may stand for the sign of a numeral. -/
def IsSign (sign : Bytes) : Prop := sign = [] ∨ sign = [43] ∨ sign = [45]

/-- After a sign and a digit, the sign is known. -/
theorem scanSign_append {sign : Bytes} (hsign : IsSign sign) {d : UInt8} (hd : isDigit d = true)
    (s : Bytes) : scanSign (sign ++ d :: s) = (sign == [45], d :: s) := by
  obtain ⟨-, -, h45, h43⟩ := isDigit_facts hd
  rcases hsign with rfl | rfl | rfl
  · simp [scanSign, h45, h43]
  · rfl
  · rfl

/-- Digits that no digit follows end where the rest begins. -/
theorem takeWhile_digits_append {ds rest : Bytes} (hds : ∀ c ∈ ds, isDigit c = true)
    (hrest : ∀ c, rest.head? = some c → isDigit c = false) :
    (ds ++ cStr rest).takeWhile isDigit = ds ∧ (ds ++ cStr rest).dropWhile isDigit = cStr rest := by
  have hnodigit : (cStr rest).takeWhile isDigit = [] ∧
      (cStr rest).dropWhile isDigit = cStr rest := by
    cases rest with
    | nil => exact ⟨rfl, rfl⟩
    | cons c rest =>
      have hc := hrest c rfl
      rw [cStr, List.takeWhile_cons]
      split_ifs
      · exact ⟨by rw [List.takeWhile_cons, hc]; rfl, by rw [List.dropWhile_cons, hc]; rfl⟩
      · exact ⟨rfl, rfl⟩
  rw [List.takeWhile_append_of_pos hds, List.dropWhile_append_of_pos hds, hnodigit.1, hnodigit.2,
    List.append_nil]
  exact ⟨rfl, rfl⟩

/-- The scanner on white space, a sign, and digits that no digit follows. -/
theorem scanNumeral_append {front sign ds rest : Bytes} (hfront : ∀ c ∈ front, isSpace c = true)
    (hsign : IsSign sign) (hds : ∀ c ∈ ds, isDigit c = true) (hne : ds ≠ [])
    (hrest : ∀ c, rest.head? = some c → isDigit c = false) :
    scanNumeral (front ++ (sign ++ (ds ++ rest))) = some ⟨sign == [45], ds, cStr rest⟩ := by
  obtain ⟨d, ds', rfl⟩ := List.exists_cons_of_ne_nil hne
  have hd : isDigit d = true := hds d List.mem_cons_self
  have hsignChar : ∀ c ∈ sign, (c != 0) = true ∧ isSpace c = false := by
    rcases hsign with rfl | rfl | rfl
    · exact List.forall_mem_nil _
    · simp only [List.forall_mem_singleton]; decide
    · simp only [List.forall_mem_singleton]; decide
  have hcstr : cStr (front ++ (sign ++ (d :: ds' ++ rest))) =
      front ++ (sign ++ (d :: ds' ++ cStr rest)) := by
    rw [cStr, List.takeWhile_append_of_pos fun c hc => ne_zero_of_isSpace (hfront c hc),
      List.takeWhile_append_of_pos fun c hc => (hsignChar c hc).1,
      List.takeWhile_append_of_pos fun c hc => (isDigit_facts (hds c hc)).1, cStr]
  have hdrop : (front ++ (sign ++ (d :: ds' ++ cStr rest))).dropWhile isSpace =
      sign ++ (d :: ds' ++ cStr rest) := by
    rw [List.dropWhile_append_of_pos hfront]
    cases sign with
    | nil => rw [List.nil_append, List.cons_append, List.dropWhile_cons,
        (isDigit_facts hd).2.1, if_neg Bool.false_ne_true]
    | cons c sign => rw [List.cons_append, List.dropWhile_cons,
        (hsignChar c List.mem_cons_self).2, if_neg Bool.false_ne_true]
  obtain ⟨htake, hrestEnd⟩ := takeWhile_digits_append hds hrest
  have hscan := scanSign_append hsign hd (ds' ++ cStr rest)
  rw [← List.cons_append] at hscan
  simp only [scanNumeral, hcstr, hdrop, hscan, htake, hrestEnd, if_neg hne]

/-- The scanner on an optional minus sign and digits alone. -/
theorem scanNumeral_digits {ds : Bytes} (h : ∀ c ∈ ds, isDigit c = true) (hne : ds ≠ []) :
    scanNumeral ds = some ⟨false, ds, []⟩ ∧ scanNumeral (45 :: ds) = some ⟨true, ds, []⟩ := by
  have hscan : ∀ {sign : Bytes}, IsSign sign →
      scanNumeral (sign ++ ds) = some ⟨sign == [45], ds, []⟩ := fun hsign => by
    have hnone : ∀ c, ([] : Bytes).head? = some c → isDigit c = false := fun c hc => nomatch hc
    have hscan := scanNumeral_append (List.forall_mem_nil _) hsign h hne hnone
    rwa [List.nil_append, List.append_nil] at hscan
  exact ⟨hscan (Or.inl rfl), hscan (Or.inr (Or.inr rfl))⟩

/-- The scanner reads a printed integer back, sign and digits, and leaves nothing. -/
theorem scanNumeral_intToString (z : ℤ) :
    ∃ n, scanNumeral (intToString z) = some n ∧ n.value = z ∧ n.rest = [] := by
  have hd : ∀ c ∈ natToString z.natAbs, isDigit c = true :=
    fun _ hc => isDigit_of_mem_natToString hc
  obtain ⟨hpos, hneg⟩ := scanNumeral_digits hd (natToString_ne_nil _)
  unfold intToString
  split_ifs with hz
  · refine ⟨_, hneg, ?_, rfl⟩
    simp only [Numeral.value, if_true, digitsValue_natToString]
    omega
  · refine ⟨_, hpos, ?_, rfl⟩
    simp only [Numeral.value, Bool.false_eq_true, if_false, digitsValue_natToString]
    omega

/-- A 64-bit number is the same as an integer and as a natural number. -/
theorem ofInt_natCast {n : ℕ} (h : n < 2 ^ 64) : UInt64.ofInt n = UInt64.ofNat n := by
  have hmod : ((n : ℤ) % 2 ^ 64).toNat = n := by omega
  exact congrArg UInt64.ofNat hmod

/-- `strtoull` reads digits that denote a 64-bit number, and stops at their end. -/
theorem strtoull_digits {ds : Bytes} (h : ∀ c ∈ ds, isDigit c = true) (hne : ds ≠ [])
    (hlt : digitsValue ds < 2 ^ 64) : strtoull ds = some (UInt64.ofNat (digitsValue ds), []) := by
  obtain ⟨hscan, -⟩ := scanNumeral_digits h hne
  rw [strtoull, hscan, Option.map_some, if_neg (not_le.mpr hlt)]
  simp only [Numeral.value, Bool.false_eq_true, if_false, ofInt_natCast hlt]

/-- `strtol` reads a printed `long` back and stops at its end. -/
theorem strtol_intToString {z : ℤ} (hl : -2 ^ 63 ≤ z) (hu : z < 2 ^ 63) :
    strtol (intToString z) = some (z, []) := by
  obtain ⟨n, hn, hv, hr⟩ := scanNumeral_intToString z
  rw [strtol, hn, Option.map_some, hv, hr]
  congr 2
  -- In the range of `long` nothing is saturated.
  omega

/-- A C string ends at the first NUL. -/
theorem cStr_append {s back : Bytes} (hs : ∀ c ∈ s, (c != 0) = true)
    (hback : ∀ c, back.head? = some c → c = 0) : cStr (s ++ back) = s := by
  rw [cStr, List.takeWhile_append_of_pos hs]
  cases back with
  | nil => exact List.append_nil s
  | cons c back =>
    rw [List.takeWhile_cons, hback c rfl]
    exact List.append_nil s

/-- A text is the sign that the scanner takes and what it leaves. -/
theorem exists_sign (t : Bytes) : ∃ sign, t = sign ++ (scanSign t).2 ∧ IsSign sign ∧
    (scanSign t).1 = (sign == [45]) := by
  cases t with
  | nil => exact ⟨[], rfl, Or.inl rfl, rfl⟩
  | cons c t =>
    simp only [scanSign]
    split_ifs with h45 h43
    · exact ⟨[45], by rw [h45]; rfl, Or.inr (Or.inr rfl), rfl⟩
    · exact ⟨[43], by rw [h43]; rfl, Or.inr (Or.inl rfl), rfl⟩
    · exact ⟨[], rfl, Or.inl rfl, rfl⟩

/-- What the scanner finds in a text. -/
theorem exists_of_scanNumeral {s : Bytes} {n : Numeral} (h : scanNumeral s = some n) :
    ∃ front sign rest, s = front ++ (sign ++ (n.digits ++ rest)) ∧
      (∀ c ∈ front, isSpace c = true) ∧ IsSign sign ∧ n.negative = (sign == [45]) ∧
        n.digits ≠ [] ∧ (∀ c ∈ n.digits, isDigit c = true) ∧
          (∀ c, rest.head? = some c → isDigit c = false) ∧ n.rest = cStr rest := by
  unfold scanNumeral at h
  dsimp only at h
  split_ifs at h with hne
  obtain rfl := Option.some.inj h
  -- The text before the first NUL, without its white space, is a sign and the rest of it.
  obtain ⟨sign, ht, hsign, hnegative⟩ := exists_sign ((cStr s).dropWhile isSpace)
  -- What comes before the first NUL and what starts there.
  have hs : cStr s ++ s.dropWhile (· != 0) = s := List.takeWhile_append_dropWhile
  have hback : ∀ c, (s.dropWhile (· != 0)).head? = some c → c = 0 := fun c hc => by
    have hnot := List.head?_dropWhile_not (· != 0) s
    rw [hc] at hnot
    simpa using hnot
  have hafter : ∀ c ∈ (scanSign ((cStr s).dropWhile isSpace)).2.dropWhile isDigit,
      (c != 0) = true := fun c hc => by
    have hmem : c ∈ (cStr s).dropWhile isSpace := by
      rw [ht]
      exact List.mem_append_right _ ((List.dropWhile_suffix _).subset hc)
    have hin : c ∈ cStr s := (List.dropWhile_suffix _).subset hmem
    exact List.mem_takeWhile_imp (p := (· != 0)) hin
  refine ⟨(cStr s).takeWhile isSpace, sign,
    (scanSign ((cStr s).dropWhile isSpace)).2.dropWhile isDigit ++ s.dropWhile (· != 0), ?_,
    fun c => List.mem_takeWhile_imp, hsign, hnegative, hne, fun c => List.mem_takeWhile_imp,
    fun c hc => ?_, ?_⟩
  · rw [← List.append_assoc (List.takeWhile isDigit _), List.takeWhile_append_dropWhile,
      ← List.append_assoc sign, ← ht, ← List.append_assoc, List.takeWhile_append_dropWhile, hs]
  · -- The digits were taken as far as they go.
    have hnot := List.head?_dropWhile_not isDigit (scanSign ((cStr s).dropWhile isSpace)).2
    cases hd : (scanSign ((cStr s).dropWhile isSpace)).2.dropWhile isDigit with
    | nil =>
      rw [hd, List.nil_append] at hc
      rw [hback c hc]
      rfl
    | cons d t =>
      rw [hd] at hc hnot
      rw [← Option.some.inj hc]
      simpa using hnot
  · exact (cStr_append hafter hback).symm

/-- What `strtol` returns is denoted, or exceeded, by digits of the text. -/
theorem digits_of_strtol {s rest : Bytes} {v : ℤ} (h : strtol s = some (v, rest)) :
    ∃ ds : Bytes, (∀ c ∈ ds, isDigit c = true) ∧ ds ≠ [] ∧ ds.length ≤ s.length ∧
      v.natAbs ≤ digitsValue ds := by
  obtain ⟨n, hn, hv⟩ := Option.map_eq_some_iff.mp h
  obtain ⟨rfl, rfl⟩ := Prod.mk.inj hv
  obtain ⟨front, sign, rest, hs, -, -, -, hne, hds, -, -⟩ := exists_of_scanNumeral hn
  refine ⟨n.digits, hds, hne, ?_, ?_⟩
  · rw [hs]
    simp only [List.length_append]
    omega
  · -- Saturation makes the magnitude smaller.
    simp only [Numeral.value]
    split_ifs <;> omega

/-- A printed integer is not empty. -/
theorem intToString_ne_nil (z : ℤ) : intToString z ≠ [] := by
  unfold intToString
  split_ifs
  · exact List.cons_ne_nil _ _
  · exact natToString_ne_nil _

/-- The bytes of a printed integer are digits and the minus sign. -/
theorem mem_intToString {z : ℤ} {b : UInt8} (h : b ∈ intToString z) :
    isDigit b = true ∨ b = 45 := by
  unfold intToString at h
  split_ifs at h
  · rcases List.mem_cons.mp h with rfl | h
    · exact Or.inr rfl
    · exact Or.inl (isDigit_of_mem_natToString h)
  · exact Or.inl (isDigit_of_mem_natToString h)

/-! ## Numerals in a text -/

/-- A decimal numeral of an integer: an optional sign and digits. -/
def IsNumeral (s : Bytes) (z : ℤ) : Prop :=
  ∃ sign ds, s = sign ++ ds ∧ IsSign sign ∧ ds ≠ [] ∧ (∀ c ∈ ds, isDigit c = true) ∧
    z = if sign = [45] then -(digitsValue ds : ℤ) else digitsValue ds

/-- A text starts, after white space, with a numeral of an integer, with the rest after its last
digit. -/
def StartsWith (s : Bytes) (z : ℤ) (rest : Bytes) : Prop :=
  ∃ front numeral, s = front ++ (numeral ++ rest) ∧ (∀ c ∈ front, isSpace c = true) ∧
    IsNumeral numeral z ∧ ∀ c, rest.head? = some c → isDigit c = false

/-- The scanner finds the numeral at the start of a text. -/
theorem scanNumeral_eq_some_iff {s : Bytes} {z : ℤ} {r : Bytes} :
    (∃ n, scanNumeral s = some n ∧ n.value = z ∧ n.rest = r) ↔
      ∃ rest, StartsWith s z rest ∧ cStr rest = r := by
  constructor
  · rintro ⟨n, hn, rfl, rfl⟩
    obtain ⟨front, sign, rest, hs, hfront, hsign, hnegative, hne, hds, hrest, hr⟩ :=
      exists_of_scanNumeral hn
    refine ⟨rest, ⟨front, sign ++ n.digits, by rw [hs, List.append_assoc], hfront,
      ⟨sign, n.digits, rfl, hsign, hne, hds, ?_⟩, hrest⟩, hr.symm⟩
    simp only [Numeral.value, hnegative, beq_iff_eq]
  · rintro ⟨rest, ⟨front, numeral, hs, hfront, ⟨sign, ds, rfl, hsign, hne, hds, hz⟩, hrest⟩, rfl⟩
    refine ⟨⟨sign == [45], ds, cStr rest⟩, ?_, ?_, rfl⟩
    · rw [hs, List.append_assoc]
      exact scanNumeral_append hfront hsign hds hne hrest
    · rw [hz]
      simp only [Numeral.value, beq_iff_eq]

/-- A conversion of the whole text: it stops at the end of the text or at a NUL. -/
def Converts (s : Bytes) (z : ℤ) : Prop :=
  ∃ rest, StartsWith s z rest ∧ ∀ c, rest.head? = some c → c = 0

/-- There is a digit in a text that starts with a numeral. -/
theorem StartsWith.exists_digit {s rest : Bytes} {z : ℤ} (h : StartsWith s z rest) :
    ∃ c ∈ s, isDigit c = true := by
  obtain ⟨front, numeral, rfl, -, ⟨sign, ds, rfl, -, hne, hds, -⟩, -⟩ := h
  obtain ⟨d, ds, rfl⟩ := List.exists_cons_of_ne_nil hne
  exact ⟨d, by simp, hds d List.mem_cons_self⟩

/-- The integer at the start of a text is determined. -/
theorem StartsWith.value_unique {s : Bytes} {z z' : ℤ} {rest rest' : Bytes}
    (h : StartsWith s z rest) (h' : StartsWith s z' rest') : z = z' := by
  obtain ⟨n, hn, rfl, -⟩ := scanNumeral_eq_some_iff.mpr ⟨rest, h, rfl⟩
  obtain ⟨n', hn', rfl, -⟩ := scanNumeral_eq_some_iff.mpr ⟨rest', h', rfl⟩
  rw [Option.some.inj (hn.symm.trans hn')]

/-- An integer saturated to the range of `long`. -/
def saturate (z : ℤ) : ℤ := max (-2 ^ 63) (min (2 ^ 63 - 1) z)

/-- The `int` that a cast makes of the `long` that `strtol` makes of an integer. -/
def castInt (z : ℤ) : Int32 := Int32.ofInt (saturate z)

/-- In the range of `long` nothing is saturated. -/
theorem castInt_eq_ofInt {z : ℤ} (hl : -2 ^ 63 ≤ z) (hu : z < 2 ^ 63) :
    castInt z = Int32.ofInt z := by
  have hsaturate : saturate z = z := by
    unfold saturate
    omega
  rw [castInt, hsaturate]

/-- An `int` stays what it is. -/
theorem toInt_castInt {z : ℤ} (hl : -2 ^ 31 ≤ z) (hu : z < 2 ^ 31) : (castInt z).toInt = z := by
  rw [castInt_eq_ofInt (by omega) (by omega), Int32.toInt_ofInt_of_le (by omega) (by omega)]

/-- `strtol` reads the numeral at the start of a text. -/
theorem StartsWith.strtol_eq {s rest : Bytes} {z : ℤ} (h : StartsWith s z rest) :
    strtol s = some (saturate z, cStr rest) := by
  obtain ⟨n, hn, rfl, hr⟩ := scanNumeral_eq_some_iff.mpr ⟨rest, h, rfl⟩
  rw [strtol, hn, Option.map_some, hr, saturate]

/-- So does `strtoull`, where a magnitude from `2^64` on saturates. -/
theorem StartsWith.strtoull_eq {s rest : Bytes} {z : ℤ} (h : StartsWith s z rest) :
    strtoull s = some (if 2 ^ 64 ≤ z.natAbs then UInt64.ofNat (2 ^ 64 - 1) else UInt64.ofInt z,
      cStr rest) := by
  obtain ⟨n, hn, rfl, hr⟩ := scanNumeral_eq_some_iff.mpr ⟨rest, h, rfl⟩
  have habs : n.value.natAbs = digitsValue n.digits := by
    unfold Numeral.value
    split_ifs <;> omega
  rw [strtoull, hn, Option.map_some, hr, habs]

/-- A text of which a C string has nothing. -/
theorem cStr_eq_nil_iff {s : Bytes} : cStr s = [] ↔ ∀ c, s.head? = some c → c = 0 := by
  cases s with
  | nil => exact iff_of_true rfl fun c hc => nomatch hc
  | cons d s =>
    by_cases hd : (d != 0) = true
    · rw [cStr, List.takeWhile_cons, if_pos hd]
      exact iff_of_false (List.cons_ne_nil _ _) fun h => bne_iff_ne.mp hd (h d rfl)
    · rw [cStr, List.takeWhile_cons, if_neg hd]
      refine iff_of_true rfl fun c hc => ?_
      rw [← Option.some.inj hc]
      simpa using hd

/-- The end pointer of a conversion of the whole text is at the end of the C string. -/
theorem Converts.of_scanNumeral {s : Bytes} {n : Numeral} (h : scanNumeral s = some n)
    (hrest : n.rest = []) : Converts s n.value := by
  obtain ⟨rest, hstarts, hr⟩ := scanNumeral_eq_some_iff.mp ⟨n, h, rfl, rfl⟩
  exact ⟨rest, hstarts, cStr_eq_nil_iff.mp (hr.trans hrest)⟩

/-- A numeral is converted as a whole. -/
theorem Converts.of_isNumeral {s : Bytes} {z : ℤ} (h : IsNumeral s z) : Converts s z :=
  ⟨[], ⟨[], s, by simp, List.forall_mem_nil _, h, fun c hc => nomatch hc⟩, fun c hc => nomatch hc⟩

section Converts

variable {s : Bytes} {z : ℤ} (h : Converts s z)

include h in
/-- The integer that a conversion reads is determined. -/
theorem Converts.value_unique {z' : ℤ} (h' : Converts s z') : z = z' := by
  obtain ⟨rest, hstarts, -⟩ := h
  obtain ⟨rest', hstarts', -⟩ := h'
  exact hstarts.value_unique hstarts'

include h in
/-- A text that is converted is not empty. -/
theorem Converts.ne_nil : s ≠ [] := by
  obtain ⟨rest, hstarts, -⟩ := h
  obtain ⟨c, hc, -⟩ := hstarts.exists_digit
  exact List.ne_nil_of_mem hc

include h in
/-- `strtol` on a text that is converted as a whole. -/
theorem Converts.strtol_eq : strtol s = some (saturate z, []) := by
  obtain ⟨rest, hstarts, hrest⟩ := h
  rw [hstarts.strtol_eq, cStr_eq_nil_iff.mpr hrest]

include h in
/-- `strtoull` on a text that is converted as a whole. -/
theorem Converts.strtoull_eq : strtoull s =
    some (if 2 ^ 64 ≤ z.natAbs then UInt64.ofNat (2 ^ 64 - 1) else UInt64.ofInt z, []) := by
  obtain ⟨rest, hstarts, hrest⟩ := h
  rw [hstarts.strtoull_eq, cStr_eq_nil_iff.mpr hrest]

end Converts

end CString
