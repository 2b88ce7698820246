import Mathlib.Data.List.GetD
import Mathlib.Data.Nat.Bitwise

/-!
# Bit arrays packed into bytes

A bit array kept in a list of bytes, eight bits to a byte, least significant first. `getBit_setBit`
is the read-over-write law, `getBit_zipWith_or` reads a bytewise union, `ext_getBit` says that the
bits determine the bytes, and `div_lt_of_lt` that the index of a bit below `n` addresses one of the
`⌈n / 8⌉` bytes.

Such an array has up to seven bits more than the `n` it is for. `clearFrom_iff` says on the last
byte whether they are clear, and then no more than `n` bits are set (`sum_countP_testBit`,
`countP_getBit_le`).
-/

namespace PackedBits

/-- The mask of a bit within its byte. -/
def mask (i : ℕ) : UInt8 := UInt8.ofNat (1 <<< (i % 8))

/-- Set the bit at an index. -/
def setBit (data : List UInt8) (i : ℕ) : List UInt8 := data.modify (i / 8) (· ||| mask i)

/-- Read the bit at an index. -/
def getBit (data : List UInt8) (i : ℕ) : Bool := (data.getD (i / 8) 0 &&& mask i) != 0

@[simp] theorem length_setBit (data : List UInt8) (i : ℕ) :
    (setBit data i).length = data.length := by
  simp [setBit]

/-- The mask is a power of two, which fits in a byte. -/
theorem toNat_mask (i : ℕ) : (mask i).toNat = 2 ^ (i % 8) := by
  rw [mask, UInt8.toNat_ofNat', Nat.one_shiftLeft]
  exact Nat.mod_eq_of_lt (Nat.pow_lt_pow_right (by decide) (Nat.mod_lt _ (by decide)))

/-- The bit at `i` is bit `i % 8` of byte `i / 8`. -/
theorem getBit_eq_testBit (data : List UInt8) (i : ℕ) :
    getBit data i = (data.getD (i / 8) 0).toNat.testBit (i % 8) := by
  have hne : ∀ x : UInt8, (x != 0) = (x.toNat != 0) := by
    intro x
    rw [Bool.eq_iff_iff, bne_iff_ne, bne_iff_ne, Ne, Ne, ← UInt8.toNat_inj]
    rfl
  rw [getBit, hne, UInt8.toNat_and, toNat_mask, Nat.and_two_pow]
  cases (data.getD (i / 8) 0).toNat.testBit (i % 8)
  · simp
  · simp

/-- Read over write: setting a bit inside the array sets that bit and no other. -/
theorem getBit_setBit {data : List UInt8} {i : ℕ} (hi : i / 8 < data.length) (j : ℕ) :
    getBit (setBit data i) j = (decide (i = j) || getBit data j) := by
  rw [getBit_eq_testBit, getBit_eq_testBit, setBit]
  by_cases hb : i / 8 = j / 8
  · -- The same byte: the bits differ only at `i % 8`.
    have hget : (data.modify (i / 8) (· ||| mask i)).getD (j / 8) 0 =
        data.getD (j / 8) 0 ||| mask i := by
      rw [← hb, List.getD_eq_getElem _ _ (by simpa using hi), List.getD_eq_getElem _ _ hi]
      simp
    rw [hget, UInt8.toNat_or, toNat_mask, Nat.testBit_or, Nat.testBit_two_pow, Bool.or_comm]
    congr 1
    rw [decide_eq_decide]
    omega
  · -- Another byte is untouched.
    have hget : (data.modify (i / 8) (· ||| mask i)).getD (j / 8) 0 = data.getD (j / 8) 0 := by
      simp [List.getD_eq_getElem?_getD, hb]
    have hij : i ≠ j := fun e => hb (by rw [e])
    rw [hget, decide_eq_false hij, Bool.false_or]

/-- A bytewise union of arrays of one length has the bits of both. -/
theorem getBit_zipWith_or {as bs : List UInt8} (h : as.length = bs.length) (i : ℕ) :
    getBit (List.zipWith (· ||| ·) as bs) i = (getBit as i || getBit bs i) := by
  simp only [getBit_eq_testBit, List.getD_eq_getElem?_getD, List.getElem?_zipWith]
  by_cases hi : i / 8 < as.length
  · rw [List.getElem?_eq_getElem hi, List.getElem?_eq_getElem (h ▸ hi)]
    simp [Nat.testBit_or]
  · rw [List.getElem?_eq_none (by omega), List.getElem?_eq_none (by omega)]
    simp

/-- No bit of an array of zeros is set. -/
theorem getBit_replicate_zero (n i : ℕ) : getBit (List.replicate n 0) i = false := by
  rw [getBit, List.getD_eq_getElem?_getD, List.getElem?_getD_replicate_default_eq, UInt8.zero_and]
  rfl

/-- The bits determine the bytes. -/
theorem ext_getBit {as bs : List UInt8} (hlen : as.length = bs.length)
    (h : ∀ i, getBit as i = getBit bs i) : as = bs := by
  refine List.ext_getElem hlen fun k hk hk' => ?_
  rw [← UInt8.toNat_inj]
  refine Nat.eq_of_testBit_eq fun j => ?_
  by_cases hj : j < 8
  · -- Bit `j` of byte `k` has the index `8 k + j`.
    have hdiv : (8 * k + j) / 8 = k := by omega
    have hmod : (8 * k + j) % 8 = j := by omega
    have hbit := h (8 * k + j)
    rwa [getBit_eq_testBit, getBit_eq_testBit, hdiv, hmod, List.getD_eq_getElem _ _ hk,
      List.getD_eq_getElem _ _ hk'] at hbit
  · -- A byte has no bit from the eighth on.
    have hpow : 2 ^ 8 ≤ 2 ^ j := Nat.pow_le_pow_right (by decide) (not_lt.mp hj)
    rw [Nat.testBit_lt_two_pow (lt_of_lt_of_le as[k].toNat_lt hpow),
      Nat.testBit_lt_two_pow (lt_of_lt_of_le bs[k].toNat_lt hpow)]

/-- The byte of a bit below `n` is one of the `⌈n / 8⌉` bytes. -/
theorem div_lt_of_lt {i n : ℕ} (h : i < n) : i / 8 < (n + 7) / 8 := by
  omega

/-! ## The bits beyond an index -/

/-- No bit from an index on is set. -/
def ClearFrom (data : List UInt8) (n : ℕ) : Prop := ∀ i, n ≤ i → getBit data i = false

/-- The bits of the first byte come first. -/
theorem getBit_cons_of_lt (byte : UInt8) (data : List UInt8) {i : ℕ} (hi : i < 8) :
    getBit (byte :: data) i = byte.toNat.testBit i := by
  rw [getBit_eq_testBit, Nat.div_eq_of_lt hi, Nat.mod_eq_of_lt hi, List.getD_cons_zero]

/-- The bits of the other bytes follow. -/
theorem getBit_cons_add (byte : UInt8) (data : List UInt8) (i : ℕ) :
    getBit (byte :: data) (8 + i) = getBit data i := by
  have hdiv : (8 + i) / 8 = i / 8 + 1 := by omega
  have hmod : (8 + i) % 8 = i % 8 := by omega
  rw [getBit_eq_testBit, getBit_eq_testBit, hdiv, hmod, List.getD_cons_succ]

/-- The set bits, counted byte by byte. -/
theorem sum_countP_testBit (data : List UInt8) :
    (data.map fun byte => (List.range 8).countP byte.toNat.testBit).sum =
      (List.range (8 * data.length)).countP (getBit data) := by
  induction data with
  | nil => rfl
  | cons byte data ih =>
    have hfirst : (List.range 8).countP (getBit (byte :: data)) =
        (List.range 8).countP byte.toNat.testBit :=
      List.countP_congr fun i hi => by rw [getBit_cons_of_lt byte data (List.mem_range.mp hi)]
    have hrest : ((List.range (8 * data.length)).map (8 + ·)).countP (getBit (byte :: data)) =
        (List.range (8 * data.length)).countP (getBit data) := by
      rw [List.countP_map]
      exact List.countP_congr fun i _ => by rw [Function.comp_apply, getBit_cons_add]
    rw [List.map_cons, List.sum_cons, ih, List.length_cons, Nat.mul_succ, Nat.add_comm (8 * _),
      List.range_add, List.countP_append, hfirst, hrest]

/-- Where no bit from `n` on is set, at most `n` are. -/
theorem countP_getBit_le {data : List UInt8} {n : ℕ} (h : ClearFrom data n) (m : ℕ) :
    (List.range m).countP (getBit data) ≤ n := by
  rcases le_total m n with hle | hle
  · calc (List.range m).countP (getBit data) ≤ (List.range m).length := List.countP_le_length
      _ = m := List.length_range
      _ ≤ n := hle
  · obtain ⟨k, rfl⟩ := Nat.exists_eq_add_of_le hle
    have hrest : ((List.range k).map (n + ·)).countP (getBit data) = 0 := by
      rw [List.countP_map, List.countP_eq_zero]
      intro i _
      rw [Function.comp_apply, h _ (Nat.le_add_right n i)]
      exact Bool.false_ne_true
    rw [List.range_add, List.countP_append, hrest, Nat.add_zero]
    exact List.countP_le_length.trans_eq List.length_range

/-- In `⌈n / 8⌉` bytes no bit from `n` on is set if the last byte has only its first `n % 8` bits
set, or `n` is a multiple of eight. -/
theorem clearFrom_iff {init : List UInt8} {last : UInt8} {n : ℕ}
    (hlen : init.length + 1 = (n + 7) / 8) :
    ClearFrom (init ++ [last]) n ↔ n % 8 = 0 ∨ last.toNat < 2 ^ (n % 8) := by
  have hlast : ∀ i, i / 8 = init.length → getBit (init ++ [last]) i = last.toNat.testBit (i % 8) :=
    fun i hi => by
      rw [getBit_eq_testBit, hi, List.getD_append_right _ _ _ _ (le_refl _), Nat.sub_self,
        List.getD_cons_zero]
  have hbeyond : ∀ i, init.length < i / 8 → getBit (init ++ [last]) i = false := fun i hi => by
    have hout : (init ++ [last]).length ≤ i / 8 := by
      rw [List.length_append, List.length_singleton]
      exact hi
    rw [getBit_eq_testBit, List.getD_eq_default _ _ hout]
    exact Nat.zero_testBit _
  constructor
  · intro h
    refine or_iff_not_imp_left.mpr fun hn => Nat.lt_pow_two_of_testBit _ fun j hj => ?_
    by_cases hj8 : j < 8
    · -- Bit `j` of the last byte has an index from `n` on.
      have hbit := h (8 * init.length + j) (by omega)
      rwa [hlast _ (by omega), Nat.mul_add_mod, Nat.mod_eq_of_lt hj8] at hbit
    · exact Nat.testBit_lt_two_pow
        (lt_of_lt_of_le last.toNat_lt (Nat.pow_le_pow_right (by decide) (not_lt.mp hj8)))
  · intro h i hi
    rcases Nat.lt_or_ge init.length (i / 8) with hout | hin
    · exact hbeyond i hout
    · have hbyte : i / 8 = init.length := by omega
      rcases h with hn | hsmall
      · omega
      · rw [hlast i hbyte]
        exact Nat.testBit_lt_two_pow
          (lt_of_lt_of_le hsmall (Nat.pow_le_pow_right (by decide) (by omega)))

end PackedBits
