import Netos.Lib.CString
import Netos.Lib.PackedBits
import Mathlib.Data.Rat.Defs
import Mathlib.Tactic.IntervalCases

/-!
# Bloom filters

`tables/bloom_filter.h` and `tables/bloom_filter.cpp`. The bits are packed into bytes, a value
addresses `hash_count` bits by double hashing in 64-bit wrapping arithmetic, and a filter crosses
the network in hexadecimal. `no_false_negatives` is the point of the structure: whatever is done to
a filter short of clearing it, every value added to it is still reported as possibly contained.

The proof is monotonicity: `Covers f v` says that every bit of `v` is set, adding `v` establishes it
(`covers_add_self`), and adding anything, merging anything, and the hexadecimal round trip keep it.
-/

namespace Netos

open CString

/-- `fnv1a64`. -/
def fnv1a64 (value : Bytes) : UInt64 :=
  value.foldl (fun hash c => (hash ^^^ c.toUInt64) * 1099511628211) 1469598103934665603

/-- `mix64`. -/
def mix64 (value : UInt64) : UInt64 :=
  let value := value + 0x9e3779b97f4a7c15
  let value := (value ^^^ (value >>> 30)) * 0xbf58476d1ce4e5b9
  let value := (value ^^^ (value >>> 27)) * 0x94d049bb133111eb
  value ^^^ (value >>> 31)

/-- `hex_value`, `none` for a character that is not a hexadecimal digit. -/
def hexValue (c : UInt8) : Option UInt8 :=
  if 48 ≤ c ∧ c ≤ 57 then some (c - 48)
  else if 97 ≤ c ∧ c ≤ 102 then some (10 + (c - 97))
  else if 65 ≤ c ∧ c ≤ 70 then some (10 + (c - 65))
  else none

/-- `BloomFilter`. The bytes are as many as the bits need: every operation keeps it, and the class
lets nobody else touch the data. -/
structure BloomFilter where
  /-- The number of bits. -/
  bit_count : ℕ
  /-- The number of bits that a value addresses. -/
  hash_count : ℕ
  /-- The packed bits. -/
  data : List UInt8
  /-- There are `⌈bit_count / 8⌉` bytes. -/
  size_eq : data.length = (bit_count + 7) / 8
deriving DecidableEq

namespace BloomFilter

/-- The constructor: all bits clear. -/
def construct (bit_count hash_count : ℕ) : BloomFilter :=
  ⟨bit_count, hash_count, List.replicate ((bit_count + 7) / 8) 0, List.length_replicate⟩

/-- `clear`. -/
def clear (f : BloomFilter) : BloomFilter :=
  { f with data := f.data.map fun _ => 0, size_eq := by simpa using f.size_eq }

/-- `set_bit`. -/
def setBit (f : BloomFilter) (idx : ℕ) : BloomFilter :=
  if f.bit_count = 0 then f
  else { f with data := PackedBits.setBit f.data idx, size_eq := by simpa using f.size_eq }

/-- `get_bit`. -/
def getBit (f : BloomFilter) (idx : ℕ) : Bool :=
  if f.bit_count = 0 then false else PackedBits.getBit f.data idx

/-- The index that round `i` of `add` and `maybe_contains` computes for a value. -/
def bitIndex (f : BloomFilter) (value : Bytes) (i : ℕ) : ℕ :=
  let h1 := fnv1a64 value
  let h2 := mix64 h1
  let combined := h1 + UInt64.ofNat i * h2
  combined.toNat % f.bit_count

/-- `add`. -/
def add (f : BloomFilter) (value : Bytes) : BloomFilter :=
  if f.bit_count = 0 ∨ f.hash_count = 0 then f
  else (List.range f.hash_count).foldl (fun g i => g.setBit (f.bitIndex value i)) f

/-- `maybe_contains`. -/
def maybeContains (f : BloomFilter) (value : Bytes) : Bool :=
  if f.bit_count = 0 ∨ f.hash_count = 0 then false
  else (List.range f.hash_count).all fun i => f.getBit (f.bitIndex value i)

/-- `merge`: nothing happens unless the shapes agree. -/
def merge (f other : BloomFilter) : BloomFilter :=
  if h : f.bit_count ≠ other.bit_count ∨ f.hash_count ≠ other.hash_count then f
  else
    { f with
      data := List.zipWith (· ||| ·) f.data other.data
      size_eq := by
        rw [not_or, not_not] at h
        rw [List.length_zipWith, f.size_eq, other.size_eq, h.1, Nat.min_self] }

/-- `kHex`. -/
def kHex : Bytes := ascii "0123456789abcdef"

/-- The two hexadecimal digits of a byte. -/
def hexByte (byte : UInt8) : Bytes :=
  [kHex.getD ((byte >>> 4) &&& 0x0f).toNat 0, kHex.getD (byte &&& 0x0f).toNat 0]

/-- `to_hex`. -/
def toHex (f : BloomFilter) : Bytes := f.data.flatMap hexByte

/-- The loop of `from_hex` over the pairs of digits. -/
def hexBytes : Bytes → Option (List UInt8)
  | hi :: lo :: rest =>
    match hexValue hi, hexValue lo, hexBytes rest with
    | some hi, some lo, some bytes => some (((hi <<< 4) ||| lo) :: bytes)
    | _, _, _ => none
  | _ => some []

/-- The loop of `from_hex` makes one byte of every pair of digits. -/
theorem length_of_hexBytes : ∀ {hex : Bytes} {bytes : List UInt8}, hexBytes hex = some bytes →
    bytes.length = hex.length / 2
  | [], bytes, h => by
    obtain rfl : [] = bytes := by simpa [hexBytes] using h
    rfl
  | [c], bytes, h => by
    obtain rfl : [] = bytes := by simpa [hexBytes] using h
    simp
  | hi :: lo :: rest, bytes, h => by
    unfold hexBytes at h
    split at h
    · next bytes' _ _ hrest =>
      obtain rfl := Option.some.inj h
      have ih := length_of_hexBytes hrest
      simp only [List.length_cons, ih]
      omega
    · exact absurd h (by simp)

/-- `from_hex`. -/
def fromHex (bit_count hash_count : ℕ) (hex : Bytes) : Option BloomFilter :=
  if hlen : hex.length = (bit_count + 7) / 8 * 2 then
    match h : hexBytes hex with
    | some data =>
      some ⟨bit_count, hash_count, data, by rw [length_of_hexBytes h, hlen]; omega⟩
    | none => none
  else none

/-- `digest`. -/
def digest (f : BloomFilter) : UInt64 :=
  f.data.foldl (fun hash byte => (hash ^^^ byte.toUInt64) * 1099511628211) 1469598103934665603

/-- `__builtin_popcount` of a byte. -/
def popcount (byte : UInt8) : ℕ := (List.range 8).countP byte.toNat.testBit

/-- `fill_ratio`, as the exact quotient. -/
def fillRatio (f : BloomFilter) : ℚ :=
  if f.bit_count = 0 ∨ f.data = [] then 0
  else ((f.data.map popcount).sum : ℚ) / (f.bit_count : ℚ)

/-! ## The shape of a filter -/

@[simp] theorem setBit_bit_count (f : BloomFilter) (idx : ℕ) :
    (f.setBit idx).bit_count = f.bit_count := by
  unfold setBit
  split_ifs <;> rfl

@[simp] theorem setBit_hash_count (f : BloomFilter) (idx : ℕ) :
    (f.setBit idx).hash_count = f.hash_count := by
  unfold setBit
  split_ifs <;> rfl

/-- Setting bits one after the other keeps the shape. -/
theorem foldl_setBit_shape (f : BloomFilter) (idxs : List ℕ) :
    (idxs.foldl setBit f).bit_count = f.bit_count ∧
      (idxs.foldl setBit f).hash_count = f.hash_count := by
  induction idxs generalizing f with
  | nil => exact ⟨rfl, rfl⟩
  | cons idx idxs ih => simpa using ih (f.setBit idx)

/-- An empty filter has no set bit. -/
theorem fillRatio_construct (bit_count hash_count : ℕ) :
    (construct bit_count hash_count).fillRatio = 0 := by
  have hsum : ((construct bit_count hash_count).data.map popcount).sum = 0 := by
    simp [construct, popcount]
  unfold fillRatio
  split_ifs with hdegenerate
  · rfl
  · rw [hsum, Nat.cast_zero, zero_div]

/-- `add` sets the bits of the value one after the other. -/
theorem add_eq_foldl (f : BloomFilter) (value : Bytes) (hb : f.bit_count ≠ 0)
    (hh : f.hash_count ≠ 0) :
    f.add value = ((List.range f.hash_count).map (f.bitIndex value)).foldl setBit f := by
  rw [add, if_neg (by simp [hb, hh]), List.foldl_map]

@[simp] theorem add_bit_count (f : BloomFilter) (value : Bytes) :
    (f.add value).bit_count = f.bit_count := by
  unfold add
  split_ifs
  · rfl
  · rw [← List.foldl_map (f := f.bitIndex value) (g := setBit)]
    exact (foldl_setBit_shape f _).1

@[simp] theorem add_hash_count (f : BloomFilter) (value : Bytes) :
    (f.add value).hash_count = f.hash_count := by
  unfold add
  split_ifs
  · rfl
  · rw [← List.foldl_map (f := f.bitIndex value) (g := setBit)]
    exact (foldl_setBit_shape f _).2

@[simp] theorem merge_bit_count (f g : BloomFilter) : (f.merge g).bit_count = f.bit_count := by
  unfold merge
  split_ifs <;> rfl

@[simp] theorem merge_hash_count (f g : BloomFilter) : (f.merge g).hash_count = f.hash_count := by
  unfold merge
  split_ifs <;> rfl

/-! ## Bits -/

/-- Every index that `add` and `maybe_contains` compute is below `bit_count`. -/
theorem bitIndex_lt (f : BloomFilter) (value : Bytes) (i : ℕ) (hb : f.bit_count ≠ 0) :
    f.bitIndex value i < f.bit_count :=
  Nat.mod_lt _ (Nat.pos_of_ne_zero hb)

/-- An index below `bit_count` addresses a byte of the data. -/
theorem div_lt_length (f : BloomFilter) {idx : ℕ} (h : idx < f.bit_count) :
    idx / 8 < f.data.length := by
  rw [f.size_eq]
  exact PackedBits.div_lt_of_lt h

/-- The index computed depends on the filter only through its number of bits. -/
theorem bitIndex_congr {f g : BloomFilter} (h : f.bit_count = g.bit_count) (value : Bytes) (i : ℕ) :
    f.bitIndex value i = g.bitIndex value i := by
  rw [bitIndex, bitIndex, h]

/-- Setting a bit inside the filter sets that bit and no other. -/
theorem getBit_setBit (f : BloomFilter) {idx : ℕ} (h : idx < f.bit_count) (j : ℕ) :
    (f.setBit idx).getBit j = (decide (idx = j) || f.getBit j) := by
  have hb : f.bit_count ≠ 0 := by omega
  simp only [getBit, setBit, if_neg hb]
  exact PackedBits.getBit_setBit (f.div_lt_length h) j

/-- Setting bits inside the filter sets exactly those. -/
theorem getBit_foldl_setBit (f : BloomFilter) (idxs : List ℕ) (h : ∀ i ∈ idxs, i < f.bit_count)
    (j : ℕ) : (idxs.foldl setBit f).getBit j = (decide (j ∈ idxs) || f.getBit j) := by
  induction idxs generalizing f with
  | nil => simp
  | cons idx idxs ih =>
    -- The other indices are below the number of bits still.
    have hrest : ∀ i ∈ idxs, i < (f.setBit idx).bit_count :=
      fun i hi => by simpa using h i (List.mem_cons_of_mem _ hi)
    rw [List.foldl_cons, ih _ hrest, f.getBit_setBit (h idx List.mem_cons_self), ← Bool.or_assoc]
    congr 1
    rw [Bool.eq_iff_iff, Bool.or_eq_true, decide_eq_true_eq, decide_eq_true_eq, decide_eq_true_eq,
      List.mem_cons, or_comm, eq_comm]

/-- A filter as constructed has no bit set. -/
theorem getBit_construct (bit_count hash_count j : ℕ) :
    (construct bit_count hash_count).getBit j = false := by
  unfold getBit
  split_ifs
  · rfl
  · exact PackedBits.getBit_replicate_zero _ _

/-- Filters of one shape with the same bits are equal. -/
theorem ext_getBit {f g : BloomFilter} (hb : f.bit_count = g.bit_count)
    (hh : f.hash_count = g.hash_count) (h : ∀ j, f.getBit j = g.getBit j) : f = g := by
  have hlen : f.data.length = g.data.length := by rw [f.size_eq, g.size_eq, hb]
  have hdata : f.data = g.data := by
    by_cases h0 : f.bit_count = 0
    · -- There are no bytes.
      have hf : f.data = [] := List.length_eq_zero_iff.mp (by rw [f.size_eq, h0])
      have hg : g.data = [] := List.length_eq_zero_iff.mp (by rw [g.size_eq, ← hb, h0])
      rw [hf, hg]
    · refine PackedBits.ext_getBit hlen fun j => ?_
      have hj := h j
      rwa [getBit, getBit, if_neg h0, if_neg (hb ▸ h0)] at hj
  obtain ⟨_, _, _, _⟩ := f
  obtain ⟨_, _, _, _⟩ := g
  cases hb
  cases hh
  cases hdata
  rfl

/-- Every bit that a value addresses is set. -/
def Covers (f : BloomFilter) (value : Bytes) : Prop :=
  ∀ i < f.hash_count, f.getBit (f.bitIndex value i) = true

/-- A filter with bits and hashes reports exactly the values whose bits are all set. -/
theorem maybeContains_iff_covers (f : BloomFilter) (value : Bytes) (hb : f.bit_count ≠ 0)
    (hh : f.hash_count ≠ 0) : f.maybeContains value = true ↔ f.Covers value := by
  rw [maybeContains, if_neg (by simp [hb, hh]), List.all_eq_true]
  exact ⟨fun h i hi => h i (List.mem_range.mpr hi), fun h i hi => h i (List.mem_range.mp hi)⟩

/-- A filter of the same shape with more bits set covers more values. -/
theorem Covers.mono {f g : BloomFilter} (hb : f.bit_count = g.bit_count)
    (hh : f.hash_count = g.hash_count) (hbits : ∀ j, f.getBit j = true → g.getBit j = true)
    {value : Bytes} (h : f.Covers value) : g.Covers value := by
  intro i hi
  rw [← bitIndex_congr hb]
  exact hbits _ (h i (hh ▸ hi))

/-- The bits after `add`. -/
theorem getBit_add (f : BloomFilter) (value : Bytes) (hb : f.bit_count ≠ 0) (hh : f.hash_count ≠ 0)
    (j : ℕ) : (f.add value).getBit j =
      (decide (∃ i < f.hash_count, f.bitIndex value i = j) || f.getBit j) := by
  rw [f.add_eq_foldl value hb hh, getBit_foldl_setBit]
  · congr 1
    simp
  · intro idx hidx
    obtain ⟨i, -, rfl⟩ := List.mem_map.mp hidx
    exact f.bitIndex_lt value i hb

/-- A value just added is covered. -/
theorem covers_add_self (f : BloomFilter) (value : Bytes) (hb : f.bit_count ≠ 0)
    (hh : f.hash_count ≠ 0) : (f.add value).Covers value := by
  intro i hi
  rw [bitIndex_congr (f.add_bit_count value), f.getBit_add value hb hh, Bool.or_eq_true,
    decide_eq_true_eq]
  exact Or.inl ⟨i, by simpa using hi, rfl⟩

/-- A filter to which a value was added is not the empty filter. -/
theorem add_ne_construct {bit_count hash_count : ℕ} (hb : bit_count ≠ 0) (hh : hash_count ≠ 0)
    (value : Bytes) :
    (construct bit_count hash_count).add value ≠ construct bit_count hash_count := by
  intro h
  have hcovers := covers_add_self (construct bit_count hash_count) value hb hh
  rw [h] at hcovers
  have hbit := hcovers 0 (Nat.pos_of_ne_zero hh)
  rw [getBit_construct] at hbit
  exact absurd hbit Bool.false_ne_true

/-- Adding a value keeps the others covered. -/
theorem Covers.add {f : BloomFilter} {v : Bytes} (h : f.Covers v) (value : Bytes)
    (hb : f.bit_count ≠ 0) (hh : f.hash_count ≠ 0) : (f.add value).Covers v := by
  refine h.mono (f.add_bit_count value).symm (f.add_hash_count value).symm fun j hj => ?_
  rw [f.getBit_add value hb hh, hj, Bool.or_true]

/-- The bits after a merge of filters of one shape. -/
theorem getBit_merge {f g : BloomFilter} (hb : f.bit_count = g.bit_count)
    (hh : f.hash_count = g.hash_count) (j : ℕ) :
    (f.merge g).getBit j = (f.getBit j || g.getBit j) := by
  have hlen : f.data.length = g.data.length := by rw [f.size_eq, g.size_eq, hb]
  by_cases h0 : f.bit_count = 0
  · simp [getBit, h0, ← hb]
  · simp only [getBit, merge_bit_count, if_neg h0, ← hb]
    rw [← PackedBits.getBit_zipWith_or hlen, merge, dif_neg (by simp [hb, hh])]

/-- A merge of filters of different shapes changes nothing. -/
theorem merge_of_shape_ne {f g : BloomFilter}
    (h : f.bit_count ≠ g.bit_count ∨ f.hash_count ≠ g.hash_count) : f.merge g = f := by
  rw [merge, dif_pos h]

/-- A merge keeps what the left filter covers. -/
theorem Covers.merge {f : BloomFilter} {v : Bytes} (h : f.Covers v) (g : BloomFilter) :
    (f.merge g).Covers v := by
  by_cases hs : f.bit_count ≠ g.bit_count ∨ f.hash_count ≠ g.hash_count
  · rwa [merge_of_shape_ne hs]
  · rw [not_or, not_not, not_not] at hs
    refine h.mono (f.merge_bit_count g).symm (f.merge_hash_count g).symm fun j hj => ?_
    rw [getBit_merge hs.1 hs.2, hj, Bool.true_or]

/-- A merge of filters of one shape also covers what the right filter covers. -/
theorem Covers.merge_right {g : BloomFilter} {v : Bytes} (h : g.Covers v) {f : BloomFilter}
    (hb : f.bit_count = g.bit_count) (hh : f.hash_count = g.hash_count) :
    (f.merge g).Covers v := by
  refine h.mono ?_ ?_ fun j hj => ?_
  · rw [merge_bit_count, hb]
  · rw [merge_hash_count, hh]
  · rw [getBit_merge hb hh, hj, Bool.or_true]

/-! ## Filters of some values -/

/-- The filter of some values, added one after the other. -/
def ofValues (bit_count hash_count : ℕ) (values : List Bytes) : BloomFilter :=
  values.foldl add (construct bit_count hash_count)

@[simp] theorem ofValues_append_singleton (bit_count hash_count : ℕ) (values : List Bytes)
    (value : Bytes) : ofValues bit_count hash_count (values ++ [value]) =
      (ofValues bit_count hash_count values).add value := by
  simp [ofValues]

/-- A filter of some values keeps its shape. -/
theorem ofValues_shape (bit_count hash_count : ℕ) (values : List Bytes) :
    (ofValues bit_count hash_count values).bit_count = bit_count ∧
      (ofValues bit_count hash_count values).hash_count = hash_count := by
  induction values using List.reverseRecOn with
  | nil => exact ⟨rfl, rfl⟩
  | append_singleton values value ih => simpa using ih

/-- The bits of a filter of some values: those that one of them addresses. -/
theorem getBit_ofValues {bit_count hash_count : ℕ} (hb : bit_count ≠ 0) (hh : hash_count ≠ 0)
    (values : List Bytes) (j : ℕ) :
    (ofValues bit_count hash_count values).getBit j = true ↔ ∃ value ∈ values, ∃ i < hash_count,
      (construct bit_count hash_count).bitIndex value i = j := by
  induction values using List.reverseRecOn with
  | nil => simp [ofValues, getBit_construct]
  | append_singleton values value ih =>
    obtain ⟨hbits, hhashes⟩ := ofValues_shape bit_count hash_count values
    rw [ofValues_append_singleton, getBit_add _ _ (by rwa [hbits]) (by rwa [hhashes]), hhashes,
      Bool.or_eq_true, decide_eq_true_eq, ih]
    have hindex : ∀ i, (ofValues bit_count hash_count values).bitIndex value i =
        (construct bit_count hash_count).bitIndex value i := fun i => bitIndex_congr hbits value i
    simp only [hindex, List.mem_append, List.mem_singleton]
    constructor
    · rintro (⟨i, hi, hj⟩ | ⟨v, hv, hrest⟩)
      · exact ⟨value, Or.inr rfl, i, hi, hj⟩
      · exact ⟨v, Or.inl hv, hrest⟩
    · rintro ⟨v, hv | rfl, i, hi, hj⟩
      · exact Or.inr ⟨v, hv, i, hi, hj⟩
      · exact Or.inl ⟨i, hi, hj⟩

/-- A filter of some values reports each of them. -/
theorem maybeContains_ofValues {bit_count hash_count : ℕ} (hb : bit_count ≠ 0)
    (hh : hash_count ≠ 0) {values : List Bytes} {value : Bytes} (h : value ∈ values) :
    (ofValues bit_count hash_count values).maybeContains value = true := by
  obtain ⟨hbits, hhashes⟩ := ofValues_shape bit_count hash_count values
  rw [maybeContains_iff_covers _ _ (by rwa [hbits]) (by rwa [hhashes])]
  intro i hi
  rw [getBit_ofValues hb hh]
  exact ⟨value, h, i, by rwa [hhashes] at hi, (bitIndex_congr hbits value i).symm⟩

/-- Without bits or hashes nothing is ever added. -/
theorem ofValues_of_degenerate {bit_count hash_count : ℕ} (h : bit_count = 0 ∨ hash_count = 0)
    (values : List Bytes) :
    ofValues bit_count hash_count values = construct bit_count hash_count := by
  induction values using List.reverseRecOn with
  | nil => rfl
  | append_singleton values value ih =>
    rw [ofValues_append_singleton, ih]
    unfold add
    exact if_pos h

/-- The filter depends on the set of the values only, not on their order or number. -/
theorem ofValues_congr (bit_count hash_count : ℕ) {values values' : List Bytes}
    (h : ∀ value, value ∈ values ↔ value ∈ values') :
    ofValues bit_count hash_count values = ofValues bit_count hash_count values' := by
  by_cases hdegenerate : bit_count = 0 ∨ hash_count = 0
  · rw [ofValues_of_degenerate hdegenerate, ofValues_of_degenerate hdegenerate]
  · obtain ⟨hb, hh⟩ := not_or.mp hdegenerate
    obtain ⟨hbits, hhashes⟩ := ofValues_shape bit_count hash_count values
    obtain ⟨hbits', hhashes'⟩ := ofValues_shape bit_count hash_count values'
    refine ext_getBit (hbits.trans hbits'.symm) (hhashes.trans hhashes'.symm) fun j => ?_
    rw [Bool.eq_iff_iff, getBit_ofValues hb hh, getBit_ofValues hb hh]
    simp only [h]

/-! ## Hexadecimal -/

/-- A digit that `to_hex` prints is read back by `hex_value`. -/
theorem hexValue_kHex {n : ℕ} (h : n < 16) : hexValue (kHex.getD n 0) = some (UInt8.ofNat n) := by
  interval_cases n <;> decide

/-- The two digits of a byte are read back as the byte. -/
theorem hexBytes_hexByte_append (byte : UInt8) (rest : Bytes) :
    hexBytes (hexByte byte ++ rest) = (hexBytes rest).map (byte :: ·) := by
  -- The digits are the quotient and the remainder by 16.
  have hhi : ((byte >>> 4) &&& 0x0f).toNat = byte.toNat / 16 := by
    have := byte.toNat_lt
    rw [UInt8.toNat_and, UInt8.toNat_shiftRight]
    show byte.toNat >>> 4 &&& 2 ^ 4 - 1 = _
    rw [Nat.and_two_pow_sub_one_eq_mod, Nat.shiftRight_eq_div_pow]
    omega
  have hlo : (byte &&& 0x0f).toNat = byte.toNat % 16 := by
    rw [UInt8.toNat_and]
    show byte.toNat &&& 2 ^ 4 - 1 = _
    rw [Nat.and_two_pow_sub_one_eq_mod]
  have hlt : byte.toNat / 16 < 16 := by
    have := byte.toNat_lt
    omega
  -- Shifted and joined, they are the byte again.
  have hjoin :
      ((UInt8.ofNat (byte.toNat / 16)) <<< 4) ||| UInt8.ofNat (byte.toNat % 16) = byte := by
    have key : ∀ b : Fin 256, ((UInt8.ofNat (b.val / 16)) <<< 4) ||| UInt8.ofNat (b.val % 16) =
        UInt8.ofNat b.val := by decide +kernel
    rw [key ⟨byte.toNat, byte.toNat_lt⟩, UInt8.ofNat_toNat]
  simp only [hexByte, hhi, hlo, List.cons_append, List.nil_append, hexBytes, hexValue_kHex hlt,
    hexValue_kHex (Nat.mod_lt byte.toNat (by decide : 0 < 16))]
  cases hexBytes rest with
  | none => rfl
  | some bytes => exact congrArg (fun b => some (b :: bytes)) hjoin

/-- The digits of a filter's bytes are read back as the bytes. -/
theorem hexBytes_flatMap (bytes : List UInt8) : hexBytes (bytes.flatMap hexByte) = some bytes := by
  induction bytes with
  | nil => rfl
  | cons byte bytes ih => rw [List.flatMap_cons, hexBytes_hexByte_append, ih, Option.map_some]

/-- `to_hex` prints two digits for every byte. -/
theorem length_toHex (f : BloomFilter) : f.toHex.length = (f.bit_count + 7) / 8 * 2 := by
  rw [toHex, List.length_flatMap, ← f.size_eq]
  simp [hexByte, List.map_const']

/-- What `from_hex` accepts. -/
theorem fromHex_eq_some_iff {bit_count hash_count : ℕ} {hex : Bytes} {f : BloomFilter} :
    fromHex bit_count hash_count hex = some f ↔
      hex.length = (bit_count + 7) / 8 * 2 ∧ hexBytes hex = some f.data ∧
        f.bit_count = bit_count ∧ f.hash_count = hash_count := by
  unfold fromHex
  split_ifs with hlen
  · split
    · next data h =>
      rw [Option.some.injEq]
      constructor
      · rintro rfl
        exact ⟨hlen, h, rfl, rfl⟩
      · rintro ⟨-, hdata, rfl, rfl⟩
        obtain ⟨_, _, data', hsize⟩ := f
        obtain rfl : data = data' := Option.some.inj (h.symm.trans hdata)
        rfl
    · next h => simp [h]
  · simp [hlen]

/-- A filter comes back from its hexadecimal form, when the receiver uses its shape. -/
theorem fromHex_toHex (f : BloomFilter) : fromHex f.bit_count f.hash_count f.toHex = some f :=
  fromHex_eq_some_iff.mpr ⟨f.length_toHex, hexBytes_flatMap f.data, rfl, rfl⟩

/-! ## No false negatives -/

/-- The shapes that `validate_config` admits. -/
def ValidShape (bit_count hash_count : ℕ) : Prop :=
  1 ≤ bit_count ∧ bit_count < 2 ^ 31 ∧ 1 ≤ hash_count ∧ hash_count < 2 ^ 31

/-- Decidable, so that a shape can be checked. -/
instance (bit_count hash_count : ℕ) : Decidable (ValidShape bit_count hash_count) :=
  inferInstanceAs (Decidable (_ ∧ _ ∧ _ ∧ _))

/-- The filters that the operations of the class build, each with the values added to it since it
was last cleared, directly or through a merged filter of the same shape. A copy is the same value,
so it needs no rule of its own. -/
inductive Built : BloomFilter → List Bytes → Prop where
  | construct {bit_count hash_count : ℕ} (h : ValidShape bit_count hash_count) :
      Built (construct bit_count hash_count) []
  | add {f : BloomFilter} {values : List Bytes} (value : Bytes) (hf : Built f values) :
      Built (f.add value) (value :: values)
  | merge {f g : BloomFilter} {values others : List Bytes} (hf : Built f values)
      (hg : Built g others) : Built (f.merge g)
        (if f.bit_count = g.bit_count ∧ f.hash_count = g.hash_count then others ++ values
          else values)
  | mergeForeign {f : BloomFilter} {values : List Bytes} (g : BloomFilter) (hf : Built f values) :
      Built (f.merge g) values
  | wire {f g : BloomFilter} {values : List Bytes} (hf : Built f values)
      (hg : fromHex f.bit_count f.hash_count f.toHex = some g) : Built g values
  | clear {f : BloomFilter} {values : List Bytes} (hf : Built f values) : Built f.clear []

/-- A built filter has a valid shape. -/
theorem Built.validShape {f : BloomFilter} {values : List Bytes} (h : Built f values) :
    ValidShape f.bit_count f.hash_count := by
  induction h with
  | construct h => exact h
  | add value _ ih => simpa using ih
  | merge _ _ ih _ => simpa using ih
  | mergeForeign g _ ih => simpa using ih
  | wire _ hg ih =>
    obtain ⟨-, -, hb, hh⟩ := fromHex_eq_some_iff.mp hg
    rw [hb, hh]
    exact ih
  | clear _ ih => exact ih

/-- A built filter covers every value added to it. -/
theorem Built.covers {f : BloomFilter} {values : List Bytes} (h : Built f values) :
    ∀ v ∈ values, f.Covers v := by
  induction h with
  | construct h => simp
  | @add f values value hf ih =>
    obtain ⟨hb, -, hh, -⟩ := hf.validShape
    intro v hv
    rcases List.mem_cons.mp hv with rfl | hv
    · exact f.covers_add_self v (by omega) (by omega)
    · exact (ih v hv).add value (by omega) (by omega)
  | @merge f g values others hf hg ihf ihg =>
    intro v hv
    -- The values of the other filter count when the shapes agree.
    split_ifs at hv with hs
    · rcases List.mem_append.mp hv with hv | hv
      · exact (ihg v hv).merge_right hs.1 hs.2
      · exact (ihf v hv).merge g
    · exact (ihf v hv).merge g
  | mergeForeign g _ ih => exact fun v hv => (ih v hv).merge g
  | @wire f g values hf hg ih =>
    -- The filter that was received is the one that was sent.
    obtain rfl : f = g := Option.some.inj ((fromHex_toHex f).symm.trans hg)
    exact ih
  | clear _ _ => simp

/-- Bloom filters have no false negatives, locally or across the wire: a filter that the operations
of the class built reports every value added to it since it was last cleared, every index that `add`
and `maybe_contains` compute addresses a byte of its data, and it survives the hexadecimal form. -/
theorem no_false_negatives (f : BloomFilter) (values : List Bytes) (h : Built f values) :
    (∀ v ∈ values, f.maybeContains v = true) ∧
      (∀ (v : Bytes) (i : ℕ), f.bitIndex v i / 8 < f.data.length) ∧
      fromHex f.bit_count f.hash_count f.toHex = some f := by
  obtain ⟨hb, -, hh, -⟩ := h.validShape
  refine ⟨fun v hv => ?_, fun v i => ?_, f.fromHex_toHex⟩
  · exact (f.maybeContains_iff_covers v (by omega) (by omega)).mpr (h.covers v hv)
  · exact f.div_lt_length (f.bitIndex_lt v i (by omega))

/-- A filter of 12 bits and 3 hashes with one value of its own and one merged in over the wire. -/
theorem no_false_negatives_merged :
    let g := (construct 12 3).add (ascii "beta")
    let f := ((construct 12 3).add (ascii "alpha")).merge g
    f.maybeContains (ascii "alpha") = true ∧ f.maybeContains (ascii "beta") = true := by
  have hshape : ValidShape 12 3 := by decide
  have hg : Built ((construct 12 3).add (ascii "beta")) [ascii "beta"] :=
    (Built.construct hshape).add (ascii "beta")
  have hf := ((Built.construct hshape).add (ascii "alpha")).merge (hg.wire (fromHex_toHex _))
  have h := (no_false_negatives _ _ hf).1
  exact ⟨h _ (by simp), h _ (by simp)⟩

end BloomFilter

end Netos
