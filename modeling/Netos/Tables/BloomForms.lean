import Mathlib.Algebra.Order.Field.Basic
import Netos.Core.LoadConfig
import Netos.Tables.BloomFilter

/-!
# The forms of a filter

What two filters have in common when they mean the same. `from_hex` reads exactly the hexadecimal
strings of the right length (`hex_exact`), and the filter of some keys depends on the set of the
keys alone (`key_set_determines_filter`), so that a filter comes back as it was and the same query
is recognised by its digest.

A filter whose number of bits is no multiple of eight has spare bits in its last byte. No operation
sets them but `from_hex`, which takes them from the string as they are; `canonicalForms_iff` says
that filters have one form exactly as long as no string sets them.
-/

namespace Netos.BloomFilter

open CString

/-! ## Hexadecimal digits -/

/-- A hexadecimal digit, in either case. -/
def isHexDigit (c : UInt8) : Bool := isDigit c || (97 ≤ c && c ≤ 102) || (65 ≤ c && c ≤ 70)

/-- What holds of the numbers below 256 holds of the bytes. -/
theorem forall_byte {p : UInt8 → Prop} (h : ∀ n : Fin 256, p (UInt8.ofNat n.val)) (c : UInt8) :
    p c := by
  have hc := h ⟨c.toNat, c.toNat_lt⟩
  rwa [UInt8.ofNat_toNat] at hc

/-- `hex_value` reads the hexadecimal digits. -/
theorem isSome_hexValue (c : UInt8) : (hexValue c).isSome = isHexDigit c := by
  revert c
  exact forall_byte (by decide +kernel)

/-- A digit has the value of its lower case. -/
theorem hexValue_toLower (c : UInt8) : hexValue (toLower c) = hexValue c := by
  revert c
  exact forall_byte (by decide +kernel)

/-- The value of a digit is printed as the digit, in lower case. -/
theorem kHex_of_hexValue {c v : UInt8} (h : hexValue c = some v) :
    v < 16 ∧ kHex.getD v.toNat 0 = toLower c := by
  have key : ∀ c : UInt8, (hexValue c).all
      fun v => decide (v < 16 ∧ kHex.getD v.toNat 0 = toLower c) :=
    forall_byte (by decide +kernel)
  simpa [h] using key c

/-- A byte made of two values is printed as their digits. -/
theorem hexByte_of_values {hi lo : UInt8} (hhi : hi < 16) (hlo : lo < 16) :
    hexByte ((hi <<< 4) ||| lo) = [kHex.getD hi.toNat 0, kHex.getD lo.toNat 0] := by
  have key : ∀ a b : Fin 16, hexByte ((UInt8.ofNat a.val <<< 4) ||| UInt8.ofNat b.val) =
      [kHex.getD a.val 0, kHex.getD b.val 0] := by decide +kernel
  have h := key ⟨hi.toNat, UInt8.lt_iff_toNat_lt.mp hhi⟩ ⟨lo.toNat, UInt8.lt_iff_toNat_lt.mp hlo⟩
  rwa [UInt8.ofNat_toNat, UInt8.ofNat_toNat] at h

/-- The two digits that `to_hex` prints for a byte denote the byte. -/
theorem hexValue_hexByte (byte : UInt8) :
    16 * ((hexValue (kHex.getD ((byte >>> 4) &&& 0x0f).toNat 0)).getD 0).toNat +
      ((hexValue (kHex.getD (byte &&& 0x0f).toNat 0)).getD 0).toNat = byte.toNat := by
  revert byte
  exact forall_byte (by decide +kernel)

/-! ## What `from_hex` accepts -/

/-- The loop of `from_hex` ends well on digits. -/
theorem exists_hexBytes : ∀ {hex : Bytes}, (∀ c ∈ hex, isHexDigit c = true) →
    ∃ bytes, hexBytes hex = some bytes
  | [], _ => ⟨[], rfl⟩
  | [_], _ => ⟨[], rfl⟩
  | hi :: lo :: rest, h => by
    obtain ⟨hhi, hlo, hrest⟩ := by simpa only [List.forall_mem_cons] using h
    rw [← isSome_hexValue, Option.isSome_iff_exists] at hhi hlo
    obtain ⟨vhi, hhi⟩ := hhi
    obtain ⟨vlo, hlo⟩ := hlo
    obtain ⟨bytes, hbytes⟩ := exists_hexBytes hrest
    exact ⟨_, by rw [hexBytes, hhi, hlo, hbytes]⟩

/-- Only on digits, and the bytes that it makes of them are printed as the digits, in lower case. -/
theorem digits_of_hexBytes : ∀ {hex : Bytes} {bytes : List UInt8}, hexBytes hex = some bytes →
    hex.length % 2 = 0 →
      (∀ c ∈ hex, isHexDigit c = true) ∧ bytes.flatMap hexByte = hex.map toLower
  | [], bytes, h, _ => by
    obtain rfl : [] = bytes := by simpa [hexBytes] using h
    exact ⟨List.forall_mem_nil _, rfl⟩
  | hi :: lo :: rest, bytes, h, heven => by
    unfold hexBytes at h
    split at h
    · next vhi vlo bytes' hhi hlo hrest =>
      obtain rfl := Option.some.inj h
      have hlen : rest.length % 2 = 0 := by
        rw [List.length_cons, List.length_cons] at heven
        omega
      obtain ⟨hdigits, hprinted⟩ := digits_of_hexBytes hrest hlen
      obtain ⟨hhi16, hhi'⟩ := kHex_of_hexValue hhi
      obtain ⟨hlo16, hlo'⟩ := kHex_of_hexValue hlo
      have hsome : ∀ {c v : UInt8}, hexValue c = some v → isHexDigit c = true := fun hc => by
        rw [← isSome_hexValue, hc]
        rfl
      refine ⟨by simpa only [List.forall_mem_cons] using ⟨hsome hhi, hsome hlo, hdigits⟩, ?_⟩
      rw [List.flatMap_cons, hexByte_of_values hhi16 hlo16, hhi', hlo', hprinted]
      rfl
    · cases h

/-- A string of `2 * ⌈bit_count / 8⌉` hexadecimal digits. -/
def FilterHex (bit_count : ℕ) (hex : Bytes) : Prop :=
  hex.length = 2 * ((bit_count + 7) / 8) ∧ ∀ c ∈ hex, isHexDigit c = true

/-- `from_hex` accepts these strings and no others. -/
theorem exists_fromHex_iff {bit_count hash_count : ℕ} {hex : Bytes} :
    (∃ f, fromHex bit_count hash_count hex = some f) ↔ FilterHex bit_count hex := by
  constructor
  · rintro ⟨f, hf⟩
    obtain ⟨hlen, hbytes, -, -⟩ := fromHex_eq_some_iff.mp hf
    exact ⟨by omega, (digits_of_hexBytes hbytes (by omega)).1⟩
  · rintro ⟨hlen, hdigits⟩
    obtain ⟨bytes, hbytes⟩ := exists_hexBytes hdigits
    have hsize : bytes.length = (bit_count + 7) / 8 := by
      rw [length_of_hexBytes hbytes, hlen]
      omega
    exact ⟨⟨bit_count, hash_count, bytes, hsize⟩,
      fromHex_eq_some_iff.mpr ⟨by omega, hbytes, rfl, rfl⟩⟩

/-- Filter hex is decoded exactly: `from_hex` succeeds on the strings of `2 * ⌈bit_count / 8⌉`
hexadecimal digits in either case and on no others, `to_hex` of what it returns is the string in
lower case, and a filter comes back from `to_hex` as it was. -/
theorem hex_exact (bit_count hash_count : ℕ) :
    (∀ s : Bytes, (∃ f, fromHex bit_count hash_count s = some f) ↔
      s.length = 2 * ((bit_count + 7) / 8) ∧ ∀ c ∈ s, isHexDigit c = true) ∧
    (∀ (s : Bytes) (f : BloomFilter), fromHex bit_count hash_count s = some f →
      f.bit_count = bit_count ∧ f.hash_count = hash_count ∧ f.toHex = s.map toLower) ∧
    ∀ f : BloomFilter, f.bit_count = bit_count → f.hash_count = hash_count →
      fromHex bit_count hash_count f.toHex = some f := by
  refine ⟨fun s => exists_fromHex_iff, fun s f hf => ?_, ?_⟩
  · obtain ⟨hlen, hbytes, hb, hh⟩ := fromHex_eq_some_iff.mp hf
    exact ⟨hb, hh, (digits_of_hexBytes hbytes (by omega)).2⟩
  · rintro f rfl rfl
    exact fromHex_toHex f

/-! ## Filters of sets of keys -/

/-- The filter of two lists of keys is the merge of their filters. -/
theorem merge_ofValues (bit_count hash_count : ℕ) (ks ls : List Bytes) :
    (ofValues bit_count hash_count ks).merge (ofValues bit_count hash_count ls) =
      ofValues bit_count hash_count (ks ++ ls) := by
  obtain ⟨hbits, hhashes⟩ := ofValues_shape bit_count hash_count ks
  obtain ⟨hbits', hhashes'⟩ := ofValues_shape bit_count hash_count ls
  obtain ⟨hbits'', hhashes''⟩ := ofValues_shape bit_count hash_count (ks ++ ls)
  refine ext_getBit (by rw [merge_bit_count, hbits, hbits''])
    (by rw [merge_hash_count, hhashes, hhashes'']) fun j => ?_
  rw [getBit_merge (hbits.trans hbits'.symm) (hhashes.trans hhashes'.symm)]
  by_cases hdegenerate : bit_count = 0 ∨ hash_count = 0
  · -- Nothing is ever added.
    simp only [ofValues_of_degenerate hdegenerate, getBit_construct, Bool.or_false]
  · obtain ⟨hb, hh⟩ := not_or.mp hdegenerate
    rw [Bool.eq_iff_iff, Bool.or_eq_true, getBit_ofValues hb hh, getBit_ofValues hb hh,
      getBit_ofValues hb hh]
    simp only [List.mem_append, or_and_right, exists_or]

/-- A filter depends only on the set of keys: lists of keys with the same elements give the same
filter, to the byte; merging the filter of a list into the filter of another gives the filter of the
two lists; and merging a filter of another shape changes nothing. -/
theorem key_set_determines_filter (bit_count hash_count : ℕ) :
    (∀ ks ls : List Bytes, (∀ key, key ∈ ks ↔ key ∈ ls) →
      ofValues bit_count hash_count ks = ofValues bit_count hash_count ls ∧
        (ofValues bit_count hash_count ks).toHex = (ofValues bit_count hash_count ls).toHex ∧
          (ofValues bit_count hash_count ks).digest = (ofValues bit_count hash_count ls).digest) ∧
    (∀ ks ls : List Bytes,
      (ofValues bit_count hash_count ks).merge (ofValues bit_count hash_count ls) =
        ofValues bit_count hash_count (ks ++ ls)) ∧
    ∀ f g : BloomFilter, f.bit_count ≠ g.bit_count ∨ f.hash_count ≠ g.hash_count →
      f.merge g = f := by
  refine ⟨fun ks ls h => ?_, merge_ofValues bit_count hash_count, fun f g => merge_of_shape_ne⟩
  have heq := ofValues_congr bit_count hash_count h
  exact ⟨heq, by rw [heq], by rw [heq]⟩

/-! ## One form -/

/-- The filters that the operations of the class reach, when these are the strings that `from_hex`
is given for each shape. -/
inductive Reached (decoded : ℕ → ℕ → Set Bytes) : BloomFilter → Prop where
  | construct {bit_count hash_count : ℕ} (h : ValidShape bit_count hash_count) :
      Reached decoded (construct bit_count hash_count)
  | add {f : BloomFilter} (value : Bytes) (hf : Reached decoded f) : Reached decoded (f.add value)
  | clear {f : BloomFilter} (hf : Reached decoded f) : Reached decoded f.clear
  | merge {f g : BloomFilter} (hf : Reached decoded f) (hg : Reached decoded g) :
      Reached decoded (f.merge g)
  | decode {bit_count hash_count : ℕ} {hex : Bytes} {f : BloomFilter}
      (h : ValidShape bit_count hash_count) (hmem : hex ∈ decoded bit_count hash_count)
      (hf : fromHex bit_count hash_count hex = some f) : Reached decoded f

/-- The filters reached have one form: no spare bit is set, so that the fill ratio is a ratio, and
filters of one shape with the same bits are printed and counted as the same. -/
structure CanonicalForms (decoded : ℕ → ℕ → Set Bytes) : Prop where
  /-- No bit from `bit_count` on is set. -/
  clear : ∀ f, Reached decoded f → ∀ i, f.bit_count ≤ i → PackedBits.getBit f.data i = false
  /-- The fill ratio is at most one. -/
  ratio : ∀ f, Reached decoded f → f.fillRatio ≤ 1
  /-- The bits below `bit_count` determine the hexadecimal form and the digest. -/
  same : ∀ f g, Reached decoded f → Reached decoded g → f.bit_count = g.bit_count →
    f.hash_count = g.hash_count → (∀ i < f.bit_count, f.getBit i = g.getBit i) →
      f.toHex = g.toHex ∧ f.digest = g.digest

/-- The number that the last two digits of a string denote. -/
def lastByte (hex : Bytes) : ℕ :=
  match hex.reverse with
  | lo :: hi :: _ => 16 * ((hexValue hi).getD 0).toNat + ((hexValue lo).getD 0).toNat
  | _ => 0

/-- The last byte of a string has none of the spare bits, if there are any. -/
def SpareBitsClear (bit_count : ℕ) (hex : Bytes) : Prop :=
  bit_count % 8 = 0 ∨ lastByte hex < 2 ^ (bit_count % 8)

/-- Decidable, so that a string can be checked. -/
instance (bit_count : ℕ) (hex : Bytes) : Decidable (SpareBitsClear bit_count hex) :=
  inferInstanceAs (Decidable (_ ∨ _))

/-- The last byte of a string that ends in the digits of a byte. -/
theorem lastByte_append_hexByte (front : Bytes) (byte : UInt8) :
    lastByte (front ++ hexByte byte) = byte.toNat := by
  rw [lastByte, List.reverse_append]
  exact hexValue_hexByte byte

/-- The last byte does not depend on the case of the digits. -/
theorem lastByte_map_toLower (hex : Bytes) : lastByte (hex.map toLower) = lastByte hex := by
  rw [lastByte, lastByte, ← List.map_reverse]
  cases hex.reverse with
  | nil => rfl
  | cons lo rest =>
    cases rest with
    | nil => rfl
    | cons hi rest => simp only [List.map_cons, hexValue_toLower]

/-- What `from_hex` returns has its spare bits clear exactly if the string has. -/
theorem clearFrom_fromHex_iff {bit_count hash_count : ℕ} {hex : Bytes} {f : BloomFilter}
    (hb : bit_count ≠ 0) (hf : fromHex bit_count hash_count hex = some f) :
    PackedBits.ClearFrom f.data f.bit_count ↔ SpareBitsClear bit_count hex := by
  obtain ⟨hlen, hbytes, rfl, rfl⟩ := fromHex_eq_some_iff.mp hf
  have hprinted := (digits_of_hexBytes hbytes (by omega)).2
  -- There is a last byte, and its digits end the string.
  have hne : f.data ≠ [] := by
    intro hnil
    have hsize := f.size_eq
    rw [hnil, List.length_nil] at hsize
    omega
  obtain ⟨init, last, hdata⟩ : ∃ init last, f.data = init ++ [last] :=
    ⟨_, _, (List.dropLast_append_getLast hne).symm⟩
  have hsize := f.size_eq
  rw [hdata, List.length_append, List.length_singleton] at hsize
  have hlast : lastByte hex = last.toNat := by
    rw [← lastByte_map_toLower, ← hprinted, hdata, List.flatMap_append, List.flatMap_singleton,
      lastByte_append_hexByte]
  rw [hdata, PackedBits.clearFrom_iff hsize, SpareBitsClear, hlast]

/-- Where the spare bits are clear, at most `bit_count` bits are set. -/
theorem fillRatio_le_one {f : BloomFilter} (h : PackedBits.ClearFrom f.data f.bit_count) :
    f.fillRatio ≤ 1 := by
  have hcount : (f.data.map popcount).sum ≤ f.bit_count :=
    (PackedBits.sum_countP_testBit f.data).trans_le (PackedBits.countP_getBit_le h _)
  unfold fillRatio
  split_ifs with hempty
  · exact zero_le_one
  · have hpos : (0 : ℚ) < f.bit_count :=
      Nat.cast_pos.mpr (Nat.pos_of_ne_zero (not_or.mp hempty).1)
    rw [div_le_one hpos]
    exact_mod_cast hcount

/-- Where the spare bits are clear, the other bits determine the filter. -/
theorem eq_of_bits {f g : BloomFilter} (hf : PackedBits.ClearFrom f.data f.bit_count)
    (hg : PackedBits.ClearFrom g.data g.bit_count) (hb : f.bit_count = g.bit_count)
    (hh : f.hash_count = g.hash_count) (h : ∀ i < f.bit_count, f.getBit i = g.getBit i) :
    f = g := by
  refine ext_getBit hb hh fun i => ?_
  rcases Nat.lt_or_ge i f.bit_count with hi | hi
  · exact h i hi
  · unfold getBit
    rw [hf i hi, hg i (hb ▸ hi), ite_self, ite_self]

section Reached

variable {decoded : ℕ → ℕ → Set Bytes} {f : BloomFilter}

/-- A filter reached has a valid shape. -/
theorem Reached.validShape (h : Reached decoded f) : ValidShape f.bit_count f.hash_count := by
  induction h with
  | construct h => exact h
  | add value _ ih => simpa using ih
  | clear _ ih => exact ih
  | merge _ _ ih _ => simpa using ih
  | decode h _ hf =>
    obtain ⟨-, -, rfl, rfl⟩ := fromHex_eq_some_iff.mp hf
    exact h

/-- The spare bits of a filter, read by `get_bit`. -/
theorem clearFrom_iff_getBit (hb : f.bit_count ≠ 0) :
    PackedBits.ClearFrom f.data f.bit_count ↔ ∀ i, f.bit_count ≤ i → f.getBit i = false :=
  forall_congr' fun i => by rw [getBit, if_neg hb]

/-- Adding a value sets no spare bit, as the bits of the value are below `bit_count`. -/
theorem clearFrom_add (hb : f.bit_count ≠ 0) (hh : f.hash_count ≠ 0) (value : Bytes)
    (h : PackedBits.ClearFrom f.data f.bit_count) :
    PackedBits.ClearFrom (f.add value).data (f.add value).bit_count := by
  have hb' : (f.add value).bit_count ≠ 0 := by rwa [add_bit_count]
  rw [clearFrom_iff_getBit hb] at h
  rw [clearFrom_iff_getBit hb', add_bit_count]
  intro i hi
  have hnew : ¬ ∃ j < f.hash_count, f.bitIndex value j = i := by
    rintro ⟨j, -, rfl⟩
    exact absurd (f.bitIndex_lt value j hb) (not_lt.mpr hi)
  rw [f.getBit_add value hb hh, decide_eq_false hnew, h i hi, Bool.or_false]

/-- Nor does clearing. -/
theorem clearFrom_clear (f : BloomFilter) :
    PackedBits.ClearFrom f.clear.data f.clear.bit_count := by
  have hdata : f.clear.data = List.replicate f.data.length 0 := List.map_const'
  intro i _
  rw [hdata, PackedBits.getBit_replicate_zero]

/-- Nor does merging filters that have none set. -/
theorem clearFrom_merge {g : BloomFilter} (hb : f.bit_count ≠ 0)
    (hf : PackedBits.ClearFrom f.data f.bit_count)
    (hg : PackedBits.ClearFrom g.data g.bit_count) :
    PackedBits.ClearFrom (f.merge g).data (f.merge g).bit_count := by
  by_cases hshape : f.bit_count ≠ g.bit_count ∨ f.hash_count ≠ g.hash_count
  · rwa [merge_of_shape_ne hshape]
  · obtain ⟨hbits, hhashes⟩ := not_or.mp hshape
    rw [not_not] at hbits hhashes
    have hb' : (f.merge g).bit_count ≠ 0 := by rwa [merge_bit_count]
    rw [clearFrom_iff_getBit hb] at hf
    rw [clearFrom_iff_getBit (hbits ▸ hb)] at hg
    rw [clearFrom_iff_getBit hb', merge_bit_count]
    intro i hi
    rw [getBit_merge hbits hhashes, hf i hi, hg i (hbits ▸ hi), Bool.or_false]

/-- As long as no string sets spare bits, no filter has any set. -/
theorem Reached.clearFrom (hclear : ∀ bit_count hash_count, ValidShape bit_count hash_count →
    ∀ hex ∈ decoded bit_count hash_count, FilterHex bit_count hex → SpareBitsClear bit_count hex)
    (h : Reached decoded f) : PackedBits.ClearFrom f.data f.bit_count := by
  induction h with
  | construct h => exact fun i _ => PackedBits.getBit_replicate_zero _ _
  | add value hf ih =>
    obtain ⟨hb, -, hh, -⟩ := hf.validShape
    exact clearFrom_add (Nat.one_le_iff_ne_zero.mp hb) (Nat.one_le_iff_ne_zero.mp hh) value ih
  | clear hf _ => exact clearFrom_clear _
  | merge hf hg ihf ihg =>
    exact clearFrom_merge (Nat.one_le_iff_ne_zero.mp hf.validShape.1) ihf ihg
  | @decode bit_count hash_count hex f h hmem hf =>
    have hb : bit_count ≠ 0 := Nat.one_le_iff_ne_zero.mp h.1
    rw [clearFrom_fromHex_iff hb hf]
    exact hclear _ _ h hex hmem (exists_fromHex_iff.mp ⟨f, hf⟩)

end Reached

/-- Filters have one form exactly as long as no string that is decoded, of the right length and of
hexadecimal digits, sets a spare bit of its last byte. -/
theorem canonicalForms_iff (decoded : ℕ → ℕ → Set Bytes) :
    CanonicalForms decoded ↔ ∀ bit_count hash_count, ValidShape bit_count hash_count →
      ∀ hex ∈ decoded bit_count hash_count, FilterHex bit_count hex →
        SpareBitsClear bit_count hex := by
  constructor
  · intro h bit_count hash_count hshape hex hmem hhex
    obtain ⟨f, hf⟩ := exists_fromHex_iff.mpr hhex
    have hb : bit_count ≠ 0 := Nat.one_le_iff_ne_zero.mp hshape.1
    exact (clearFrom_fromHex_iff hb hf).mp (h.clear f (Reached.decode hshape hmem hf))
  · intro hclear
    refine ⟨fun f hf => hf.clearFrom hclear, fun f hf => fillRatio_le_one (hf.clearFrom hclear),
      fun f g hf hg hb hh hbits => ?_⟩
    obtain rfl := eq_of_bits (hf.clearFrom hclear) (hg.clearFrom hclear) hb hh hbits
    exact ⟨rfl, rfl⟩

/-- `from_hex` takes spare bits as they are: two filters of 12 bits with the same bits have
different digests, and one has more bits set than it has bits. -/
theorem spare_bits_decoded :
    (∃ f g full, fromHex 12 3 (ascii "00f0") = some f ∧ fromHex 12 3 (ascii "0000") = some g ∧
      fromHex 12 3 (ascii "ffff") = some full ∧ (∀ i < 12, f.getBit i = g.getBit i) ∧
        f.digest ≠ g.digest ∧ 1 < full.fillRatio) ∧
    ¬ CanonicalForms fun _ _ => Set.univ := by
  refine ⟨⟨_, _, _, rfl, rfl, rfl, by decide, by decide, by decide +kernel⟩, fun h => ?_⟩
  have hdecoded : fromHex 12 3 (ascii "00f0") = some ⟨12, 3, [0, 240], rfl⟩ := rfl
  have hbit := h.clear _ (Reached.decode (by decide) (Set.mem_univ _) hdecoded) 12 (le_refl 12)
  exact absurd hbit (by decide)

end Netos.BloomFilter
