import Netos.Core.LoadConfig
import Netos.Core.Message
import Netos.Node.Node

/-!
# Numbers from outside

The three parsers of integers that come from outside: `parse_int` for the hop limit of a message,
`get_setting_int` for the settings, and `parse_uint64` for the time of creation of a Query-BF. They
accept a token if the C library reads a number up to its end or to a NUL (`Converts`), and then
`strtol` saturates and a cast narrows what it read, or `strtoull` negates it. `outside_numbers_iff`
says for which tokens the result is the number that the token states.
-/

namespace Netos

open CString

/-- What `parse_int` and `get_setting_int` return for a token is the fallback, or the token is a
numeral of the result. -/
def TakenAsInt (token : Bytes) (fallback result : Int32) : Prop :=
  result ≠ fallback → IsNumeral token result.toInt

/-- The number that is read for a token is stated by the whole token and an `int`, unless it becomes
the fallback by the cast. -/
def IntOrFallback (token : Bytes) (fallback : Int32) : Prop :=
  ∀ z, Converts token z → castInt z = fallback ∨ IsNumeral token z ∧ -2 ^ 31 ≤ z ∧ z < 2 ^ 31

/-! ## `int`s -/

/-- `parse_int` casts the number of a token that is converted. -/
theorem parseInt_of_converts {token : Bytes} {z : ℤ} (h : Converts token z) (fallback : Int32) :
    parseInt token fallback = castInt z := by
  rw [parseInt, if_neg h.ne_nil, h.strtol_eq]
  exact if_neg (not_not.mpr rfl)

/-- On any other token it falls back. -/
theorem parseInt_of_not_converts {token : Bytes} (h : ∀ z, ¬ Converts token z)
    (fallback : Int32) : parseInt token fallback = fallback := by
  unfold parseInt
  split_ifs
  · rfl
  · cases hscan : scanNumeral token with
    | none => rw [strtol, hscan, Option.map_none]
    | some n =>
      rw [strtol, hscan, Option.map_some]
      exact if_pos fun hrest => h n.value (Converts.of_scanNumeral hscan hrest)

/-- When `parse_int` takes a token as it should. -/
theorem takenAsInt_parseInt_iff (token : Bytes) (fallback : Int32) :
    TakenAsInt token fallback (parseInt token fallback) ↔ IntOrFallback token fallback := by
  constructor
  · intro h z hz
    rw [parseInt_of_converts hz] at h
    refine or_iff_not_imp_left.mpr fun hne => ?_
    -- The token is a numeral of the result, which is therefore the number read.
    have hnumeral := h hne
    have hvalue : z = (castInt z).toInt := hz.value_unique (Converts.of_isNumeral hnumeral)
    have hl := (castInt z).le_toInt
    have hu := (castInt z).toInt_lt
    exact ⟨hvalue ▸ hnumeral, by omega, by omega⟩
  · intro h hne
    by_cases hconverts : ∃ z, Converts token z
    · obtain ⟨z, hz⟩ := hconverts
      rw [parseInt_of_converts hz] at hne ⊢
      obtain ⟨hnumeral, hl, hu⟩ := (h z hz).resolve_left hne
      rwa [toInt_castInt hl hu]
    · exact absurd (parseInt_of_not_converts (not_exists.mp hconverts) fallback) hne

/-- `get_setting_int` parses a setting as `parse_int` parses a token. -/
theorem getSettingInt_eq_parseInt (environ : Environ) (env_file : EnvMap) (key : String)
    (fallback : Int32) : getSettingInt environ env_file key fallback =
      parseInt (getSetting environ env_file key []) fallback := rfl

/-! ## Times of creation -/

/-- `parse_uint64` succeeds on the tokens that are converted. -/
theorem parseUint64_of_converts {value : Bytes} {z : ℤ} (h : Converts value z) :
    parseUint64 value =
      some (if 2 ^ 64 ≤ z.natAbs then UInt64.ofNat (2 ^ 64 - 1) else UInt64.ofInt z) := by
  rw [parseUint64, if_neg h.ne_nil, h.strtoull_eq]
  exact if_neg (not_not.mpr rfl)

/-- On no others. -/
theorem converts_of_parseUint64 {value : Bytes} {v : UInt64} (h : parseUint64 value = some v) :
    ∃ z, Converts value z := by
  unfold parseUint64 at h
  split_ifs at h with hne
  cases hscan : scanNumeral value with
  | none =>
    rw [strtoull, hscan, Option.map_none] at h
    cases h
  | some n =>
    rw [strtoull, hscan, Option.map_some] at h
    dsimp only at h
    by_cases hrest : n.rest = []
    · exact ⟨n.value, Converts.of_scanNumeral hscan hrest⟩
    · rw [if_pos hrest] at h
      cases h

/-- When `parse_uint64` takes a token as it should. -/
theorem parseUint64_exact_iff (value : Bytes) :
    (∀ v, parseUint64 value = some v → IsNumeral value v.toNat) ↔
      ∀ z, Converts value z → IsNumeral value z ∧ 0 ≤ z ∧ z < 2 ^ 64 := by
  constructor
  · intro h z hz
    obtain ⟨v, hv⟩ : ∃ v, parseUint64 value = some v := ⟨_, parseUint64_of_converts hz⟩
    have hnumeral := h v hv
    have hvalue : z = v.toNat := hz.value_unique (Converts.of_isNumeral hnumeral)
    have hu := v.toNat_lt
    exact ⟨hvalue ▸ hnumeral, by omega, by omega⟩
  · intro h v hv
    obtain ⟨z, hz⟩ := converts_of_parseUint64 hv
    obtain ⟨hnumeral, hl, hu⟩ := h z hz
    obtain ⟨n, rfl⟩ := Int.eq_ofNat_of_zero_le hl
    have hn : n < 2 ^ 64 := by omega
    rw [parseUint64_of_converts hz, if_neg (by omega), ofInt_natCast hn] at hv
    rwa [← Option.some.inj hv, UInt64.toNat_ofNat_of_lt' hn]

/-- Integers from outside are taken exactly or not at all, exactly as follows. `parse_int` and
`get_setting_int` take a token so if the number that is read for it becomes the fallback by the cast
or is an `int` stated by the whole token, or if none is read. `parse_uint64` takes it so if the
number that is read for it is stated by the whole token and below `2^64`, or if none is read. -/
theorem outside_numbers_iff (token : Bytes) (fallback : Int32) (environ : Environ)
    (env_file : EnvMap) (key : String) :
    (TakenAsInt token fallback (parseInt token fallback) ↔ IntOrFallback token fallback) ∧
    (TakenAsInt (getSetting environ env_file key []) fallback
        (getSettingInt environ env_file key fallback) ↔
      IntOrFallback (getSetting environ env_file key []) fallback) ∧
    ((∀ v, parseUint64 token = some v → IsNumeral token v.toNat) ↔
      ∀ z, Converts token z → IsNumeral token z ∧ 0 ≤ z ∧ z < 2 ^ 64) := by
  refine ⟨takenAsInt_parseInt_iff token fallback, ?_, parseUint64_exact_iff token⟩
  rw [getSettingInt_eq_parseInt]
  exact takenAsInt_parseInt_iff _ fallback

/-- A numeral denotes one integer, the one that the scanner finds. -/
theorem value_of_isNumeral {s : Bytes} {z : ℤ} (h : IsNumeral s z) :
    (scanNumeral s).map Numeral.value = some z := by
  obtain ⟨rest, hstarts, -⟩ := Converts.of_isNumeral h
  obtain ⟨n, hn, hvalue, -⟩ := scanNumeral_eq_some_iff.mpr ⟨rest, hstarts, rfl⟩
  rw [hn, Option.map_some, hvalue]

/-- A hop limit of `2^32 + 3` becomes 3, a port of `2^32 + 9001` becomes 9001, and a time of
creation of -1 becomes the last millisecond that there is. -/
theorem outside_numbers_converted :
    (parseInt (ascii "4294967299") 0 = 3 ∧
      ¬ TakenAsInt (ascii "4294967299") 0 (parseInt (ascii "4294967299") 0)) ∧
    (getSettingInt (fun _ => some (ascii "4294976297")) ∅ "NETOS_BIND_PORT" 9000 = 9001 ∧
      ¬ TakenAsInt (ascii "4294976297") 9000
        (getSettingInt (fun _ => some (ascii "4294976297")) ∅ "NETOS_BIND_PORT" 9000)) ∧
    (parseUint64 (ascii "-1") = some 18446744073709551615 ∧
      ¬ IsNumeral (ascii "-1") (18446744073709551615 : UInt64).toNat) := by
  refine ⟨⟨by decide, fun h => ?_⟩, ⟨by decide, fun h => ?_⟩, by decide, fun h => ?_⟩
  · exact absurd (value_of_isNumeral (h (by decide))) (by decide)
  · exact absurd (value_of_isNumeral (h (by decide))) (by decide)
  · exact absurd (value_of_isNumeral h) (by decide)

end Netos
