import Netos.Lib.Blanks
import Netos.Lib.Delimited

/-!
# Texts and their UTF-8 bytes

A program that reads a file as a text and one that reads it as bytes see the same thing as long as
they look for ASCII characters. A test on bytes that treats all bytes from 128 on alike (`Uniform`)
is a test on characters (`onChar`), and taking, dropping, stripping and splitting by it commute with
the encoding (`takeWhile_encode`, `dropWhile_encode`, `strip_encode`, `splitOn_encode`). Decoding is
the library's; `decode_eq_some_iff` says that it inverts the encoding.
-/

namespace Utf8

/-- The encoding of a text. -/
def encode (t : List Char) : List UInt8 := t.flatMap String.utf8EncodeChar

/-- The text that bytes encode, if there is one. -/
def decode (s : List UInt8) : Option (List Char) := s.toByteArray.utf8Decode?.map Array.toList

/-- Decoding inverts the encoding. -/
theorem decode_eq_some_iff {s : List UInt8} {t : List Char} : decode s = some t ↔ encode t = s := by
  have hencode : ∀ u : List Char, (encode u).toByteArray = u.utf8Encode := fun u => rfl
  have hdecode : ∀ u : List Char, decode (encode u) = some u := fun u => by
    rw [decode, hencode, List.utf8Decode?_utf8Encode, Option.map_some]
  refine ⟨fun h => ?_, fun h => h ▸ hdecode t⟩
  have hsome : s.toByteArray.utf8Decode?.isSome := by
    obtain ⟨a, ha, -⟩ := Option.map_eq_some_iff.mp h
    rw [ha, Option.isSome_some]
  obtain ⟨u, hu⟩ := ByteArray.isSome_utf8Decode?_iff.mp hsome
  obtain rfl : s = encode u := List.toByteArray_inj.mp hu
  rw [Option.some.inj ((hdecode u).symm.trans h)]

@[simp] theorem encode_nil : encode [] = [] := rfl

@[simp] theorem encode_cons (c : Char) (t : List Char) :
    encode (c :: t) = String.utf8EncodeChar c ++ encode t := List.flatMap_cons

@[simp] theorem encode_append (t u : List Char) : encode (t ++ u) = encode t ++ encode u :=
  List.flatMap_append

/-- Different texts have different encodings. -/
theorem encode_injective : Function.Injective encode := fun _ _ h =>
  Option.some.inj ((decode_eq_some_iff.mpr h).symm.trans (decode_eq_some_iff.mpr rfl))

/-- The byte of an ASCII character. -/
def byte (c : Char) : UInt8 := c.toNat.toUInt8

/-- An ASCII character is encoded by its byte. -/
theorem encodeChar_of_ascii {c : Char} (h : c.toNat < 128) :
    String.utf8EncodeChar c = [byte c] := by
  have hle : c.val.toNat ≤ 127 := Nat.le_of_lt_succ h
  rw [String.utf8EncodeChar]
  exact if_pos hle

/-- Any other character is encoded by bytes from 128 on. -/
theorem le_of_mem_encodeChar {c : Char} (h : 128 ≤ c.toNat) {b : UInt8}
    (hb : b ∈ String.utf8EncodeChar c) : 128 ≤ b := by
  have hgt : ¬ c.val.toNat ≤ 127 := Nat.not_le.mpr h
  have hlarge : ∀ n : ℕ, 128 ≤ n % 256 → (128 : UInt8) ≤ UInt8.ofNat n := fun n hn => by
    rw [UInt8.le_iff_toNat_le, UInt8.toNat_ofNat']
    exact hn
  unfold String.utf8EncodeChar at hb
  dsimp only at hb
  rw [if_neg hgt] at hb
  split_ifs at hb
  · simp only [List.mem_cons, List.not_mem_nil, or_false] at hb
    rcases hb with rfl | rfl <;> exact hlarge _ (by omega)
  · simp only [List.mem_cons, List.not_mem_nil, or_false] at hb
    rcases hb with rfl | rfl | rfl <;> exact hlarge _ (by omega)
  · simp only [List.mem_cons, List.not_mem_nil, or_false] at hb
    rcases hb with rfl | rfl | rfl | rfl <;> exact hlarge _ (by omega)

/-- A character has at least one byte. -/
theorem encodeChar_ne_nil (c : Char) : String.utf8EncodeChar c ≠ [] := by
  rw [← List.length_pos_iff, String.length_utf8EncodeChar]
  exact c.utf8Size_pos

/-- Only the empty text has no bytes. -/
theorem encode_eq_nil_iff {t : List Char} : encode t = [] ↔ t = [] := by
  cases t with
  | nil => simp
  | cons c t => simp

/-! ## Tests on bytes and on characters -/

/-- A test that does not tell the bytes of the characters outside ASCII apart. -/
def Uniform (p : UInt8 → Bool) : Prop := ∀ b, 128 ≤ b → p b = p 128

/-- The test of a character: that of its bytes. -/
def onChar (p : UInt8 → Bool) (c : Char) : Bool := (String.utf8EncodeChar c).all p

/-- An ASCII character passes if its byte does. -/
theorem onChar_of_ascii (p : UInt8 → Bool) {c : Char} (h : c.toNat < 128) :
    onChar p c = p (byte c) := by
  rw [onChar, encodeChar_of_ascii h, List.all_cons, List.all_nil, Bool.and_true]

/-- All bytes of a character pass a uniform test, or none does. -/
theorem Uniform.onChar_eq {p : UInt8 → Bool} (hp : Uniform p) {c : Char} {b : UInt8}
    (hb : b ∈ String.utf8EncodeChar c) : p b = onChar p c := by
  by_cases hc : c.toNat < 128
  · rw [encodeChar_of_ascii hc, List.mem_singleton] at hb
    rw [onChar_of_ascii p hc, hb]
  · have hlarge : ∀ d ∈ String.utf8EncodeChar c, p d = p 128 := fun d hd =>
      hp d (le_of_mem_encodeChar (Nat.le_of_not_lt hc) hd)
    rw [hlarge b hb]
    unfold onChar
    cases h128 : p 128 with
    | true => exact (List.all_eq_true.mpr fun d hd => (hlarge d hd).trans h128).symm
    | false =>
      refine (List.all_eq_false.mpr ⟨b, hb, ?_⟩).symm
      rw [hlarge b hb, h128]
      exact Bool.false_ne_true

/-- Outside ASCII, a uniform test gives what it gives on 128. -/
theorem Uniform.onChar_of_not_ascii {p : UInt8 → Bool} (hp : Uniform p) {c : Char}
    (h : 128 ≤ c.toNat) : onChar p c = p 128 := by
  obtain ⟨b, hb⟩ := List.exists_mem_of_ne_nil _ (encodeChar_ne_nil c)
  rw [← hp.onChar_eq hb, hp b (le_of_mem_encodeChar h hb)]

/-- The byte of an ASCII character is its number. -/
theorem toNat_byte {c : Char} (h : c.toNat < 128) : (byte c).toNat = c.toNat := by
  rw [byte, Nat.toUInt8_eq, UInt8.toNat_ofNat']
  omega

/-- Being another byte than an ASCII one is a uniform test. -/
theorem uniform_ne {d : Char} (hd : d.toNat < 128) : Uniform (· != byte d) := fun b hb => by
  have hbyte : (byte d).toNat = d.toNat := toNat_byte hd
  have hother : ∀ b : UInt8, 128 ≤ b → (b != byte d) = true := fun b hb => by
    rw [bne_iff_ne]
    rintro rfl
    rw [UInt8.le_iff_toNat_le, hbyte] at hb
    exact absurd hd (Nat.not_lt.mpr hb)
  exact (hother b hb).trans (hother 128 (by decide)).symm

/-- It is the test of being another character. -/
theorem onChar_ne {d : Char} (hd : d.toNat < 128) : onChar (· != byte d) = (· != d) := by
  funext c
  by_cases hc : c.toNat < 128
  · rw [onChar_of_ascii _ hc, Bool.eq_iff_iff, bne_iff_ne, bne_iff_ne, not_iff_not]
    refine ⟨fun h => ?_, fun h => by rw [h]⟩
    rw [← Char.toNat_inj, ← toNat_byte hc, h, toNat_byte hd]
  · have hne : c ≠ d := fun h => hc (h ▸ hd)
    have h128 : ((128 : UInt8) != byte d) = true := by
      rw [bne_iff_ne]
      intro h
      rw [← toNat_byte hd, ← h] at hd
      exact absurd hd (by decide)
    rw [(uniform_ne hd).onChar_of_not_ascii (Nat.le_of_not_lt hc), h128, bne_iff_ne.mpr hne]

/-- The byte of an ASCII character occurs in the encoding of that character alone. -/
theorem byte_mem_encodeChar {d : Char} (hd : d.toNat < 128) {c : Char} :
    byte d ∈ String.utf8EncodeChar c ↔ c = d := by
  constructor
  · intro h
    have hsame := (uniform_ne hd).onChar_eq h
    rw [onChar_ne hd, bne_self_eq_false] at hsame
    exact bne_eq_false_iff_eq.mp hsame.symm
  · rintro rfl
    rw [encodeChar_of_ascii hd]
    exact List.mem_singleton_self _

variable {p : UInt8 → Bool}

/-- Taking characters takes their bytes. -/
theorem takeWhile_encode (hp : Uniform p) (t : List Char) :
    (encode t).takeWhile p = encode (t.takeWhile (onChar p)) := by
  induction t with
  | nil => rfl
  | cons c t ih =>
    rw [encode_cons, List.takeWhile_cons]
    cases hc : onChar p c with
    | true =>
      rw [List.takeWhile_append_of_pos fun b hb => (hp.onChar_eq hb).trans hc, ih, if_pos rfl,
        encode_cons]
    | false =>
      obtain ⟨b, bs, hbs⟩ := List.exists_cons_of_ne_nil (encodeChar_ne_nil c)
      have hb : p b = false := (hp.onChar_eq (hbs ▸ List.mem_cons_self)).trans hc
      rw [hbs, List.cons_append, List.takeWhile_cons, hb]
      rfl

/-- Dropping characters drops their bytes. -/
theorem dropWhile_encode (hp : Uniform p) (t : List Char) :
    (encode t).dropWhile p = encode (t.dropWhile (onChar p)) := by
  have hwhole : encode t = encode (t.takeWhile (onChar p)) ++ encode (t.dropWhile (onChar p)) := by
    rw [← encode_append, List.takeWhile_append_dropWhile]
  have hcut := List.takeWhile_append_dropWhile (p := p) (l := encode t)
  rw [takeWhile_encode hp] at hcut
  exact List.append_cancel_left (hcut.trans hwhole)

/-- Dropping characters from the end drops their bytes. -/
theorem rdropWhile_encode (hp : Uniform p) (t : List Char) :
    (encode t).rdropWhile p = encode (t.rdropWhile (onChar p)) := by
  induction t using List.reverseRecOn with
  | nil => rfl
  | append_singleton t c ih =>
    rw [encode_append, encode_cons, encode_nil, List.append_nil]
    cases hc : onChar p c with
    | true =>
      rw [List.rdropWhile_concat_pos _ _ _ hc, ← ih, List.rdropWhile, List.rdropWhile,
        List.reverse_append, List.dropWhile_append_of_pos]
      exact fun b hb => (hp.onChar_eq (List.mem_reverse.mp hb)).trans hc
    | false =>
      rw [List.rdropWhile_concat_neg _ _ _ (by rw [hc]; exact Bool.false_ne_true), encode_append,
        encode_cons, encode_nil, List.append_nil, List.rdropWhile_eq_self_iff]
      intro hne
      rw [List.getLast_append_of_ne_nil _ (encodeChar_ne_nil c),
        hp.onChar_eq (List.getLast_mem _), hc]
      exact Bool.false_ne_true

/-- Stripping characters strips their bytes. -/
theorem strip_encode (hp : Uniform p) (t : List Char) :
    Blanks.strip p (encode t) = encode (Blanks.strip (onChar p) t) := by
  rw [Blanks.strip, Blanks.strip, dropWhile_encode hp, rdropWhile_encode hp]

/-- The text before the first occurrence of an ASCII character. -/
theorem takeWhile_ne_encode {d : Char} (hd : d.toNat < 128) (t : List Char) :
    (encode t).takeWhile (· != byte d) = encode (t.takeWhile (· != d)) := by
  rw [takeWhile_encode (uniform_ne hd), onChar_ne hd]

/-- The text from the first occurrence of an ASCII character: none, or the character and what
follows. -/
theorem dropWhile_ne_encode {d : Char} (hd : d.toNat < 128) (t : List Char) :
    t.dropWhile (· != d) = [] ∧ (encode t).dropWhile (· != byte d) = [] ∨
      ∃ rest, t.dropWhile (· != d) = d :: rest ∧
        (encode t).dropWhile (· != byte d) = byte d :: encode rest := by
  have hdrop : (encode t).dropWhile (· != byte d) = encode (t.dropWhile (· != d)) := by
    rw [dropWhile_encode (uniform_ne hd), onChar_ne hd]
  have hfirst := List.head?_dropWhile_not (· != d) t
  rw [hdrop]
  cases hrest : t.dropWhile (· != d) with
  | nil => exact Or.inl ⟨rfl, rfl⟩
  | cons c rest =>
    rw [hrest] at hfirst
    obtain rfl : c = d := by simpa using hfirst
    exact Or.inr ⟨rest, rfl, by rw [encode_cons, encodeChar_of_ascii hd, List.singleton_append]⟩

/-- Splitting at an ASCII character splits at its byte. -/
theorem splitOn_encode {d : Char} (hd : d.toNat < 128) (t : List Char) :
    (encode t).splitOn (byte d) = (t.splitOn d).map encode := by
  induction t with
  | nil => rfl
  | cons c t ih =>
    obtain ⟨f, fs, hf⟩ := List.exists_cons_of_ne_nil (List.splitOn_ne_nil d t)
    rw [encode_cons, List.splitOn_cons_eq_if_modifyHead]
    split_ifs with hc
    · obtain rfl : c = d := by simpa using hc
      rw [encodeChar_of_ascii hd, List.singleton_append, List.splitOn_cons_eq_if_modifyHead,
        if_pos (beq_self_eq_true _), ih]
      rfl
    · have hnotin : byte d ∉ String.utf8EncodeChar c := fun h =>
        hc (beq_iff_eq.mpr ((byte_mem_encodeChar hd).mp h))
      rw [Delimited.splitOn_append, ih, hf]
      simp [List.splitOn_eq_singleton hnotin]

/-- A text starts with an ASCII character if its bytes do with its byte. -/
theorem head?_encode {d : Char} (hd : d.toNat < 128) (t : List Char) :
    (encode t).head? = some (byte d) ↔ t.head? = some d := by
  cases t with
  | nil => simp
  | cons c t =>
    obtain ⟨b, bs, hbs⟩ := List.exists_cons_of_ne_nil (encodeChar_ne_nil c)
    rw [encode_cons, hbs, List.cons_append, List.head?_cons, List.head?_cons, Option.some_inj,
      Option.some_inj]
    constructor
    · rintro rfl
      exact (byte_mem_encodeChar hd).mp (hbs ▸ List.mem_cons_self)
    · rintro rfl
      rw [encodeChar_of_ascii hd] at hbs
      exact (List.cons.inj hbs).1.symm

/-- A text ends with an ASCII character if its bytes do with its byte. -/
theorem getLast?_encode {d : Char} (hd : d.toNat < 128) (t : List Char) :
    (encode t).getLast? = some (byte d) ↔ t.getLast? = some d := by
  induction t using List.reverseRecOn with
  | nil => simp
  | append_singleton t c =>
    rw [encode_append, encode_cons, encode_nil, List.append_nil,
      List.getLast?_append_of_ne_nil _ (encodeChar_ne_nil c), List.getLast?_concat, Option.some_inj]
    constructor
    · intro h
      exact (byte_mem_encodeChar hd).mp (List.mem_of_getLast? h)
    · rintro rfl
      rw [encodeChar_of_ascii hd]
      rfl

end Utf8
