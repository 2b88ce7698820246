import Netos.Lib.Assignments
import Netos.Scripts.GenerateTopology

/-!
# Env files read twice

`load_env_file` reads an env file as bytes, `parse_env_file` of the topology export as a text. They
differ in what ends a line and what is a blank, and the export does not know the prefix `export `.
What a line gives for a key is stated on its text, as it stands (`Unexported`) or with the prefix
too (`Given`), and a file gives what its last line for the key gives. A line is plain if both
programs cut it alike (`PlainLine`). `lookup_parseEnvText` compares the programs: if the last line
that one of them takes for an assignment without the prefix is plain, the export finds for the key
what the node would find without the exported lines.
-/

namespace Netos.TopologyExport

open CString Cxx
open Assignments (Assigns Word LastOf)
open GenerateTopology (Str isWhitespace isLineEnd strip)

/-! ## What a line gives -/

/-- A line gives a text for a key: it assigns to it a value which is the text, without the blanks
and the quotes around it. -/
def Unexported (key line text : Bytes) : Prop :=
  ∃ value, Assigns isSpace 61 key value line ∧ text = stripQuotes (trim value)

/-- A line gives a text for a key as it stands, or after the prefix `export `. -/
def Given (key line text : Bytes) : Prop :=
  Unexported key line text ∨
    ∃ rest, trim line = ascii "export " ++ rest ∧ Unexported key rest text

/-- A line that one of the programs takes for an assignment to a key, the prefix apart. The lines of
the export are the pieces between the line ends of Python, and its blanks are those of Python. -/
def AssignmentLine (key line : Str) : Prop :=
  (∃ text, Unexported (Utf8.encode key) (Utf8.encode line) text) ∨
    ∃ piece ∈ line.splitOnP isLineEnd, ∃ value, Assigns isWhitespace '=' key value piece

/-! ## Plain lines -/

/-- A blank of C. -/
def isBlank (c : Char) : Bool := Utf8.onChar isSpace c

/-- A text off which both programs strip the same blanks. -/
def StrippedAlike (s : Str) : Prop := strip s = Blanks.strip isBlank s

/-- Decidable, as texts are. -/
instance : DecidablePred StrippedAlike := fun s =>
  inferInstanceAs (Decidable (strip s = Blanks.strip isBlank s))

/-- A line without the blanks of C at its ends. -/
def body (line : Str) : Str := Blanks.strip isBlank line

/-- The part of a line before the first `=`. -/
def keyPart (line : Str) : Str := (body line).takeWhile (· != '=')

/-- The part of a line behind the first `=`. -/
def valuePart (line : Str) : Str := ((body line).dropWhile (· != '=')).tail

/-- A line that both programs cut alike: Python knows no line end in it, and no blank at its ends or
beside the first `=`, that C does not know. -/
structure PlainLine (line : Str) : Prop where
  /-- It is one line for Python, blanks apart. -/
  one_line : ∀ c ∈ body line, isLineEnd c = false
  /-- The ends of the line. -/
  ends : strip (body line) = body line
  /-- The ends of the key. -/
  key : StrippedAlike (keyPart line)
  /-- The ends of the value. -/
  value : StrippedAlike (valuePart line)

/-- Decidable, as its parts are. -/
instance : DecidablePred PlainLine := fun line =>
  decidable_of_iff ((body line).all (!isLineEnd ·) = true ∧ strip (body line) = body line ∧
      StrippedAlike (keyPart line) ∧ StrippedAlike (valuePart line))
    ⟨fun ⟨h, h', hkey, hvalue⟩ => ⟨by simpa using h, h', hkey, hvalue⟩,
      fun h => ⟨by simpa using h.one_line, h.ends, h.key, h.value⟩⟩

/-- The last of the lines that one of the programs takes for an assignment to a key, the prefix
apart, is plain. -/
def PlainKey (key : Str) (lines : List Str) : Prop :=
  ∀ before line after, lines = before ++ line :: after → AssignmentLine key line →
    (∀ l ∈ after, ¬ AssignmentLine key l) → PlainLine line

/-! ## What the programs read in a line -/

/-- The value that an assignment gives to a key. -/
def valueFor {κ ν : Type} [DecidableEq κ] (k : κ) (entry : Option (κ × ν)) : Option ν :=
  entry.bind fun e => if e.1 = k then some e.2 else none

/-- What the export reads for a key in the pieces of a line. -/
def exportValues (k line : Str) : List Str :=
  (line.splitOnP isLineEnd).filterMap fun piece => valueFor k (GenerateTopology.parseEnvLine piece)

/-- A line with the prefix that `load_env_file` removes. -/
def isExported (line : Bytes) : Bool := (ascii "export ").isPrefixOf (trim line)

/-- What the node reads for a key in a line that is not exported. -/
def unexportedValue (key line : Bytes) : Option Bytes :=
  if isExported line then none else valueFor key (parseEnvLine line)

/-- What `load_env_file` would read without the exported lines. -/
def readUnexported (content : Bytes) : EnvMap :=
  (((getlines content).filter (!isExported ·)).filterMap parseEnvLine).foldl
    (fun m entry => m.insert entry.1 entry.2) ∅

/-- A key that both programs look for: a word that starts with `N`, as bytes and as a text. -/
structure IsKey (k : Str) : Prop where
  /-- It is no comment, and does not start as `export` does. -/
  first : (Utf8.encode k).head? = some 78
  /-- It is a word for the node. -/
  bytes : Word isSpace 61 (Utf8.encode k)
  /-- It is a word for the export. -/
  text : Word isWhitespace '=' k

/-- The node id. -/
theorem isKey_node_id : IsKey "NETOS_NODE_ID".toList :=
  ⟨by decide, ⟨by decide, List.forall_iff_forall_mem.mp (by decide)⟩,
    ⟨by decide, List.forall_iff_forall_mem.mp (by decide)⟩⟩

/-- The neighbors. -/
theorem isKey_neighbors : IsKey "NETOS_NEIGHBORS".toList :=
  ⟨by decide, ⟨by decide, List.forall_iff_forall_mem.mp (by decide)⟩,
    ⟨by decide, List.forall_iff_forall_mem.mp (by decide)⟩⟩

/-! ## Characters and bytes -/

/-- White space is ASCII. -/
theorem uniform_isSpace : Utf8.Uniform isSpace := fun b hb => by
  have hfalse : ∀ b : UInt8, 128 ≤ b → isSpace b = false := fun b hb => by
    rw [UInt8.le_iff_toNat_le] at hb
    have h128 : 128 ≤ b.toNat := hb
    unfold isSpace
    rw [Bool.or_eq_false_iff, beq_eq_false_iff_ne, Bool.and_eq_false_iff]
    refine ⟨?_, Or.inr ?_⟩
    · rintro rfl
      exact absurd h128 (by decide)
    · rw [decide_eq_false_iff_not, UInt8.le_iff_toNat_le]
      have h13 : (13 : UInt8).toNat = 13 := rfl
      omega
  rw [hfalse b hb, hfalse 128 (by decide)]

/-- A blank of C is one of Python. -/
theorem isWhitespace_of_isBlank {c : Char} (h : isBlank c = true) : isWhitespace c = true := by
  by_cases hascii : c.toNat < 128
  · rw [isBlank, Utf8.onChar_of_ascii _ hascii, isSpace, Bool.or_eq_true, beq_iff_eq,
      Bool.and_eq_true, decide_eq_true_eq, decide_eq_true_eq, UInt8.le_iff_toNat_le,
      UInt8.le_iff_toNat_le, ← UInt8.toNat_inj, Utf8.toNat_byte hascii] at h
    have h9 : (9 : UInt8).toNat = 9 := rfl
    have h13 : (13 : UInt8).toNat = 13 := rfl
    have h32 : (32 : UInt8).toNat = 32 := rfl
    unfold isWhitespace
    simp only [Bool.or_eq_true, Bool.and_eq_true, decide_eq_true_eq, beq_iff_eq]
    omega
  · rw [isBlank, uniform_isSpace.onChar_of_not_ascii (Nat.le_of_not_lt hascii)] at h
    exact absurd h (by decide)

/-- Off the bytes of a text, the node strips the blanks of C. -/
theorem trim_encode (s : Str) : trim (Utf8.encode s) = Utf8.encode (Blanks.strip isBlank s) :=
  Utf8.strip_encode uniform_isSpace s

/-- Both programs strip a text alike. -/
theorem StrippedAlike.trim_encode {s : Str} (h : StrippedAlike s) :
    trim (Utf8.encode s) = Utf8.encode (strip s) := by
  rw [TopologyExport.trim_encode, ← h]

/-- A text without its first and its last character. -/
theorem take_drop_ends {α : Type} (a z : α) (mid : List α) :
    ((a :: (mid ++ [z])).drop 1).take ((a :: (mid ++ [z])).length - 2) = mid := by
  simp

/-- Quotes are stripped alike. -/
theorem stripQuotes_encode (value : Str) :
    stripQuotes (Utf8.encode value) = Utf8.encode (GenerateTopology.stripQuotes value) := by
  have hdouble : Utf8.byte '"' = doubleQuote := rfl
  have hsingle : Utf8.byte '\'' = singleQuote := rfl
  -- The bytes are quoted as the characters are.
  have hquoted : ((Utf8.encode value).head? = some doubleQuote ∧
        (Utf8.encode value).getLast? = some doubleQuote ∨
      (Utf8.encode value).head? = some singleQuote ∧
        (Utf8.encode value).getLast? = some singleQuote) ↔
      value.head? = value.getLast? ∧ (value.head? = some '\'' ∨ value.head? = some '"') := by
    rw [← hdouble, ← hsingle, Utf8.head?_encode (by decide), Utf8.head?_encode (by decide),
      Utf8.getLast?_encode (by decide), Utf8.getLast?_encode (by decide)]
    constructor
    · rintro (⟨hfirst, hlast⟩ | ⟨hfirst, hlast⟩)
      · exact ⟨hfirst.trans hlast.symm, Or.inr hfirst⟩
      · exact ⟨hfirst.trans hlast.symm, Or.inl hfirst⟩
    · rintro ⟨hsame, hfirst | hfirst⟩
      · exact Or.inr ⟨hfirst, hsame ▸ hfirst⟩
      · exact Or.inl ⟨hfirst, hsame ▸ hfirst⟩
  unfold stripQuotes GenerateTopology.stripQuotes
  by_cases hends : value.head? = value.getLast? ∧
      (value.head? = some '\'' ∨ value.head? = some '"')
  · obtain ⟨hsame, hquote⟩ := hends
    cases value with
    | nil => rfl
    | cons a rest =>
      -- A quote has one byte.
      have hbyte : String.utf8EncodeChar a = [Utf8.byte a] := by
        refine Utf8.encodeChar_of_ascii ?_
        rcases hquote with h | h
        · rw [Option.some.inj h]
          decide
        · rw [Option.some.inj h]
          decide
      induction rest using List.reverseRecOn with
      | nil => simp [hbyte]
      | append_singleton mid z =>
        obtain rfl : a = z := by simpa [List.getLast?_cons] using hsame
        have hencode : Utf8.encode (a :: (mid ++ [a])) =
            Utf8.byte a :: (Utf8.encode mid ++ [Utf8.byte a]) := by simp [hbyte]
        rw [if_pos (hquoted.mpr ⟨hsame, hquote⟩), hencode, take_drop_ends, take_drop_ends,
          if_neg (by simp), if_pos ⟨by simp, hsame, hquote⟩]
  · rw [if_neg (hquoted.not.mpr hends), ite_self, if_neg fun h => hends h.2]

/-- The text before the first `=`. -/
theorem takeWhile_encode_equals (s : Str) :
    (Utf8.encode s).takeWhile (· != 61) = Utf8.encode (s.takeWhile (· != '=')) :=
  Utf8.takeWhile_ne_encode (d := '=') (by decide) s

/-- The text from the first `=`: none, or `=` and what follows. -/
theorem dropWhile_encode_equals (s : Str) :
    s.dropWhile (· != '=') = [] ∧ (Utf8.encode s).dropWhile (· != 61) = [] ∨
      ∃ value, s.dropWhile (· != '=') = '=' :: value ∧
        (Utf8.encode s).dropWhile (· != 61) = 61 :: Utf8.encode value :=
  Utf8.dropWhile_ne_encode (d := '=') (by decide) s

/-! ## The node -/

section Key

variable {k : Str} (hk : IsKey k)

include hk in
/-- A line that gives something for a key starts as the key does. -/
theorem Unexported.head?_eq {line text : Bytes} (h : Unexported (Utf8.encode k) line text) :
    (trim line).head? = some 78 := by
  obtain ⟨value, hassigns, -⟩ := h
  exact (hassigns.head?_eq hk.bytes.ne_nil).trans hk.first

include hk in
/-- So it is not exported. -/
theorem Unexported.not_isPrefixOf {line text : Bytes} (h : Unexported (Utf8.encode k) line text) :
    ¬ (ascii "export ").isPrefixOf (trim line) = true := by
  intro hexported
  obtain ⟨rest, hrest⟩ := List.isPrefixOf_iff_prefix.mp hexported
  have hfirst : (ascii "export " ++ rest).head? = some 101 := rfl
  rw [hrest, h.head?_eq hk] at hfirst
  exact absurd hfirst (by decide)

include hk in
/-- What the node makes of a line once it is stripped of its blanks and the prefix. -/
theorem valueFor_cut_iff (line text : Bytes) :
    valueFor (Utf8.encode k) (match (trim line).dropWhile (· != 61) with
      | [] => none
      | _ :: value =>
        let key := trim ((trim line).takeWhile (· != 61))
        let value := trim value
        if key = [] then none else some (key, stripQuotes value)) = some text ↔
      Unexported (Utf8.encode k) line text := by
  have hassigns : ∀ value, Assigns isSpace 61 (Utf8.encode k) value line ↔
      trim ((trim line).takeWhile (· != 61)) = Utf8.encode k ∧
        (trim line).dropWhile (· != 61) = 61 :: value := fun value =>
    Assignments.assigns_iff hk.bytes (by decide)
  unfold Unexported
  simp only [hassigns]
  have hfirst := List.head?_dropWhile_not (· != 61) (trim line)
  cases hdrop : (trim line).dropWhile (· != 61) with
  | nil => simp [valueFor]
  | cons c value =>
    rw [hdrop] at hfirst
    obtain rfl : c = 61 := by simpa using hfirst
    by_cases hkey : trim ((trim line).takeWhile (· != 61)) = Utf8.encode k
    · simp [valueFor, hkey, hk.bytes.ne_nil, eq_comm]
    · split_ifs with hempty
      · simp [valueFor, hkey]
      · simp [valueFor, hkey]

include hk in
/-- What the node reads for a key in a line. -/
theorem valueFor_parseEnvLine_iff {line text : Bytes} :
    valueFor (Utf8.encode k) (parseEnvLine line) = some text ↔
      Given (Utf8.encode k) line text := by
  have hcut := fun line => valueFor_cut_iff hk line text
  by_cases hskip : trim line = [] ∨ (trim line).head? = some 35
  · -- The line is empty or a comment.
    have hnone : parseEnvLine line = none := by
      unfold parseEnvLine
      exact if_pos hskip
    rw [hnone]
    refine iff_of_false (by simp [valueFor]) ?_
    rintro (hgiven | ⟨rest, hline, -⟩)
    · rcases hskip with h | h
      · have hhead := hgiven.head?_eq hk
        rw [h] at hhead
        cases hhead
      · exact absurd ((hgiven.head?_eq hk).symm.trans h) (by decide)
    · rw [hline] at hskip
      exact absurd hskip (by simp [ascii])
  · have hparse : parseEnvLine line =
        match (if (ascii "export ").isPrefixOf (trim line) then trim ((trim line).drop 7)
          else trim line).dropWhile (· != 61) with
        | [] => none
        | _ :: value =>
          let key := trim ((if (ascii "export ").isPrefixOf (trim line) then
            trim ((trim line).drop 7) else trim line).takeWhile (· != 61))
          let value := trim value
          if key = [] then none else some (key, stripQuotes value) := by
      unfold parseEnvLine
      exact if_neg hskip
    rw [hparse]
    by_cases hprefix : (ascii "export ").isPrefixOf (trim line) = true
    · rw [if_pos hprefix, hcut]
      obtain ⟨rest, hrest⟩ := List.isPrefixOf_iff_prefix.mp hprefix
      have hdrop : (trim line).drop 7 = rest := by
        rw [← hrest]
        rfl
      rw [hdrop]
      constructor
      · exact fun hgiven => Or.inr ⟨rest, hrest.symm, hgiven⟩
      · rintro (hgiven | ⟨rest', hline, hgiven⟩)
        · exact absurd hprefix (hgiven.not_isPrefixOf hk)
        · rwa [List.append_cancel_left (hrest.trans hline)]
    · rw [if_neg hprefix, hcut]
      refine ⟨Or.inl, ?_⟩
      rintro (hgiven | ⟨rest, hline, -⟩)
      · exact hgiven
      · exact absurd (List.isPrefixOf_iff_prefix.mpr ⟨rest, hline.symm⟩) hprefix

include hk in
/-- What the node reads for a key in a line that is not exported. -/
theorem unexportedValue_iff {line text : Bytes} :
    unexportedValue (Utf8.encode k) line = some text ↔
      Unexported (Utf8.encode k) line text := by
  unfold unexportedValue
  split_ifs with hexported
  · exact iff_of_false id fun hgiven => hgiven.not_isPrefixOf hk hexported
  · rw [valueFor_parseEnvLine_iff hk]
    refine ⟨?_, Or.inl⟩
    rintro (hgiven | ⟨rest, hline, -⟩)
    · exact hgiven
    · exact absurd (List.isPrefixOf_iff_prefix.mpr ⟨rest, hline.symm⟩) hexported

/-- The value that the node reads for a key in a file, line by line. -/
theorem lookup_readEnv (key file : Bytes) : (readEnv file).lookup key =
    ((file.splitOn 10).filterMap fun line => valueFor key (parseEnvLine line)).getLast? := by
  unfold readEnv getlines
  dsimp only
  rw [lookup_foldl_insert, List.filterMap_filterMap, Delimited.filterMap_lines rfl]
  rfl

/-- The value that the node reads for a key in the lines that are not exported. -/
theorem lookup_readUnexported (key file : Bytes) : (readUnexported file).lookup key =
    ((file.splitOn 10).filterMap (unexportedValue key)).getLast? := by
  have hread : ∀ lines : List Bytes,
      ((lines.filter (!isExported ·)).filterMap parseEnvLine).filterMap
        (fun e => if e.1 = key then some e.2 else none) = lines.filterMap (unexportedValue key) :=
    fun lines => by
      rw [List.filterMap_filterMap, List.filterMap_filter]
      refine List.filterMap_congr fun line _ => ?_
      unfold unexportedValue
      cases isExported line with
      | true => rfl
      | false => rfl
  unfold readUnexported getlines
  dsimp only
  rw [lookup_foldl_insert, hread, Delimited.filterMap_lines rfl]

include hk in
/-- The node reads for a key what the last line that gives something for it gives. -/
theorem lastOf_given (file : Bytes) (text : Option Bytes) :
    LastOf (Given (Utf8.encode k)) (file.splitOn 10) text ↔
      (readEnv file).lookup (Utf8.encode k) = text := by
  rw [lookup_readEnv]
  exact Assignments.lastOf_iff (fun _ _ => valueFor_parseEnvLine_iff hk) _ _

include hk in
/-- So it does without the exported lines. -/
theorem lastOf_unexported (file : Bytes) (text : Option Bytes) :
    LastOf (Unexported (Utf8.encode k)) (file.splitOn 10) text ↔
      (readUnexported file).lookup (Utf8.encode k) = text := by
  rw [lookup_readUnexported]
  exact Assignments.lastOf_iff (fun _ _ => unexportedValue_iff hk) _ _

end Key

/-! ## The export -/

/-- The export sees of a line what is between its blanks. -/
theorem parseEnvLine_congr {s t : Str} (h : strip s = strip t) :
    GenerateTopology.parseEnvLine s = GenerateTopology.parseEnvLine t := by
  unfold GenerateTopology.parseEnvLine
  rw [h]

section Key

variable {k : Str} (hk : IsKey k)

include hk in
/-- What the export reads for a key in a line. -/
theorem valueFor_export_iff {line text : Str} :
    valueFor k (GenerateTopology.parseEnvLine line) = some text ↔
      ∃ value, Assigns isWhitespace '=' k value line ∧
        text = GenerateTopology.stripQuotes (strip value) := by
  have hassigns : ∀ value, Assigns isWhitespace '=' k value line ↔
      strip ((strip line).takeWhile (· != '=')) = k ∧
        (strip line).dropWhile (· != '=') = '=' :: value := fun value =>
    Assignments.assigns_iff hk.text (by decide)
  have hfirst : k.head? = some 'N' := (Utf8.head?_encode (d := 'N') (by decide) k).mp hk.first
  by_cases hskip : strip line = [] ∨ (strip line).head? = some '#'
  · have hnone : GenerateTopology.parseEnvLine line = none := by
      unfold GenerateTopology.parseEnvLine
      exact if_pos hskip
    rw [hnone]
    refine iff_of_false (by simp [valueFor]) ?_
    rintro ⟨value, hvalue, -⟩
    have hhead : (strip line).head? = some 'N' := (hvalue.head?_eq hk.text.ne_nil).trans hfirst
    rcases hskip with h | h
    · rw [h] at hhead
      cases hhead
    · exact absurd (hhead.symm.trans h) (by decide)
  · simp only [hassigns]
    have hstop := List.head?_dropWhile_not (· != '=') (strip line)
    unfold GenerateTopology.parseEnvLine
    dsimp only
    rw [if_neg hskip]
    cases hdrop : (strip line).dropWhile (· != '=') with
    | nil => simp [valueFor]
    | cons c value =>
      rw [hdrop] at hstop
      obtain rfl : c = '=' := by simpa using hstop
      by_cases hkey : strip ((strip line).takeWhile (· != '=')) = k
      · simp [valueFor, hkey, eq_comm]
      · simp [valueFor, hkey]

include hk in
/-- A line is an assignment to a key exactly if one of the programs reads something for the key in
it. -/
theorem assignmentLine_iff {line : Str} : AssignmentLine k line ↔
    exportValues k line ≠ [] ∨ unexportedValue (Utf8.encode k) (Utf8.encode line) ≠ none := by
  have hnode : (∃ text, Unexported (Utf8.encode k) (Utf8.encode line) text) ↔
      unexportedValue (Utf8.encode k) (Utf8.encode line) ≠ none := by
    simp only [Option.ne_none_iff_exists', unexportedValue_iff hk]
  have hexport : (∃ piece ∈ line.splitOnP isLineEnd, ∃ value,
      Assigns isWhitespace '=' k value piece) ↔ exportValues k line ≠ [] := by
    have hpiece : ∀ piece, (∃ value, Assigns isWhitespace '=' k value piece) ↔
        valueFor k (GenerateTopology.parseEnvLine piece) ≠ none := fun piece => by
      simp only [Option.ne_none_iff_exists', valueFor_export_iff hk]
      exact ⟨fun ⟨value, hvalue⟩ => ⟨_, value, hvalue, rfl⟩,
        fun ⟨_, value, hvalue, _⟩ => ⟨value, hvalue⟩⟩
    unfold exportValues
    simp only [ne_eq, List.filterMap_eq_nil_iff, not_forall, hpiece, exists_prop]
  unfold AssignmentLine
  rw [hnode, hexport, or_comm]

/-- The export reads in a plain line what it reads in its body. -/
theorem exportValues_of_plainLine (k : Str) {line : Str} (hplain : PlainLine line) :
    exportValues k line = (valueFor k (GenerateTopology.parseEnvLine (body line))).toList := by
  obtain ⟨front, back, hends, hfront, hback⟩ := Blanks.exists_ends isBlank line
  have hblank : ∀ s : Str, (∀ c ∈ s, isWhitespace c = true) →
      valueFor k (GenerateTopology.parseEnvLine s) = none := fun s hs => by
    have hempty : strip s = strip [] := Blanks.strip_eq_nil_iff.mpr hs
    rw [parseEnvLine_congr hempty]
    rfl
  conv_lhs => rw [hends]
  refine Assignments.filterMap_splitOnP_padded hblank (fun c s hc => ?_) (fun s back hb => ?_)
    (fun c hc => isWhitespace_of_isBlank (hfront c hc)) hplain.one_line
    (fun c hc => isWhitespace_of_isBlank (hback c hc))
  · have hone : ∀ d ∈ [c], isWhitespace d = true := List.forall_mem_singleton.mpr hc
    have hsame : strip (c :: s) = strip s := Blanks.strip_blank_append hone s
    rw [parseEnvLine_congr hsame]
  · have hsame : strip (s ++ back) = strip s := Blanks.strip_append_blank hb s
    rw [parseEnvLine_congr hsame]

include hk in
/-- What the export finds in the body of a plain line. -/
theorem assigns_body_iff {line : Str} (hplain : PlainLine line) (value : Str) :
    Assigns isWhitespace '=' k value (body line) ↔
      strip (keyPart line) = k ∧ (body line).dropWhile (· != '=') = '=' :: value := by
  have hexport : Assigns isWhitespace '=' k value (body line) ↔
      strip ((strip (body line)).takeWhile (· != '=')) = k ∧
        (strip (body line)).dropWhile (· != '=') = '=' :: value :=
    Assignments.assigns_iff hk.text (by decide)
  rw [hexport, hplain.ends, keyPart]

include hk in
/-- A plain line assigns the same to a key for the export as for the node. -/
theorem assigns_encode_iff {line : Str} (hplain : PlainLine line) (value : Bytes) :
    Assigns isSpace 61 (Utf8.encode k) value (Utf8.encode line) ↔
      ∃ text, Assigns isWhitespace '=' k text (body line) ∧ value = Utf8.encode text := by
  have hnode : Assigns isSpace 61 (Utf8.encode k) value (Utf8.encode line) ↔
      trim ((trim (Utf8.encode line)).takeWhile (· != 61)) = Utf8.encode k ∧
        (trim (Utf8.encode line)).dropWhile (· != 61) = 61 :: value :=
    Assignments.assigns_iff hk.bytes (by decide)
  have hbody : trim (Utf8.encode line) = Utf8.encode (body line) := trim_encode line
  simp only [hnode, assigns_body_iff hk hplain]
  rw [hbody, takeWhile_encode_equals, ← keyPart, hplain.key.trim_encode,
    Utf8.encode_injective.eq_iff]
  rcases dropWhile_encode_equals (body line) with ⟨hnone, hnone'⟩ | ⟨rest, hrest, hrest'⟩
  · rw [hnone, hnone']
    simp
  · rw [hrest, hrest']
    simp [eq_comm]

include hk in
/-- In a plain line both programs read the same for a key, unless it is exported. -/
theorem map_exportValues {line : Str} (hplain : PlainLine line) :
    (exportValues k line).map Utf8.encode =
      (unexportedValue (Utf8.encode k) (Utf8.encode line)).toList := by
  have hvalue : (valueFor k (GenerateTopology.parseEnvLine (body line))).map Utf8.encode =
      unexportedValue (Utf8.encode k) (Utf8.encode line) := by
    have hcontent : ∀ value, Assigns isWhitespace '=' k value (body line) →
        stripQuotes (trim (Utf8.encode value)) =
          Utf8.encode (GenerateTopology.stripQuotes (strip value)) := fun value hassigns => by
      have hpart : valuePart line = value := by
        rw [valuePart, ((assigns_body_iff hk hplain value).mp hassigns).2, List.tail_cons]
      have halike : StrippedAlike value := hpart ▸ hplain.value
      rw [halike.trim_encode, stripQuotes_encode]
    ext text
    rw [Option.map_eq_some_iff, unexportedValue_iff hk]
    unfold Unexported
    simp only [valueFor_export_iff hk, assigns_encode_iff hk hplain]
    constructor
    · rintro ⟨v, ⟨value, hassigns, rfl⟩, rfl⟩
      exact ⟨_, ⟨value, hassigns, rfl⟩, (hcontent value hassigns).symm⟩
    · rintro ⟨_, ⟨value, hassigns, rfl⟩, rfl⟩
      exact ⟨_, ⟨value, hassigns, rfl⟩, (hcontent value hassigns).symm⟩
  rw [exportValues_of_plainLine k hplain, ← hvalue]
  cases valueFor k (GenerateTopology.parseEnvLine (body line)) with
  | none => rfl
  | some v => rfl

end Key

/-! ## Files -/

/-- A reader who skips empty lines sees the same lines with universal newlines: the first piece
stays, and the others stay up to empty ones. -/
theorem pieces_universalNewlines {β : Type} {f : Str → Option β} (hf : f [] = none) (s : Str) :
    (∃ piece rest rest', (GenerateTopology.universalNewlines false s).splitOnP isLineEnd =
          piece :: rest ∧
        s.splitOnP isLineEnd = piece :: rest' ∧ rest.filterMap f = rest'.filterMap f) ∧
      ((GenerateTopology.universalNewlines true s).splitOnP isLineEnd).filterMap f =
        (s.splitOnP isLineEnd).filterMap f := by
  induction s with
  | nil => exact ⟨⟨[], [], [], rfl, rfl, rfl⟩, rfl⟩
  | cons c s ih =>
    obtain ⟨⟨piece, rest, rest', hpieces, hpieces', hrest⟩, hafter⟩ := ih
    have hsame : ((GenerateTopology.universalNewlines false s).splitOnP isLineEnd).filterMap f =
        (s.splitOnP isLineEnd).filterMap f := by
      rw [hpieces, hpieces', List.filterMap_cons, List.filterMap_cons, hrest]
    have hfirst : ∃ piece rest rest',
        (GenerateTopology.universalNewlines false (c :: s)).splitOnP isLineEnd = piece :: rest ∧
          (c :: s).splitOnP isLineEnd = piece :: rest' ∧ rest.filterMap f = rest'.filterMap f := by
      unfold GenerateTopology.universalNewlines
      rw [List.splitOnP_cons_eq_if_modifyHead c s]
      by_cases hreturn : c = '\r'
      · subst hreturn
        exact ⟨[], _, _, rfl, rfl, hafter⟩
      · have hbeq : (c == '\r') = false := beq_false_of_ne hreturn
        simp only [Bool.false_and, hbeq, Bool.false_eq_true, if_false,
          List.splitOnP_cons_eq_if_modifyHead]
        split_ifs with hend
        · exact ⟨[], _, _, rfl, rfl, hsame⟩
        · exact ⟨c :: piece, rest, rest', by rw [hpieces]; rfl, by rw [hpieces']; rfl, hrest⟩
    refine ⟨hfirst, ?_⟩
    by_cases hnewline : c = '\n'
    · -- The newline after a carriage return makes an empty piece in `s` alone.
      subst hnewline
      have hskip : GenerateTopology.universalNewlines true ('\n' :: s) =
          GenerateTopology.universalNewlines false s := rfl
      have hsplit : ('\n' :: s).splitOnP isLineEnd = [] :: s.splitOnP isLineEnd := by
        rw [List.splitOnP_cons_eq_if_modifyHead, if_pos (by decide)]
      rw [hskip, hsplit, List.filterMap_cons, hf, hsame]
    · have hkeep : GenerateTopology.universalNewlines true (c :: s) =
          GenerateTopology.universalNewlines false (c :: s) := by
        have hbeq : (c == '\n') = false := beq_false_of_ne hnewline
        simp [GenerateTopology.universalNewlines, hbeq]
      obtain ⟨piece, rest, rest', hpieces, hpieces', hrest⟩ := hfirst
      rw [hkeep, hpieces, hpieces', List.filterMap_cons, List.filterMap_cons, hrest]

/-- The export reads every file that is UTF-8. -/
theorem parseEnvFile_of_text {file : Bytes} {text : Str} (htext : Utf8.decode file = some text) :
    GenerateTopology.parseEnvFile file = some (GenerateTopology.parseEnvText
      (GenerateTopology.universalNewlines false text)) := by
  unfold GenerateTopology.parseEnvFile GenerateTopology.readText
  rw [htext, Option.map_some, Option.map_some]

/-- The value that the export reads for a key in a text, line by line. -/
theorem lookup_parseEnvText (k text : Str) :
    (GenerateTopology.parseEnvText (GenerateTopology.universalNewlines false text)).lookup k =
      ((text.splitOn '\n').flatMap (exportValues k)).getLast? := by
  have hempty : valueFor k (GenerateTopology.parseEnvLine []) = none := rfl
  obtain ⟨⟨piece, rest, rest', hpieces, hpieces', hrest⟩, -⟩ :=
    pieces_universalNewlines
      (f := fun piece => valueFor k (GenerateTopology.parseEnvLine piece)) hempty text
  have hsame : ((GenerateTopology.universalNewlines false text).splitOnP isLineEnd).filterMap
        (fun piece => valueFor k (GenerateTopology.parseEnvLine piece)) =
      (text.splitOnP isLineEnd).filterMap
        fun piece => valueFor k (GenerateTopology.parseEnvLine piece) := by
    rw [hpieces, hpieces', List.filterMap_cons, List.filterMap_cons, hrest]
  have hvalues : (text.splitOnP isLineEnd).filterMap
        (fun piece => valueFor k (GenerateTopology.parseEnvLine piece)) =
      (text.splitOn '\n').flatMap (exportValues k) := by
    rw [Delimited.splitOnP_eq_flatMap (d := '\n') (by decide), List.filterMap_flatMap]
    rfl
  unfold GenerateTopology.parseEnvText GenerateTopology.splitlines
  rw [lookup_foldl_insert, List.filterMap_filterMap, ← hvalues, ← hsame]
  exact congrArg List.getLast? (Delimited.filterMap_lines hempty _)

/-- If the last line that one of the programs takes for an assignment to a key, the prefix apart, is
plain, the export reads for the key what the node would read without the exported lines. -/
theorem lookup_parseEnvText_of_plain {k : Str} (hk : IsKey k) {text : Str}
    (hplain : PlainKey k (text.splitOn '\n')) :
    ((GenerateTopology.parseEnvText (GenerateTopology.universalNewlines false text)).lookup k).map
      Utf8.encode = (readUnexported (Utf8.encode text)).lookup (Utf8.encode k) := by
  have hbyte : Utf8.byte '\n' = 10 := rfl
  have hlines : (Utf8.encode text).splitOn 10 = (text.splitOn '\n').map Utf8.encode := by
    rw [← hbyte, Utf8.splitOn_encode (by decide)]
  rw [lookup_parseEnvText, lookup_readUnexported, hlines, List.filterMap_map]
  refine Assignments.getLast?_flatMap_eq fun before line after hcut hfound hafter => ?_
  refine map_exportValues hk (hplain before line after hcut ((assignmentLine_iff hk).mpr hfound) ?_)
  exact fun l hl hassignment => ((assignmentLine_iff hk).mp hassignment).elim
    (fun hsome => hsome (hafter l hl).1) fun hsome => hsome (hafter l hl).2

end Netos.TopologyExport
