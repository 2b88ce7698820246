import Netos.Core.LoadConfig

/-!
# Env files

An env file states assignments, one on a line, with blank lines and comments between them. `Line` is
what such a line may be, with the blanks, the prefix `export ` and the quotes with which it is
written, and `env_file_reads_back` says that `load_env_file` finds the last value of every key. The
value of an assignment is arbitrary, as the quotes around it keep `trim` and the search for `=` away
from it, and `strip_quotes` takes one pair of them only.
-/

namespace Netos.EnvFile

open CString Cxx

/-! ## Lines -/

/-- White space within a line. -/
structure Padding where
  /-- The characters. -/
  bytes : Bytes
  /-- They are white space, and do not end the line. -/
  blank : ∀ c ∈ bytes, isSpace c = true ∧ c ≠ 10

/-- The quotes of a value. -/
inductive Quote where
  | double
  | single

/-- The character. -/
def Quote.byte : Quote → UInt8
  | .double => doubleQuote
  | .single => singleQuote

/-- A key and its value. -/
structure Assignment where
  /-- The key. -/
  key : Bytes
  /-- The value. -/
  value : Bytes
  /-- There is a key. -/
  key_ne_nil : key ≠ []
  /-- It has no `=`, no `#` and no white space. -/
  key_plain : ∀ c ∈ key, c ≠ 61 ∧ c ≠ 35 ∧ isSpace c = false
  /-- It is not the word `export`. -/
  key_ne_export : key ≠ ascii "export"
  /-- The value stands on one line. -/
  value_line : 10 ∉ value

/-- How an assignment is written. -/
structure Layout where
  /-- The blanks before the line. -/
  front : Padding
  /-- The blanks after the prefix `export `, if the line has it. -/
  exported : Option Padding
  /-- The blanks before the `=`. -/
  before : Padding
  /-- The blanks after the `=`. -/
  behind : Padding
  /-- The quotes around the value. -/
  quote : Quote
  /-- The blanks after the line. -/
  back : Padding

/-- A line of an env file. -/
inductive Line where
  /-- Blanks only. -/
  | blank (padding : Padding)
  /-- A comment. -/
  | comment (front : Padding) (text : Bytes) (h : 10 ∉ text)
  /-- An assignment. -/
  | assignment (a : Assignment) (layout : Layout)

/-- The prefix of an assignment, if it has one. -/
def Layout.exportText (l : Layout) : Bytes :=
  match l.exported with
  | none => []
  | some padding => ascii "export " ++ padding.bytes

/-- The value in quotes. -/
def quoted (quote : Quote) (value : Bytes) : Bytes := quote.byte :: (value ++ [quote.byte])

/-- An assignment without the prefix and the blanks around it. -/
def body (a : Assignment) (l : Layout) : Bytes :=
  a.key ++ l.before.bytes ++ 61 :: (l.behind.bytes ++ quoted l.quote a.value)

/-- The text of a line. -/
def Line.render : Line → Bytes
  | .blank padding => padding.bytes
  | .comment front text _ => front.bytes ++ 35 :: text
  | .assignment a l => l.front.bytes ++ (l.exportText ++ body a l ++ l.back.bytes)

/-- The assignment of a line, if it is one. -/
def Line.entry : Line → Option (Bytes × Bytes)
  | .assignment a _ => some (a.key, a.value)
  | _ => none

/-- A file of lines, the last one with a line end or without. -/
def fileText (lines : List Line) (final : Bool) : Bytes :=
  [10].intercalate (lines.map Line.render) ++ if final then [10] else []

/-- The last value that the lines assign to a key. -/
def lastValue (lines : List Line) (key : Bytes) : Option Bytes :=
  ((lines.filterMap Line.entry).filterMap fun e => if e.1 = key then some e.2 else none).getLast?

/-! ## Parts of an assignment -/

/-- Padding is white space. -/
theorem Padding.forall_isSpace (p : Padding) : ∀ c ∈ p.bytes, isSpace c = true :=
  fun c hc => (p.blank c hc).1

/-- A quote is no white space. -/
theorem isSpace_quote (quote : Quote) : isSpace quote.byte = false := by
  cases quote <;> decide

/-- Quotes are stripped from a value, once. -/
theorem stripQuotes_quoted (quote : Quote) (value : Bytes) :
    stripQuotes (quoted quote value) = value := by
  have hends : ∀ q : UInt8, (quoted quote value).head? = some q ∧
      (quoted quote value).getLast? = some q ↔ quote.byte = q := fun q => by
    simp [quoted, List.getLast?_cons]
  have hlength : ¬ (quoted quote value).length < 2 := by simp [quoted]
  have hquote : quote.byte = doubleQuote ∨ quote.byte = singleQuote := by
    cases quote
    · exact Or.inl rfl
    · exact Or.inr rfl
  rw [stripQuotes, if_neg hlength, if_pos (by rwa [hends, hends])]
  simp [quoted]

/-- A text that starts with no blank and ends with a quote, between blanks. -/
theorem trim_padded {front text back : Bytes} (hfront : ∀ c ∈ front, isSpace c = true)
    (hfirst : ∀ c, text.head? = some c → isSpace c = false) (quote : Quote)
    (hlast : text.getLast? = some quote.byte) (hback : ∀ c ∈ back, isSpace c = true) :
    trim (front ++ (text ++ back)) = text :=
  Blanks.strip_padded hfront hfirst
    (fun _ hc => Option.some.inj (hlast.symm.trans hc) ▸ isSpace_quote quote) hback

/-- A value in quotes after blanks. -/
theorem trim_quoted (l : Layout) (value : Bytes) :
    trim (l.behind.bytes ++ quoted l.quote value) = quoted l.quote value := by
  have hfirst : ∀ c, (quoted l.quote value).head? = some c → isSpace c = false := fun c hc =>
    Option.some.inj hc ▸ isSpace_quote l.quote
  have hlast : (quoted l.quote value).getLast? = some l.quote.byte := by
    simp [quoted, List.getLast?_cons]
  have htrim := trim_padded l.behind.forall_isSpace hfirst l.quote hlast (List.forall_mem_nil _)
  rwa [List.append_nil] at htrim

section Assignment

variable (a : Assignment) (l : Layout)

/-- The key before blanks. -/
theorem trim_key : trim (a.key ++ l.before.bytes) = a.key := by
  have hplain : ∀ {c}, c ∈ a.key → isSpace c = false := fun hc => (a.key_plain _ hc).2.2
  exact Blanks.strip_padded (List.forall_mem_nil _) (fun c hc => hplain (List.mem_of_mem_head? hc))
    (fun c hc => hplain (List.mem_of_getLast? hc)) l.before.forall_isSpace

/-- An assignment starts with its key. -/
theorem head?_body : ∃ c ∈ a.key, (body a l).head? = some c := by
  obtain ⟨c, key, hkey⟩ := List.exists_cons_of_ne_nil a.key_ne_nil
  exact ⟨c, by rw [hkey]; exact List.mem_cons_self, by rw [body, hkey]; rfl⟩

/-- It ends with a quote. -/
theorem getLast?_body : (body a l).getLast? = some l.quote.byte := by
  have hbody : body a l = (a.key ++ l.before.bytes ++ 61 :: (l.behind.bytes ++
      l.quote.byte :: a.value)) ++ [l.quote.byte] := by
    simp [body, quoted]
  rw [hbody, List.getLast?_concat]

/-- Its key ends at the first `=` but for blanks. -/
theorem takeWhile_body : (body a l).takeWhile (· != 61) = a.key ++ l.before.bytes ∧
    (body a l).dropWhile (· != 61) = 61 :: (l.behind.bytes ++ quoted l.quote a.value) := by
  have hkey : ∀ c ∈ a.key ++ l.before.bytes, (c != 61) = true := fun c hc => by
    rw [bne_iff_ne]
    rintro rfl
    rcases List.mem_append.mp hc with hc | hc
    · exact (a.key_plain _ hc).1 rfl
    · exact absurd (l.before.forall_isSpace _ hc) (by decide)
  rw [body, List.takeWhile_append_of_pos hkey, List.dropWhile_append_of_pos hkey]
  exact ⟨List.append_nil _, rfl⟩

/-- Without the prefix, it does not look as if it had one. -/
theorem not_isPrefixOf_body : (ascii "export ").isPrefixOf (body a l) = false := by
  by_contra hprefix
  rw [Bool.not_eq_false, List.isPrefixOf_iff_prefix] at hprefix
  obtain ⟨text, htext⟩ := hprefix
  -- The first word of the line would be `export` and the key.
  have hword : (body a l).takeWhile (fun c => c != 61 && !isSpace c) = a.key := by
    have hkey : ∀ c ∈ a.key, (c != 61 && !isSpace c) = true := fun c hc => by
      obtain ⟨hequals, -, hspace⟩ := a.key_plain c hc
      simp [hequals, hspace]
    rw [body, List.append_assoc, List.takeWhile_append_of_pos hkey]
    have hend : (l.before.bytes ++ 61 :: (l.behind.bytes ++ quoted l.quote a.value)).takeWhile
        (fun c => c != 61 && !isSpace c) = [] := by
      have hblank := l.before.forall_isSpace
      cases hbefore : l.before.bytes with
      | nil => rfl
      | cons c before =>
        have hc : isSpace c = true := hblank c (by rw [hbefore]; exact List.mem_cons_self)
        simp [hc]
    rw [hend, List.append_nil]
  rw [← htext] at hword
  exact a.key_ne_export hword.symm

/-- What `load_env_file` makes of an assignment once the line is trimmed. -/
theorem parse_body : (match (body a l).dropWhile (· != 61) with
    | [] => none
    | _ :: value =>
      let key := trim ((body a l).takeWhile (· != 61))
      let value := trim value
      if key = [] then none else some (key, stripQuotes value)) = some (a.key, a.value) := by
  rw [(takeWhile_body a l).1, (takeWhile_body a l).2]
  dsimp only
  rw [trim_key, trim_quoted, stripQuotes_quoted, if_neg a.key_ne_nil]

/-- The prefix is removed with the blanks after it. -/
theorem remove_exportText :
    (if (ascii "export ").isPrefixOf (l.exportText ++ body a l) then
        trim ((l.exportText ++ body a l).drop 7)
      else l.exportText ++ body a l) = body a l := by
  obtain ⟨c, hc, hfirst⟩ := head?_body a l
  unfold Layout.exportText
  cases l.exported with
  | none =>
    rw [List.nil_append, not_isPrefixOf_body, if_neg Bool.false_ne_true]
  | some padding =>
    have hprefix : (ascii "export ").isPrefixOf
        (ascii "export " ++ padding.bytes ++ body a l) = true := by
      rw [List.isPrefixOf_iff_prefix, List.append_assoc]
      exact List.prefix_append _ _
    have hdrop : (ascii "export " ++ padding.bytes ++ body a l).drop 7 =
        padding.bytes ++ body a l := by
      rw [List.append_assoc]
      rfl
    have hplain : ∀ d, (body a l).head? = some d → isSpace d = false := fun d hd =>
      Option.some.inj (hfirst.symm.trans hd) ▸ (a.key_plain c hc).2.2
    have htrim := trim_padded padding.forall_isSpace hplain l.quote (getLast?_body a l)
      (List.forall_mem_nil _)
    rw [List.append_nil] at htrim
    rw [if_pos hprefix, hdrop, htrim]

/-- With the prefix or without, an assignment starts neither with a blank nor with `#`. -/
theorem head?_exportText : ∃ c, (l.exportText ++ body a l).head? = some c ∧ isSpace c = false ∧
    c ≠ 35 := by
  obtain ⟨c, hc, hfirst⟩ := head?_body a l
  unfold Layout.exportText
  cases l.exported with
  | none => exact ⟨c, hfirst, (a.key_plain c hc).2.2, (a.key_plain c hc).2.1⟩
  | some padding => exact ⟨101, rfl, by decide, by decide⟩

/-- The line without the blanks around it. -/
theorem trim_assignment : trim (Line.assignment a l).render = l.exportText ++ body a l := by
  obtain ⟨c, hc, hspace, -⟩ := head?_exportText a l
  have hlast : (l.exportText ++ body a l).getLast? = some l.quote.byte := by
    rw [List.getLast?_append, getLast?_body, Option.some_or]
  exact trim_padded l.front.forall_isSpace
    (fun d hd => Option.some.inj (hc.symm.trans hd) ▸ hspace) l.quote hlast l.back.forall_isSpace

/-- `load_env_file` finds the assignment of a line. -/
theorem parseEnvLine_assignment :
    parseEnvLine (Line.assignment a l).render = some (a.key, a.value) := by
  obtain ⟨c, hc, -, hcomment⟩ := head?_exportText a l
  have hline : ¬ (l.exportText ++ body a l = [] ∨ (l.exportText ++ body a l).head? = some 35) := by
    rintro (hnil | hhash)
    · rw [hnil] at hc
      cases hc
    · exact hcomment (Option.some.inj (hc.symm.trans hhash))
  rw [parseEnvLine, trim_assignment]
  dsimp only
  rw [if_neg hline, remove_exportText]
  exact parse_body a l

end Assignment

/-! ## Files -/

/-- A line gives its assignment, if it has one. -/
theorem parseEnvLine_render (line : Line) : parseEnvLine line.render = line.entry := by
  cases line with
  | blank padding =>
    have htrim : trim padding.bytes = [] := Blanks.strip_eq_nil_iff.mpr padding.forall_isSpace
    rw [Line.render, parseEnvLine, htrim]
    rfl
  | comment front text h =>
    -- The line still starts with `#` once it is trimmed.
    have hhash : isSpace 35 = false := by decide
    obtain ⟨rest, hrest⟩ := Blanks.strip_cons_of_not_blank hhash text
    have htrim : trim (front.bytes ++ 35 :: text) = 35 :: rest := by
      rw [trim, Blanks.strip_blank_append front.forall_isSpace, hrest]
    rw [Line.render, parseEnvLine, htrim]
    rfl
  | assignment a l => exact parseEnvLine_assignment a l

/-- A line has no line end in it. -/
theorem lineEnd_notMem_render (line : Line) : 10 ∉ line.render := by
  have hpadding : ∀ p : Padding, 10 ∉ p.bytes := fun p hmem => (p.blank 10 hmem).2 rfl
  cases line with
  | blank padding => exact hpadding padding
  | comment front text h =>
    rw [Line.render, List.mem_append, List.mem_cons, not_or, not_or]
    exact ⟨hpadding front, by decide, h⟩
  | assignment a l =>
    have hkey : 10 ∉ a.key := fun hmem => absurd (a.key_plain 10 hmem).2.2 (by decide)
    have hexport : 10 ∉ l.exportText := by
      unfold Layout.exportText
      cases l.exported with
      | none => exact List.not_mem_nil
      | some padding =>
        rw [List.mem_append, not_or]
        exact ⟨by decide, hpadding padding⟩
    have hquoted : 10 ∉ quoted l.quote a.value := by
      have hquote : 10 ≠ l.quote.byte := by cases l.quote <;> decide
      simp [quoted, hquote, a.value_line]
    simp [Line.render, body, hpadding, hkey, hexport, hquoted]

/-- Env files read back what they state: however the lines of a file are written, with blank lines
and comments between them, `load_env_file` finds for every key the last value that the lines assign
to it, and nothing for a key to which they assign none. -/
theorem env_file_reads_back (files : Files) (path : Bytes) (lines : List Line) (final : Bool)
    (h : files path = some (fileText lines final)) :
    ∃ env_file, loadEnvFile files path = .ok env_file ∧
      ∀ key, env_file.lookup key = lastValue lines key := by
  refine ⟨_, by rw [loadEnvFile, h], fun key => ?_⟩
  have hlines : ∀ text ∈ lines.map Line.render, 10 ∉ text := fun text htext => by
    obtain ⟨line, -, rfl⟩ := List.mem_map.mp htext
    exact lineEnd_notMem_render line
  have hparsed : (getlines (fileText lines final)).filterMap parseEnvLine =
      lines.filterMap Line.entry := by
    have hempty : parseEnvLine [] = none := rfl
    rw [getlines, Delimited.filterMap_lines hempty, fileText,
      Delimited.filterMap_splitOn_joined hempty hlines, List.filterMap_map]
    exact List.filterMap_congr fun line _ => parseEnvLine_render line
  rw [readEnv, hparsed, lookup_foldl_insert, lastValue]

/-- Padding, from characters that were checked. -/
def Padding.ofAll (bytes : Bytes) (h : bytes.all (fun c => isSpace c && c != 10) = true) :
    Padding :=
  ⟨bytes, fun c hc => by simpa using List.all_eq_true.mp h c hc⟩

/-- An assignment, from a key and a value that were checked. -/
def Assignment.ofAll (key value : Bytes) (hne : key ≠ [])
    (h : key.all (fun c => c != 61 && (c != 35 && !isSpace c)) = true)
    (hexport : key ≠ ascii "export") (hvalue : 10 ∉ value) : Assignment :=
  ⟨key, value, hne, fun c hc => by simpa using List.all_eq_true.mp h c hc, hexport, hvalue⟩

/-- Nothing. -/
def nothing : Padding := .ofAll [] rfl

/-- A blank and a tab. -/
def blanks : Padding := .ofAll [32, 9] rfl

/-- A file that assigns a key twice, the second time with the prefix and a value that looks like a
comment in quotes. -/
def overriding : List Line :=
  [.assignment (.ofAll (ascii "A") (ascii "1") (by decide) rfl (by decide) (by decide))
      ⟨nothing, none, nothing, nothing, .double, nothing⟩,
    .comment blanks (ascii " A=\"2\"") (by decide),
    .assignment (.ofAll (ascii "A") (ascii "' #=\" ") (by decide) rfl (by decide) (by decide))
      ⟨blanks, some nothing, blanks, blanks, .single, blanks⟩]

/-- The second value is found, with its quotes and its blanks. -/
theorem env_file_reads_back_overriding :
    ∃ env_file, loadEnvFile (oneFile (ascii "n.env") (fileText overriding false))
        (ascii "n.env") = .ok env_file ∧
      env_file.lookup (ascii "A") = some (ascii "' #=\" ") := by
  obtain ⟨env_file, hload, hlookup⟩ := env_file_reads_back
    (oneFile (ascii "n.env") (fileText overriding false)) (ascii "n.env") overriding false
    (if_pos rfl)
  exact ⟨env_file, hload, (hlookup (ascii "A")).trans rfl⟩

end Netos.EnvFile
