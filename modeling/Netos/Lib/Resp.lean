import Netos.Lib.CString
import Netos.Lib.Incremental

/-!
# The Redis serialization protocol

Commands as a client sends them, arrays of bulk strings, with the decoder of a server; and the bulk
strings of replies. A bulk string carries its length, so it may contain any bytes. `takes_command`
says that a server decodes what `encodeCommand` printed, in whatever pieces it arrives.
-/

namespace Resp

open CString Incremental

/-- `\r`. -/
abbrev cr : UInt8 := 13

/-- `\n`. -/
abbrev lf : UInt8 := 10

/-- The end of a line. -/
abbrev crlf : Bytes := [cr, lf]

/-- `*`, before the length of an array. -/
abbrev star : UInt8 := 42

/-- `$`, before the length of a bulk string. -/
abbrev dollar : UInt8 := 36

/-- A line that announces a length. -/
def encodeHeader (mark : UInt8) (n : ℕ) : Bytes := mark :: natToString n ++ crlf

/-- A bulk string. -/
def encodeBulk (bytes : Bytes) : Bytes := encodeHeader dollar bytes.length ++ (bytes ++ crlf)

/-- A command, with its name as the first argument. -/
def encodeCommand (args : List Bytes) : Bytes :=
  encodeHeader star args.length ++ args.flatMap encodeBulk

/-- What follows the `\r` at the end of a line. -/
def lineEnd : Decoder UInt8 Bytes
  | [] => .incomplete
  | d :: rest => if d = lf then .done [] rest else .malformed

/-- The text before the next end of a line. -/
def line : Decoder UInt8 Bytes
  | [] => .incomplete
  | c :: rest => if c = cr then lineEnd rest else (line rest).map (c :: ·)

/-- The length in the text of a line. -/
def announced (mark : UInt8) : Bytes → Decoder UInt8 ℕ
  | [] => .fail
  | c :: digits =>
    if c = mark ∧ digits ≠ [] ∧ digits.all isDigit then .pure (digitsValue digits) else .fail

/-- The length that a line announces. -/
def header (mark : UInt8) : Decoder UInt8 ℕ := line.bind (announced mark)

/-- The bytes of a bulk string before the end of the line. -/
def contents (n : ℕ) (bytes : Bytes) : Decoder UInt8 Bytes :=
  if bytes.drop n = crlf then .pure (bytes.take n) else .fail

/-- A bulk string. -/
def bulk : Decoder UInt8 Bytes :=
  (header dollar).bind fun n => (Decoder.exactly (n + 2)).bind (contents n)

/-- A command. -/
def command : Decoder UInt8 (List Bytes) := (header star).bind bulk.times

/-- A line without a `\r` in its text. -/
theorem takes_line {text : Bytes} (h : cr ∉ text) : Takes line (text ++ crlf) text := by
  induction text with
  | nil =>
    refine ⟨fun rest => rfl, fun front rest hcode hne => ?_⟩
    -- Nothing arrived, or the `\r` alone.
    rcases front with - | ⟨a, - | ⟨b, front⟩⟩
    · rfl
    · obtain ⟨rfl, -⟩ := List.cons.inj hcode
      rfl
    · obtain ⟨-, hcode⟩ := List.cons.inj hcode
      obtain ⟨-, hcode⟩ := List.cons.inj hcode
      exact absurd (List.append_eq_nil_iff.mp hcode.symm).2 hne
  | cons c text ih =>
    obtain ⟨hc, htext⟩ := not_or.mp (List.mem_cons.not.mp h)
    have ih := ih htext
    refine ⟨fun rest => ?_, fun front rest hcode hne => ?_⟩
    · rw [List.cons_append, List.cons_append, line, if_neg (Ne.symm hc), ih.whole]
      rfl
    · cases front with
      | nil => rfl
      | cons a front =>
        rw [List.cons_append, List.cons_append] at hcode
        obtain ⟨rfl, htail⟩ := List.cons.inj hcode
        rw [line, if_neg (Ne.symm hc), ih.wait front rest htail hne]
        rfl

/-- A printed number contains no `\r`. -/
theorem cr_not_mem_natToString (n : ℕ) : cr ∉ natToString n :=
  fun h => absurd (isDigit_of_mem_natToString h) (by decide)

/-- An announced length. -/
theorem takes_header {mark : UInt8} (hmark : mark ≠ cr) (n : ℕ) :
    Takes (header mark) (encodeHeader mark n) n := by
  have hfree : cr ∉ mark :: natToString n :=
    List.mem_cons.not.mpr (not_or.mpr ⟨Ne.symm hmark, cr_not_mem_natToString n⟩)
  have hdigits : (natToString n).all isDigit = true :=
    List.all_eq_true.mpr fun c hc => isDigit_of_mem_natToString hc
  have hannounced : Takes (announced mark (mark :: natToString n)) [] n := by
    rw [announced, if_pos ⟨rfl, natToString_ne_nil n, hdigits⟩, digitsValue_natToString]
    exact Takes.pure n
  have hbind := (takes_line hfree).bind hannounced
  rwa [List.append_nil] at hbind

/-- A bulk string. -/
theorem takes_bulk (bytes : Bytes) : Takes bulk (encodeBulk bytes) bytes := by
  have hcontents : Takes (contents bytes.length (bytes ++ crlf)) [] bytes := by
    rw [contents, if_pos List.drop_left, List.take_left]
    exact Takes.pure bytes
  have hexactly : Takes (Decoder.exactly (bytes.length + 2)) (bytes ++ crlf) (bytes ++ crlf) := by
    have h := Takes.exactly (bytes ++ crlf)
    rwa [List.length_append] at h
  have hbind := hexactly.bind hcontents
  rw [List.append_nil] at hbind
  exact (takes_header (by decide) bytes.length).bind hbind

/-- A server decodes a command in whatever pieces it arrives. -/
theorem takes_command (args : List Bytes) : Takes command (encodeCommand args) args :=
  (takes_header (by decide) args.length).bind (Takes.times takes_bulk args)

end Resp
