import Mathlib.Data.List.Basic

/-!
# Decoders of a stream

A decoder looks at what has arrived of a stream so far: it has seen too little, it rejects what it
sees, or it returns a value and what follows. `Takes d code a` says that the decoder returns `a` for
exactly these symbols, whatever follows them, and waits while any of them is missing, so that it
makes no difference how the stream is cut into pieces. The rules build it up along the combinators.
-/

namespace Incremental

variable {σ α β : Type}

/-- What a decoder makes of what has arrived. -/
inductive Decoded (σ α : Type) where
  /-- More has to arrive. -/
  | incomplete
  /-- No continuation makes sense. -/
  | malformed
  /-- A value, and what follows it. -/
  | done (value : α) (rest : List σ)

/-- A function on the value. -/
def Decoded.map (f : α → β) : Decoded σ α → Decoded σ β
  | .incomplete => .incomplete
  | .malformed => .malformed
  | .done a rest => .done (f a) rest

/-- A decoder. -/
abbrev Decoder (σ α : Type) := List σ → Decoded σ α

/-- The decoder that takes nothing. -/
def Decoder.pure (a : α) : Decoder σ α := fun input => .done a input

/-- The decoder that rejects everything. -/
def Decoder.fail : Decoder σ α := fun _ => .malformed

/-- One decoder after the other. -/
def Decoder.bind (d : Decoder σ α) (f : α → Decoder σ β) : Decoder σ β := fun input =>
  match d input with
  | .incomplete => .incomplete
  | .malformed => .malformed
  | .done a rest => f a rest

/-- The decoder of a number of symbols. -/
def Decoder.exactly (n : ℕ) : Decoder σ (List σ) := fun input =>
  if input.length < n then .incomplete else .done (input.take n) (input.drop n)

/-- A decoder a number of times. -/
def Decoder.times (d : Decoder σ α) : ℕ → Decoder σ (List α)
  | 0 => .pure []
  | n + 1 => d.bind fun a => (d.times n).bind fun as => .pure (a :: as)

/-- The decoder returns the value for exactly these symbols, and waits for all of them. -/
structure Takes (d : Decoder σ α) (code : List σ) (a : α) : Prop where
  /-- The symbols are taken, whatever follows. -/
  whole : ∀ rest, d (code ++ rest) = .done a rest
  /-- A part of them is waited on. -/
  wait : ∀ front rest, code = front ++ rest → rest ≠ [] → d front = .incomplete

/-- Nothing is taken for no symbols. -/
theorem Takes.pure (a : α) : Takes (Decoder.pure (σ := σ) a) [] a where
  whole _ := rfl
  wait _ _ h hne := absurd (List.append_eq_nil_iff.mp h.symm).2 hne

/-- One decoder after the other takes the symbols of both. -/
theorem Takes.bind {d : Decoder σ α} {f : α → Decoder σ β} {code code' : List σ} {a : α} {b : β}
    (hd : Takes d code a) (hf : Takes (f a) code' b) : Takes (d.bind f) (code ++ code') b where
  whole rest := by
    rw [List.append_assoc, Decoder.bind, hd.whole]
    exact hf.whole rest
  wait front rest h hne := by
    unfold Decoder.bind
    rcases List.append_eq_append_iff.mp h with ⟨c, rfl, hcode'⟩ | ⟨c, rfl, rfl⟩
    · -- The first decoder has all its symbols.
      rw [hd.whole]
      exact hf.wait c rest hcode' hne
    · cases c with
      | nil =>
        -- The cut is between the two.
        have hwhole := hd.whole []
        rw [List.append_nil, List.append_nil] at hwhole
        rw [hwhole]
        exact hf.wait [] code' rfl hne
      | cons x c => rw [hd.wait front (x :: c) rfl (List.cons_ne_nil x c)]

/-- A number of symbols is taken. -/
theorem Takes.exactly (code : List σ) : Takes (Decoder.exactly code.length) code code where
  whole rest := by
    rw [Decoder.exactly, if_neg (by simp), List.take_left, List.drop_left]
  wait front rest h hne := by
    have hlength := congrArg List.length h
    rw [List.length_append] at hlength
    have hpos : 0 < rest.length := List.length_pos_iff.mpr hne
    rw [Decoder.exactly, if_pos (by omega)]

/-- A decoder takes the codes of several values one after the other. -/
theorem Takes.times {d : Decoder σ α} {encode : α → List σ} (h : ∀ a, Takes d (encode a) a)
    (as : List α) : Takes (d.times as.length) (as.flatMap encode) as := by
  induction as with
  | nil => exact Takes.pure []
  | cons a as ih =>
    have hrest : Takes ((d.times as.length).bind fun as => Decoder.pure (a :: as))
        (as.flatMap encode ++ []) (a :: as) := ih.bind (Takes.pure _)
    rw [List.append_nil] at hrest
    exact (h a).bind hrest

end Incremental
