import Netos.Tables.QueryBfLedger

/-!
# The batches of an origin

In which order the batches of an origin are made of its keys. The calls that the returned batches,
then the pending ones, then the live buffer are made of follow each other in the order in which they
were accepted (`InOrder`); between them there are only calls whose keys a reset has dropped. What
one origin is sent does not depend on the calls of the others: `SameFor` relates a run to the one in
which these are left out.
-/

namespace Netos.QueryBfLedger

open CString Cxx QueryBloomAggregator

/-! ## Runs of consecutive elements -/

/-- The lists are runs of consecutive elements of a list: they do not overlap and stand in its
order, with any elements before, between and after them. -/
inductive Blocks {α : Type*} : List (List α) → List α → Prop where
  /-- No run, anywhere in a list. -/
  | nil (gap : List α) : Blocks [] gap
  /-- A run after a gap, and the others behind it. -/
  | cons (gap run : List α) {runs : List (List α)} {rest : List α} (h : Blocks runs rest) :
      Blocks (run :: runs) (gap ++ run ++ rest)

/-- A gap at the end. -/
theorem Blocks.gap {α : Type*} {runs : List (List α)} {l : List α} (h : Blocks runs l)
    (gap : List α) : Blocks runs (l ++ gap) := by
  induction h with
  | nil gap₁ => exact .nil _
  | cons gap₁ run _ ih =>
    rw [List.append_assoc]
    exact .cons gap₁ run ih

/-- A run at the end. -/
theorem Blocks.snoc {α : Type*} {runs : List (List α)} {l : List α} (h : Blocks runs l)
    (run : List α) : Blocks (runs ++ [run]) (l ++ run) := by
  induction h with
  | nil gap =>
    have hlast := Blocks.cons gap run (Blocks.nil [])
    rwa [List.append_nil] at hlast
  | cons gap run₁ _ ih =>
    rw [List.append_assoc]
    exact .cons gap run₁ ih

/-- The first runs. -/
theorem Blocks.of_append {α : Type*} {runs more : List (List α)} {l : List α}
    (h : Blocks (runs ++ more) l) : Blocks runs l := by
  induction runs generalizing l with
  | nil => exact .nil l
  | cons run runs ih =>
    cases h with
    | cons gap run h => exact .cons gap run (ih h)

/-- A run is not longer than the list. -/
theorem Blocks.length_le {α : Type*} {runs : List (List α)} {l : List α} (h : Blocks runs l)
    {run : List α} (hrun : run ∈ runs) : run.length ≤ l.length := by
  induction h with
  | nil gap => exact absurd hrun List.not_mem_nil
  | cons gap run₁ _ ih =>
    rw [List.length_append, List.length_append]
    rcases List.mem_cons.mp hrun with rfl | hrun
    · omega
    · have hrest := ih hrun
      omega

/-! ## The order of the keys -/

/-- The batches of every origin are made of runs of its accepted calls, and the live buffer of the
last ones. -/
def InOrder (s : State) : Prop :=
  ∀ origin, ∃ before, Blocks (batchRuns s origin) before ∧
    acceptedFor s origin = before ++ s.live origin

/-- The joined buffer holds the last accepted calls; a reset leaves a gap. -/
theorem InOrder.joined {s : State} (h : InOrder s) (call : AddCall) :
    ∃ before, Blocks (batchRuns s call.origin) before ∧
      acceptedFor s call.origin ++ [call] = before ++ joined s call := by
  obtain ⟨before, hblocks, haccepted⟩ := h call.origin
  unfold QueryBfLedger.joined
  split_ifs with hrestarts
  · exact ⟨before ++ s.live call.origin, hblocks.gap _, by rw [haccepted]⟩
  · exact ⟨before, hblocks, by rw [haccepted, List.append_assoc]⟩

/-- `add_key` keeps the order. -/
theorem InOrder.addKey {s : State} (h : InOrder s) (call : AddCall) : InOrder (addKey s call) := by
  intro origin
  by_cases horigin : origin = call.origin
  · subst horigin
    obtain ⟨before, hblocks, haccepted⟩ := h.joined call
    rw [acceptedFor_addKey_self, batchRuns_addKey_self, haccepted]
    unfold QueryBfLedger.addKey
    dsimp only
    rw [Function.update_self]
    split_ifs with hsplit
    · -- A split turns the joined buffer into the last batch.
      exact ⟨before ++ QueryBfLedger.joined s call, hblocks.snoc _, (List.append_nil _).symm⟩
    · exact ⟨before, by rwa [List.append_nil], rfl⟩
  · obtain ⟨before, hblocks, haccepted⟩ := h origin
    have hlive : (QueryBfLedger.addKey s call).live origin = s.live origin :=
      Function.update_of_ne horigin _ _
    rw [acceptedFor_addKey_of_ne s call horigin, batchRuns_addKey_of_ne s call horigin, hlive]
    exact ⟨before, hblocks, haccepted⟩

/-- `flush_due` keeps the order. -/
theorem InOrder.flushDue {s : State} (h : InOrder s) (it : Iteration) (now : ℤ)
    (wall : Bytes → UInt64) : InOrder (flushDue s it now wall) := by
  intro origin
  obtain ⟨before, hblocks, haccepted⟩ := h origin
  have haccepted' : acceptedFor (QueryBfLedger.flushDue s it now wall) origin =
      before ++ s.live origin := haccepted
  rw [batchRuns_flushDue, haccepted']
  unfold QueryBfLedger.flushDue
  dsimp only
  split_ifs with hdue
  · -- The live buffer leaves as the last batch.
    exact ⟨before ++ s.live origin, hblocks.snoc _, (List.append_nil _).symm⟩
  · exact ⟨before, by rwa [List.append_nil], rfl⟩

/-- Every call keeps the order. -/
theorem InOrder.step {s s' : State} {call : Call} (h : InOrder s) (hstep : step s call = some s') :
    InOrder s' := by
  cases call with
  | addKey call =>
    obtain rfl := Option.some.inj hstep
    exact h.addKey call
  | flushDue it now wall =>
    obtain rfl := Option.some.inj hstep
    exact h.flushDue it now wall

/-! ## One origin alone -/

/-- The calls that concern an origin: its own `add_key`, and every flush. -/
def Call.concerns (origin : Bytes) : Call → Bool
  | .addKey call => call.origin = origin
  | .flushDue _ _ _ => true

/-- The batches that were returned for an origin, in their order. -/
def batchesFor (s : State) (origin : Bytes) : List QueryBloomBatch :=
  s.output.filter fun batch => batch.origin = origin

/-- Two states agree on all that an origin can see. -/
structure SameFor (origin : Bytes) (s s' : State) : Prop where
  /-- The settings. -/
  settings : ∃ buffers pending_batches,
    s'.aggregator = { s.aggregator with buffers, pending_batches }
  /-- The buffer. -/
  buffer : s'.aggregator.buffer origin = s.aggregator.buffer origin
  /-- The pending batches. -/
  pending : (s'.aggregator.pending_batches.filter fun batch => batch.origin = origin) =
    s.aggregator.pending_batches.filter fun batch => batch.origin = origin
  /-- The returned batches. -/
  returned : batchesFor s' origin = batchesFor s origin

/-- A reset looks at the settings only. -/
theorem SameFor.resetBuffer_eq {origin : Bytes} {s s' : State} (h : SameFor origin s s') (now : ℤ)
    (wall : UInt64) : s'.aggregator.resetBuffer now wall = s.aggregator.resetBuffer now wall := by
  obtain ⟨b, p, hsettings⟩ := h.settings
  rw [hsettings]
  rfl

/-- A call for another origin is not seen. -/
theorem SameFor.addKey_of_ne {origin : Bytes} {s s' : State} (h : SameFor origin s s')
    {call : AddCall} (hne : origin ≠ call.origin) : SameFor origin (addKey s call) s' := by
  obtain ⟨b, p, hsettings⟩ := h.settings
  obtain ⟨b', p', hadd⟩ :=
    s.aggregator.addKey_settings call.origin call.key call.now call.wall
  refine ⟨⟨b, p, ?_⟩, ?_, ?_, h.returned⟩
  · rw [hsettings]
    unfold addKey
    dsimp only
    rw [hadd]
  · rw [h.buffer]
    exact (buffer_addKey_of_ne _ hne _ _ _).symm
  · rw [h.pending]
    unfold addKey
    dsimp only
    rw [pending_addKey, List.filter_append]
    split_ifs with hsplit
    · simp [makeBatch, Ne.symm hne]
    · simp

/-- A call for the origin has the same result when the settings and the buffer agree. -/
theorem addKey_result_eq {a : QueryBloomAggregator} {b : UnorderedMap Bytes Buffer}
    {p : List QueryBloomBatch} {origin : Bytes}
    (h : ({ a with buffers := b, pending_batches := p } : QueryBloomAggregator).buffer origin =
      a.buffer origin) (key : Bytes) (now : ℤ) (wall : ResetReadings) :
    (({ a with buffers := b, pending_batches := p } : QueryBloomAggregator).addKey origin key now
      wall).2 = (a.addKey origin key now wall).2 := by
  unfold QueryBloomAggregator.addKey
  dsimp only
  rw [h]
  -- Neither the readied buffer nor the split tests look at what differs.
  have hsplit : ({ a with buffers := b, pending_batches := p } : QueryBloomAggregator).splitReason
      ((({ a with buffers := b, pending_batches := p } : QueryBloomAggregator).readyBuffer now wall
        (a.buffer origin)).addKey key) =
      a.splitReason ((a.readyBuffer now wall (a.buffer origin)).addKey key) := rfl
  rw [hsplit]
  cases a.splitReason ((a.readyBuffer now wall (a.buffer origin)).addKey key) with
  | some reason => rfl
  | none => rfl

/-- A call for the origin does the same in both states. -/
theorem SameFor.addKey {s s' : State} {call : AddCall} (h : SameFor call.origin s s') :
    SameFor call.origin (addKey s call) (addKey s' call) := by
  obtain ⟨b, p, hsettings⟩ := h.settings
  have hresult : (s'.aggregator.addKey call.origin call.key call.now call.wall).2 =
      (s.aggregator.addKey call.origin call.key call.now call.wall).2 := by
    have hbuffer := h.buffer
    rw [hsettings] at hbuffer ⊢
    exact addKey_result_eq hbuffer call.key call.now call.wall
  have hready : s'.aggregator.readyBuffer call.now call.wall
      (s'.aggregator.buffer call.origin) =
      s.aggregator.readyBuffer call.now call.wall (s.aggregator.buffer call.origin) := by
    rw [h.buffer, hsettings]
    rfl
  have hreset := h.resetBuffer_eq call.now call.wall.split
  obtain ⟨b₁, p₁, hadd⟩ := s.aggregator.addKey_settings call.origin call.key call.now call.wall
  obtain ⟨b₂, p₂, hadd'⟩ := s'.aggregator.addKey_settings call.origin call.key call.now call.wall
  refine ⟨⟨b₂, p₂, ?_⟩, ?_, ?_, h.returned⟩
  · unfold QueryBfLedger.addKey
    dsimp only
    rw [hadd, hadd', hsettings]
  · unfold QueryBfLedger.addKey
    dsimp only
    rw [buffer_addKey_self, buffer_addKey_self, hresult, hready, hreset]
  · unfold QueryBfLedger.addKey
    dsimp only
    rw [pending_addKey, pending_addKey, List.filter_append, List.filter_append, h.pending,
      hresult, hready]

/-- What a flush returns for an origin: its pending batches, and its buffer if that is due. -/
theorem filter_flushDue (a : QueryBloomAggregator) (it : Iteration) (now : ℤ)
    (wall : Bytes → UInt64) (origin : Bytes) :
    ((a.flushDue it now wall).2.filter fun batch => batch.origin = origin) =
      (a.pending_batches.filter fun batch => batch.origin = origin) ++
        if a.due now (a.buffer origin) then [makeBatch origin (a.buffer origin)] else [] := by
  unfold QueryBloomAggregator.flushDue
  dsimp only
  rw [List.filter_append, List.filter_map]
  have hleaving := leaving_filter a it now origin
  simp only [Function.comp_def, makeBatch]
  rw [hleaving]
  split_ifs with hdue
  · rfl
  · rfl

/-- A flush returns the same for the origin from both states. -/
theorem SameFor.flushDue {origin : Bytes} {s s' : State} (h : SameFor origin s s')
    (it : Iteration) (now : ℤ) (wall : Bytes → UInt64) :
    SameFor origin (flushDue s it now wall) (flushDue s' it now wall) := by
  obtain ⟨b, p, hsettings⟩ := h.settings
  have hdue : s'.aggregator.due now (s'.aggregator.buffer origin) =
      s.aggregator.due now (s.aggregator.buffer origin) := by
    rw [h.buffer, hsettings]
    rfl
  have hreset := h.resetBuffer_eq now (wall origin)
  refine ⟨?_, ?_, rfl, ?_⟩
  · unfold QueryBfLedger.flushDue QueryBloomAggregator.flushDue
    dsimp only
    rw [hsettings]
    exact ⟨_, _, rfl⟩
  · unfold QueryBfLedger.flushDue
    dsimp only
    rw [buffer_flushDue, buffer_flushDue, hdue, hreset, h.buffer]
  · have hreturned := h.returned
    unfold batchesFor at hreturned ⊢
    unfold QueryBfLedger.flushDue
    dsimp only
    rw [List.filter_append, List.filter_append, hreturned, filter_flushDue, filter_flushDue, hdue,
      h.pending, h.buffer]

/-- A run, and the one in which the calls for other origins are left out. -/
theorem SameFor.run {origin : Bytes} {s s' : State} (h : SameFor origin s s')
    (calls : List Call) :
    ∃ t t', Machine.run step s calls = some t ∧
      Machine.run step s' (calls.filter (Call.concerns origin)) = some t' ∧
      SameFor origin t t' := by
  induction calls generalizing s s' with
  | nil => exact ⟨s, s', rfl, rfl, h⟩
  | cons call calls ih =>
    cases call with
    | flushDue it now wall => exact ih (h.flushDue it now wall)
    | addKey call =>
      by_cases horigin : call.origin = origin
      · subst horigin
        rw [List.filter_cons_of_pos (by simp [Call.concerns])]
        exact ih h.addKey
      · rw [List.filter_cons_of_neg (by simp [Call.concerns, horigin])]
        exact ih (h.addKey_of_ne (Ne.symm horigin))

/-- A call accepts one key at most. -/
theorem length_accepted_le {s s' : State} {calls : List Call}
    (hrun : Machine.run step s calls = some s') :
    s'.accepted.length ≤ s.accepted.length + calls.length := by
  induction calls generalizing s with
  | nil =>
    obtain rfl : s = s' := by simpa using hrun
    exact Nat.le_refl _
  | cons call calls ih =>
    rw [Machine.run_cons] at hrun
    obtain ⟨s₁, hstep, hrun⟩ := Option.bind_eq_some_iff.mp hrun
    have hrest := ih hrun
    have hone : s₁.accepted.length ≤ s.accepted.length + 1 := by
      cases call with
      | addKey call =>
        obtain rfl := Option.some.inj hstep
        simp [addKey, accepted_addKey]
      | flushDue it now wall =>
        obtain rfl := Option.some.inj hstep
        exact Nat.le_succ _
    rw [List.length_cons]
    omega

/-- The batches of every origin are exact, disjoint and its own. For every parameter setting, every
sequence of calls at any times and every origin: the batches returned for the origin, in the order
of their return, are made of disjoint runs of consecutive accepted calls of the origin, in the order
of these calls; each batch is made of one call at least, its key count is the length of its run in
64 bits, thus the length itself after fewer than `2 ^ 64` calls, and its filter is the empty filter
of the configured shape with the keys of the run added; and without the calls for the other origins,
the same batches are returned for the origin. -/
theorem batches_are_runs (bit_count hash_count : ℕ) (window ttl : ℤ) (max_fill_ratio : ℚ)
    (max_keys : UInt64) (clock : ℤ) (calls : List Call) (origin : Bytes) :
    ∃ s s' : State,
      Machine.run step
        (State.init (construct bit_count hash_count window ttl max_fill_ratio max_keys) clock)
          calls = some s ∧
      Machine.run step
        (State.init (construct bit_count hash_count window ttl max_fill_ratio max_keys) clock)
          (calls.filter (Call.concerns origin)) = some s' ∧
      (∃ runs, Blocks runs (acceptedFor s origin) ∧
        List.Forall₂ (MadeOf bit_count hash_count) (batchesFor s origin) runs ∧
        (calls.length < 2 ^ 64 →
          List.Forall₂ (fun batch run => 1 ≤ batch.key_count.toNat ∧
            batch.key_count.toNat = run.length) (batchesFor s origin) runs)) ∧
      batchesFor s' origin = batchesFor s origin := by
  have hinit : SameFor origin
      (State.init (construct bit_count hash_count window ttl max_fill_ratio max_keys) clock)
      (State.init (construct bit_count hash_count window ttl max_fill_ratio max_keys) clock) :=
    ⟨⟨_, _, rfl⟩, rfl, rfl, rfl⟩
  obtain ⟨s, s', hrun, hrun', hsame⟩ := hinit.run calls
  have hright : Matches bit_count hash_count s :=
    Machine.run_invariant (fun _ _ _ h hstep => h.step hstep)
      (matches_init window ttl max_fill_ratio max_keys clock) hrun
  have hempty : InOrder
      (State.init (construct bit_count hash_count window ttl max_fill_ratio max_keys) clock) :=
    fun _ => ⟨[], .nil [], rfl⟩
  have horder : InOrder s :=
    Machine.run_invariant (fun _ _ _ h hstep => InOrder.step h hstep) hempty hrun
  refine ⟨s, s', hrun, hrun', ?_, hsame.returned⟩
  obtain ⟨before, hblocks, haccepted⟩ := horder origin
  -- The returned batches are the first of all batches.
  have hreturned : Blocks
      ((s.returned.filter fun r => r.batch.origin = origin).map fun r => r.calls)
      (acceptedFor s origin) := by
    rw [haccepted]
    exact hblocks.of_append.gap _
  refine ⟨(s.returned.filter fun r => r.batch.origin = origin).map fun r => r.calls, hreturned,
    ?_, fun hfew => ?_⟩
  · unfold batchesFor
    rw [hright.output_eq, List.filter_map, List.forall₂_map_left_iff, List.forall₂_map_right_iff]
    exact List.forall₂_same.mpr fun r hr => hright.returned r (List.mem_filter.mp hr).1
  · unfold batchesFor
    rw [hright.output_eq, List.filter_map, List.forall₂_map_left_iff, List.forall₂_map_right_iff]
    refine List.forall₂_same.mpr fun r hr => ?_
    have hmade := hright.returned r (List.mem_filter.mp hr).1
    have hpos := List.length_pos_of_ne_nil hmade.ne_nil
    -- No run is longer than the list of all calls.
    have hrun_le := hreturned.length_le (List.mem_map_of_mem hr)
    have hfor : (acceptedFor s origin).length ≤ s.accepted.length := List.length_filter_le _ _
    have hall : s.accepted.length ≤ 0 + calls.length := length_accepted_le hrun
    have hcount : r.batch.key_count.toNat = r.calls.length := by
      rw [hmade.key_count, UInt64.toNat_ofNat', Nat.mod_eq_of_lt (by omega)]
    exact ⟨by omega, hcount⟩

end Netos.QueryBfLedger
