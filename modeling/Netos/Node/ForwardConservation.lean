import Netos.Node.ForwardQueue
import Netos.Node.Node

/-!
# Nothing in the forward queue is lost or sent twice

The queue with any number of callers and workers. `Life` is all that a state says about one ticket,
and `Legal` lists what it may say: an item is in one place, and it was sent and its callbacks ran
accordingly. A step changes the life of one ticket, so that `Conserved` is kept by every step.
`forward_queue_conservation` reads off what this means for the queue, the network, the callbacks and
the sync table.
-/

namespace Netos.ForwardQueue

open CString

/-! ## Logs and occupations -/

/-- The entries of a log under a ticket. -/
def logOf {α : Type} (log : List (ℕ × α)) (ticket : ℕ) : List α :=
  (log.filter fun e => e.1 = ticket).map Prod.snd

section logOf

variable {α : Type} (log : List (ℕ × α)) {t ticket : ℕ}

/-- The entries of two logs. -/
theorem logOf_append (log' : List (ℕ × α)) (t : ℕ) :
    logOf (log ++ log') t = logOf log t ++ logOf log' t := by
  rw [logOf, List.filter_append, List.map_append, logOf, logOf]

/-- A first entry under the ticket. -/
theorem logOf_cons_self (x : α) : logOf ((ticket, x) :: log) ticket = x :: logOf log ticket := by
  rw [logOf, List.filter_cons_of_pos (by simp), List.map_cons, logOf]

/-- A first entry under another ticket. -/
theorem logOf_cons_of_ne (h : t ≠ ticket) (x : α) : logOf ((ticket, x) :: log) t = logOf log t := by
  rw [logOf, List.filter_cons_of_neg (by simpa using Ne.symm h), logOf]

/-- A last entry under the ticket. -/
theorem logOf_append_self (x : α) :
    logOf (log ++ [(ticket, x)]) ticket = logOf log ticket ++ [x] := by
  rw [logOf_append, logOf_cons_self]
  rfl

/-- A last entry under another ticket. -/
theorem logOf_append_of_ne (h : t ≠ ticket) (x : α) :
    logOf (log ++ [(ticket, x)]) t = logOf log t := by
  rw [logOf_append, logOf_cons_of_ne _ h]
  exact List.append_nil _

/-- A last entry that may be there, under the ticket. -/
theorem logOf_append_toList_self (x : Option α) :
    logOf (log ++ (x.map fun y => (ticket, y)).toList) ticket =
      logOf log ticket ++ x.toList := by
  cases x with
  | none => rw [Option.map_none, Option.toList_none, List.append_nil, Option.toList_none,
      List.append_nil]
  | some y => exact logOf_append_self log y

/-- A last entry that may be there, under another ticket. -/
theorem logOf_append_toList_of_ne (h : t ≠ ticket) (x : Option α) :
    logOf (log ++ (x.map fun y => (ticket, y)).toList) t = logOf log t := by
  cases x with
  | none => rw [Option.map_none, Option.toList_none, List.append_nil]
  | some y => exact logOf_append_of_ne log h y

/-- An entry is found under its ticket. -/
theorem mem_logOf {x : α} : x ∈ logOf log t ↔ (t, x) ∈ log := by
  unfold logOf
  rw [List.mem_map]
  constructor
  · rintro ⟨⟨t', y⟩, hmem, rfl⟩
    obtain ⟨hentry, ht⟩ := List.mem_filter.mp hmem
    obtain rfl : t' = t := by simpa using ht
    exact hentry
  · intro hmem
    exact ⟨(t, x), List.mem_filter.mpr ⟨hmem, by simp⟩, rfl⟩

/-- No ticket occurs twice when there is at most one entry under each. -/
theorem nodup_of_logOf (h : ∀ t, (logOf log t).length ≤ 1) : (log.map Prod.fst).Nodup := by
  rw [List.nodup_iff_count_le_one]
  intro t
  have hcount : (log.map Prod.fst).count t = (logOf log t).length := by
    rw [List.count_eq_countP, List.countP_map, List.countP_eq_length_filter, logOf,
      List.length_map]
    rfl
  rw [hcount]
  exact h t

end logOf

section occupants

variable {α β γ : Type} (occupied : β → γ → Prop)

/-- Who is occupied with what. -/
def occupants (f : α → β) : Set (α × γ) := {x | occupied (f x.1) x.2}

variable {f : α → β} {a : α} {b : β}

/-- Nobody is occupied. -/
theorem occupants_eq_empty (h : ∀ a c, ¬ occupied (f a) c) : occupants occupied f = ∅ :=
  Set.eq_empty_iff_forall_notMem.mpr fun x => h x.1 x.2

variable [DecidableEq α]

/-- Someone who is and was occupied with nothing. -/
theorem occupants_update_of_not (hold : ∀ c, ¬ occupied (f a) c) (hnew : ∀ c, ¬ occupied b c) :
    occupants occupied (Function.update f a b) = occupants occupied f := by
  ext ⟨a', c⟩
  simp only [occupants, Set.mem_ofPred_eq]
  by_cases ha : a' = a
  · subst ha
    rw [Function.update_self]
    exact iff_of_false (hnew c) (hold c)
  · rw [Function.update_of_ne ha]

/-- Someone who is now the only one. -/
theorem occupants_update_enter {c : γ} (hempty : occupants occupied f = ∅)
    (hnew : ∀ c', occupied b c' ↔ c' = c) :
    occupants occupied (Function.update f a b) = {(a, c)} := by
  ext ⟨a', c'⟩
  simp only [occupants, Set.mem_ofPred_eq, Set.mem_singleton_iff, Prod.mk.injEq]
  by_cases ha : a' = a
  · subst ha
    rw [Function.update_self, hnew]
    simp
  · rw [Function.update_of_ne ha]
    have hnot : ¬ occupied (f a') c' := fun h =>
      absurd (show (a', c') ∈ occupants occupied f from h) (by simp [hempty])
    exact iff_of_false hnot fun h => ha h.1

/-- Someone who was the only one. -/
theorem occupants_update_leave {c : γ} (hone : occupants occupied f = {(a, c)})
    (hnew : ∀ c', ¬ occupied b c') : occupants occupied (Function.update f a b) = ∅ := by
  ext ⟨a', c'⟩
  simp only [occupants, Set.mem_ofPred_eq, Set.mem_empty_iff_false, iff_false]
  by_cases ha : a' = a
  · subst ha
    rw [Function.update_self]
    exact hnew c'
  · rw [Function.update_of_ne ha]
    intro h
    have hmem : (a', c') ∈ occupants occupied f := h
    rw [hone] at hmem
    exact ha (Prod.mk.inj hmem).1

end occupants

/-! ## The life of a ticket -/

variable {P W σ φ : Type}

/-- What a state says about a ticket. -/
@[ext] structure Life (P W σ φ : Type) where
  /-- Its items in the queue. -/
  queued : List (Item σ φ) := []
  /-- The workers that hold its item. -/
  holding : Set (W × Item σ φ) := ∅
  /-- The workers that have sent it and not run its callback. -/
  finishing : Set (W × Item σ φ × Outcome) := ∅
  /-- The callers that hold its item. -/
  dropping : Set (P × Item σ φ) := ∅
  /-- The calls of the network. -/
  sent : List (NetworkCall × Outcome) := []
  /-- The callbacks that ran. -/
  ran : List (Callback σ φ) := []

/-- A worker holds the item of a ticket. -/
def Holds (t : ℕ) (worker : Worker σ φ) (item : Item σ φ) : Prop := worker = .holding t item

/-- A worker has sent the item of a ticket, with an outcome. -/
def Finishes (t : ℕ) (worker : Worker σ φ) (x : Item σ φ × Outcome) : Prop :=
  worker = .finishing t x.1 x.2

/-- A caller holds the item of a ticket. -/
def Keeps (t : ℕ) (held : Option (ℕ × Item σ φ)) (item : Item σ φ) : Prop := held = some (t, item)

/-- The life of a ticket so far. -/
def State.life (s : State P W σ φ) (t : ℕ) : Life P W σ φ where
  queued := logOf s.queue t
  holding := occupants (Holds t) s.workers
  finishing := occupants (Finishes t) s.workers
  dropping := occupants (Keeps t) s.dropping
  sent := logOf s.sent t
  ran := logOf s.ran t

/-- What may be said about a ticket of an item. -/
inductive Legal (item : Item σ φ) : Fate → Life P W σ φ → Prop where
  /-- The caller sent it, and ran its callback. -/
  | inline (outcome : Outcome) : Legal item .inline
      { sent := [(item.network, outcome)], ran := (item.callback outcome).toList }
  /-- It is in the queue. -/
  | queued : Legal item .accepted { queued := [item] }
  /-- A worker holds it. -/
  | holding (w : W) : Legal item .accepted { holding := {(w, item)} }
  /-- A worker has sent it. -/
  | finishing (w : W) (outcome : Outcome) : Legal item .accepted
      { finishing := {(w, item, outcome)}, sent := [(item.network, outcome)] }
  /-- It was sent, and its callback ran. -/
  | done (outcome : Outcome) : Legal item .accepted
      { sent := [(item.network, outcome)], ran := (item.callback outcome).toList }
  /-- Its caller holds it. -/
  | dropping (p : P) : Legal item .rejected { dropping := {(p, item)} }
  /-- It was dropped, and its callback ran. -/
  | dropped : Legal item .rejected { ran := item.dropCallback.toList }

section Legal

variable {item item' : Item σ φ} {fate : Fate} {l : Life P W σ φ}

/-- Who is in the queue is nowhere else. -/
theorem Legal.of_queued (h : Legal item fate l) {rest : List (Item σ φ)}
    (hqueued : l.queued = item' :: rest) :
    fate = .accepted ∧ item = item' ∧ rest = [] ∧ l = { queued := [item] } := by
  cases h with
  | queued =>
    obtain ⟨rfl, rfl⟩ := List.cons.inj hqueued
    exact ⟨rfl, rfl, rfl, rfl⟩
  | _ => exact absurd hqueued (by simp)

/-- What a worker holds is nowhere else. -/
theorem Legal.of_holding (h : Legal item fate l) {w : W} (hholding : (w, item') ∈ l.holding) :
    fate = .accepted ∧ item = item' ∧ l = { holding := {(w, item)} } := by
  cases h with
  | holding w' =>
    obtain ⟨rfl, rfl⟩ := Prod.mk.inj hholding
    exact ⟨rfl, rfl, rfl⟩
  | _ => exact absurd hholding (by simp)

/-- What a worker has sent is nowhere else. -/
theorem Legal.of_finishing (h : Legal item fate l) {w : W} {outcome : Outcome}
    (hfinishing : (w, item', outcome) ∈ l.finishing) :
    fate = .accepted ∧ item = item' ∧
      l = { finishing := {(w, item, outcome)}, sent := [(item.network, outcome)] } := by
  cases h with
  | finishing w' outcome' =>
    obtain ⟨rfl, hrest⟩ := Prod.mk.inj hfinishing
    obtain ⟨rfl, rfl⟩ := Prod.mk.inj hrest
    exact ⟨rfl, rfl, rfl⟩
  | _ => exact absurd hfinishing (by simp)

/-- What a caller holds is nowhere else. -/
theorem Legal.of_dropping (h : Legal item fate l) {p : P} (hdropping : (p, item') ∈ l.dropping) :
    fate = .rejected ∧ item = item' ∧ l = { dropping := {(p, item)} } := by
  cases h with
  | dropping p' =>
    obtain ⟨rfl, rfl⟩ := Prod.mk.inj hdropping
    exact ⟨rfl, rfl, rfl⟩
  | _ => exact absurd hdropping (by simp)

end Legal

/-! ## The invariant -/

/-- The tickets of the items that were put into the queue, in their order. -/
def acceptedTickets (calls : List (Item σ φ × Fate)) : List ℕ :=
  (calls.zipIdx.filter fun e => e.1.2 = .accepted).map Prod.snd

/-- One call more. -/
theorem acceptedTickets_append_singleton (calls : List (Item σ φ × Fate)) (item : Item σ φ)
    (fate : Fate) : acceptedTickets (calls ++ [(item, fate)]) =
      acceptedTickets calls ++ if fate = .accepted then [calls.length] else [] := by
  unfold acceptedTickets
  rw [List.zipIdx_append, List.filter_append, List.map_append]
  congr 1
  split_ifs with hfate
  · simp [hfate]
  · simp [hfate]

/-- What holds of the queue in every state. -/
structure Conserved (max_depth : ℕ) (s : State P W σ φ) : Prop where
  /-- The queue is not too long. -/
  depth : s.queue.length ≤ max_depth
  /-- Items leave the queue in the order in which they were put into it. -/
  order : s.dequeued ++ s.queue.map Prod.fst = acceptedTickets s.calls
  /-- The life of every call is legal. -/
  issued : ∀ t item fate, s.calls[t]? = some (item, fate) → Legal item fate (s.life t)
  /-- Nothing is said about later tickets. -/
  unissued : ∀ t, s.calls.length ≤ t → s.life t = {}

variable {max_depth : ℕ} {s s' : State P W σ φ}

/-- A ticket about which something is said belongs to a call. -/
theorem Conserved.exists_call (h : Conserved max_depth s) {t : ℕ} (hne : s.life t ≠ {}) :
    ∃ item fate, s.calls[t]? = some (item, fate) ∧ Legal item fate (s.life t) := by
  have hlt : t < s.calls.length := by
    by_contra hle
    exact hne (h.unissued t (by omega))
  have hget : s.calls[t]? = some s.calls[t] := List.getElem?_eq_getElem hlt
  exact ⟨_, _, hget, h.issued t _ _ hget⟩

/-- A log with at most one entry in every legal life has at most one under every ticket. -/
theorem Conserved.length_le (h : Conserved max_depth s) {α : Type} {log : List (ℕ × α)} {t : ℕ}
    (hlegal : ∀ {item fate}, Legal item fate (s.life t) → (logOf log t).length ≤ 1)
    (hnone : s.life t = {} → logOf log t = []) : (logOf log t).length ≤ 1 := by
  by_cases hlife : s.life t = {}
  · rw [hnone hlife]
    exact Nat.zero_le _
  · obtain ⟨item, fate, -, hissued⟩ := h.exists_call hlife
    exact hlegal hissued

/-- A call that puts nothing into the queue keeps the order. -/
theorem Conserved.order_append (h : Conserved max_depth s) (item : Item σ φ) {fate : Fate}
    (hfate : fate ≠ .accepted) :
    s.dequeued ++ s.queue.map Prod.fst = acceptedTickets (s.calls ++ [(item, fate)]) := by
  rw [acceptedTickets_append_singleton, if_neg hfate, List.append_nil]
  exact h.order

/-- What is in the queue is nowhere else. -/
theorem Conserved.life_of_queued (h : Conserved max_depth s) {ticket : ℕ} {item : Item σ φ}
    {rest : List (Item σ φ)} (hqueued : (s.life ticket).queued = item :: rest) :
    s.calls[ticket]? = some (item, .accepted) ∧ rest = [] ∧
      s.life ticket = { queued := [item] } := by
  obtain ⟨item', fate, hget, hlegal⟩ := h.exists_call (t := ticket) (by
    intro hnone
    rw [hnone] at hqueued
    exact absurd hqueued (by simp))
  obtain ⟨rfl, rfl, hrest, hlife⟩ := hlegal.of_queued hqueued
  exact ⟨hget, hrest, hlife⟩

/-- What a worker holds is nowhere else. -/
theorem Conserved.life_of_holding (h : Conserved max_depth s) {ticket : ℕ} {item : Item σ φ} {w : W}
    (hholding : s.workers w = .holding ticket item) :
    s.calls[ticket]? = some (item, .accepted) ∧
      s.life ticket = { holding := {(w, item)} } := by
  have hmem : (w, item) ∈ (s.life ticket).holding := hholding
  obtain ⟨item', fate, hget, hlegal⟩ := h.exists_call (t := ticket) (by
    intro hnone
    rw [hnone] at hmem
    exact hmem)
  obtain ⟨rfl, rfl, hlife⟩ := hlegal.of_holding hmem
  exact ⟨hget, hlife⟩

/-- What a worker has sent is nowhere else. -/
theorem Conserved.life_of_finishing (h : Conserved max_depth s) {ticket : ℕ} {item : Item σ φ}
    {outcome : Outcome} {w : W} (hfinishing : s.workers w = .finishing ticket item outcome) :
    s.calls[ticket]? = some (item, .accepted) ∧
      s.life ticket =
        { finishing := {(w, item, outcome)}, sent := [(item.network, outcome)] } := by
  have hmem : (w, item, outcome) ∈ (s.life ticket).finishing := hfinishing
  obtain ⟨item', fate, hget, hlegal⟩ := h.exists_call (t := ticket) (by
    intro hnone
    rw [hnone] at hmem
    exact hmem)
  obtain ⟨rfl, rfl, hlife⟩ := hlegal.of_finishing hmem
  exact ⟨hget, hlife⟩

/-- What a caller holds is nowhere else. -/
theorem Conserved.life_of_dropping (h : Conserved max_depth s) {ticket : ℕ} {item : Item σ φ}
    {p : P} (hdropping : s.dropping p = some (ticket, item)) :
    s.calls[ticket]? = some (item, .rejected) ∧
      s.life ticket = { dropping := {(p, item)} } := by
  have hmem : (p, item) ∈ (s.life ticket).dropping := hdropping
  obtain ⟨item', fate, hget, hlegal⟩ := h.exists_call (t := ticket) (by
    intro hnone
    rw [hnone] at hmem
    exact hmem)
  obtain ⟨rfl, rfl, hlife⟩ := hlegal.of_dropping hmem
  exact ⟨hget, hlife⟩

/-- A call whose life begins legally. -/
theorem Conserved.of_call (h : Conserved max_depth s) {item : Item σ φ} {fate : Fate}
    (hcalls : s'.calls = s.calls ++ [(item, fate)]) (hdepth : s'.queue.length ≤ max_depth)
    (horder : s'.dequeued ++ s'.queue.map Prod.fst = acceptedTickets s'.calls)
    (hlegal : Legal item fate (s'.life s.calls.length))
    (hother : ∀ t, t ≠ s.calls.length → s'.life t = s.life t) : Conserved max_depth s' := by
  refine ⟨hdepth, horder, fun t item' fate' hget => ?_, fun t ht => ?_⟩
  · by_cases hnew : t = s.calls.length
    · subst hnew
      rw [hcalls, List.getElem?_concat_length] at hget
      obtain ⟨rfl, rfl⟩ := Prod.mk.inj (Option.some.inj hget)
      exact hlegal
    · have hlt : t < s.calls.length := by
        have hbound := (List.getElem?_eq_some_iff.mp hget).1
        rw [hcalls, List.length_append, List.length_singleton] at hbound
        omega
      rw [hcalls, List.getElem?_append_left hlt] at hget
      rw [hother t hnew]
      exact h.issued t item' fate' hget
  · rw [hcalls, List.length_append, List.length_singleton] at ht
    rw [hother t (by omega)]
    exact h.unissued t (by omega)

/-- A call whose life goes on legally. -/
theorem Conserved.of_life (h : Conserved max_depth s) {ticket : ℕ} {item : Item σ φ} {fate : Fate}
    (hget : s.calls[ticket]? = some (item, fate)) (hcalls : s'.calls = s.calls)
    (hdepth : s'.queue.length ≤ max_depth)
    (horder : s'.dequeued ++ s'.queue.map Prod.fst = s.dequeued ++ s.queue.map Prod.fst)
    (hlegal : Legal item fate (s'.life ticket))
    (hother : ∀ t, t ≠ ticket → s'.life t = s.life t) : Conserved max_depth s' := by
  refine ⟨hdepth, by rw [horder, hcalls, h.order], fun t item' fate' hget' => ?_, fun t ht => ?_⟩
  · rw [hcalls] at hget'
    by_cases hticket : t = ticket
    · subst hticket
      obtain ⟨rfl, rfl⟩ := Prod.mk.inj (Option.some.inj (hget.symm.trans hget'))
      exact hlegal
    · rw [hother t hticket]
      exact h.issued t item' fate' hget'
  · have hticket : t ≠ ticket := by
      rintro rfl
      have hbound := (List.getElem?_eq_some_iff.mp hget).1
      rw [hcalls] at ht
      omega
    rw [hother t hticket]
    exact h.unissued t (hcalls ▸ ht)

/-- An item is put into the queue. -/
theorem Conserved.accepted (h : Conserved max_depth s) (item : Item σ φ)
    (hroom : s.queue.length < max_depth) :
    Conserved max_depth { s with
      calls := s.calls ++ [(item, .accepted)]
      queue := s.queue ++ [(s.calls.length, item)] } := by
  have hnone := h.unissued s.calls.length le_rfl
  refine h.of_call rfl ?_ ?_ ?_ fun t ht => ?_
  · rw [List.length_append, List.length_singleton]
    omega
  · rw [acceptedTickets_append_singleton, if_pos rfl, ← h.order, List.map_append,
      List.append_assoc]
    rfl
  · have hlife : ({ s with
        calls := s.calls ++ [(item, .accepted)]
        queue := s.queue ++ [(s.calls.length, item)] } : State P W σ φ).life s.calls.length =
        { s.life s.calls.length with queued := (s.life s.calls.length).queued ++ [item] } := by
      refine Life.ext ?_ rfl rfl rfl rfl rfl
      exact logOf_append_self _ _
    rw [hlife, hnone]
    exact .queued
  · refine Life.ext ?_ rfl rfl rfl rfl rfl
    exact logOf_append_of_ne _ ht _

/-- A caller sends a message itself. -/
theorem Conserved.inline (h : Conserved max_depth s) (c : Call σ φ) (outcome : Outcome) :
    Conserved max_depth { s with
      calls := s.calls ++ [(c.item, .inline)]
      sent := s.sent ++ [(s.calls.length, c.inlineNetwork, outcome)]
      ran := s.ran ++ ((c.inlineCallback outcome).map fun run =>
        (s.calls.length, run)).toList } := by
  have hnone := h.unissued s.calls.length le_rfl
  refine h.of_call rfl h.depth (h.order_append _ (by simp)) ?_ fun t ht => ?_
  · rw [← network_item, ← callback_item]
    have hlife : ({ s with
        calls := s.calls ++ [(c.item, .inline)]
        sent := s.sent ++ [(s.calls.length, c.item.network, outcome)]
        ran := s.ran ++ ((c.item.callback outcome).map fun run =>
          (s.calls.length, run)).toList } : State P W σ φ).life s.calls.length =
        { s.life s.calls.length with
          sent := (s.life s.calls.length).sent ++ [(c.item.network, outcome)]
          ran := (s.life s.calls.length).ran ++ (c.item.callback outcome).toList } := by
      refine Life.ext rfl rfl rfl rfl ?_ ?_
      · exact logOf_append_self _ _
      · exact logOf_append_toList_self _ _
    rw [hlife, hnone]
    exact .inline outcome
  · refine Life.ext rfl rfl rfl rfl ?_ ?_
    · exact logOf_append_of_ne _ ht _
    · exact logOf_append_toList_of_ne _ ht _

section callers

variable [DecidableEq P]

/-- The queue is full, and the caller keeps the item. -/
theorem Conserved.rejected (h : Conserved max_depth s) (p : P) (item : Item σ φ)
    (hfree : s.dropping p = none) :
    Conserved max_depth { s with
      calls := s.calls ++ [(item, .rejected)]
      dropping := Function.update s.dropping p (some (s.calls.length, item)) } := by
  have hnone := h.unissued s.calls.length le_rfl
  refine h.of_call rfl h.depth (h.order_append _ (by simp)) ?_ fun t ht => ?_
  · have hlife : ({ s with
        calls := s.calls ++ [(item, .rejected)]
        dropping := Function.update s.dropping p (some (s.calls.length, item)) } :
          State P W σ φ).life s.calls.length =
        { s.life s.calls.length with dropping := {(p, item)} } := by
      refine Life.ext rfl rfl rfl ?_ rfl rfl
      exact occupants_update_enter (Keeps _) (congrArg Life.dropping hnone) fun item' => by
        simp [Keeps, eq_comm]
    rw [hlife, hnone]
    exact .dropping p
  · refine Life.ext rfl rfl rfl ?_ rfl rfl
    exact occupants_update_of_not (Keeps t) (by simp [Keeps, hfree]) (by simp [Keeps, Ne.symm ht])

/-- A caller runs the callback of a dropped item. -/
theorem Conserved.drop (h : Conserved max_depth s) (p : P) {ticket : ℕ} {item : Item σ φ}
    (hdropping : s.dropping p = some (ticket, item)) :
    Conserved max_depth { s with
      dropping := Function.update s.dropping p none
      ran := s.ran ++ (item.dropCallback.map fun run => (ticket, run)).toList } := by
  obtain ⟨hget, hlife⟩ := h.life_of_dropping hdropping
  refine h.of_life hget rfl h.depth rfl ?_ fun t ht => ?_
  · have hlife' : ({ s with
        dropping := Function.update s.dropping p none
        ran := s.ran ++ (item.dropCallback.map fun run => (ticket, run)).toList } :
          State P W σ φ).life ticket =
        { s.life ticket with
          dropping := ∅
          ran := (s.life ticket).ran ++ item.dropCallback.toList } := by
      refine Life.ext rfl rfl rfl ?_ rfl ?_
      · exact occupants_update_leave (Keeps _) (congrArg Life.dropping hlife) (by simp [Keeps])
      · exact logOf_append_toList_self _ _
    rw [hlife', hlife]
    exact .dropped
  · refine Life.ext rfl rfl rfl ?_ rfl ?_
    · exact occupants_update_of_not (Keeps t) (by simp [Keeps, hdropping, Ne.symm ht])
        (by simp [Keeps])
    · exact logOf_append_toList_of_ne _ ht _

end callers

section workers

variable [DecidableEq W]

/-- A worker takes the oldest item. -/
theorem Conserved.dequeue (h : Conserved max_depth s) (w : W) {ticket : ℕ} {item : Item σ φ}
    {queue : List (ℕ × Item σ φ)} (hwaiting : s.workers w = .waiting)
    (hqueue : s.queue = (ticket, item) :: queue) :
    Conserved max_depth { s with
      queue
      workers := Function.update s.workers w (.holding ticket item)
      dequeued := s.dequeued ++ [ticket] } := by
  have hqueued : (s.life ticket).queued = item :: logOf queue ticket := by
    change logOf s.queue ticket = _
    rw [hqueue, logOf_cons_self]
  obtain ⟨hget, hrest, hlife⟩ := h.life_of_queued hqueued
  have hdepth := h.depth
  rw [hqueue, List.length_cons] at hdepth
  refine h.of_life hget rfl (by dsimp only; omega) ?_ ?_ fun t ht => ?_
  · rw [hqueue, List.map_cons, List.append_assoc]
    rfl
  · have hlife' : ({ s with
        queue
        workers := Function.update s.workers w (.holding ticket item)
        dequeued := s.dequeued ++ [ticket] } : State P W σ φ).life ticket =
        { s.life ticket with queued := [], holding := {(w, item)} } := by
      refine Life.ext hrest ?_ ?_ rfl rfl rfl
      · exact occupants_update_enter (Holds _) (congrArg Life.holding hlife) fun item => by
          simp [Holds, eq_comm]
      · exact occupants_update_of_not (Finishes _) (by simp [Finishes, hwaiting])
          (by simp [Finishes])
    rw [hlife', hlife]
    exact .holding w
  · refine Life.ext ?_ ?_ ?_ rfl rfl rfl
    · change logOf queue t = logOf s.queue t
      rw [hqueue, logOf_cons_of_ne _ ht]
    · exact occupants_update_of_not (Holds t) (by simp [Holds, hwaiting])
        (by simp [Holds, Ne.symm ht])
    · exact occupants_update_of_not (Finishes t) (by simp [Finishes, hwaiting])
        (by simp [Finishes])

/-- A worker makes the call of the network. -/
theorem Conserved.send (h : Conserved max_depth s) (w : W) {ticket : ℕ} {item : Item σ φ}
    (hholding : s.workers w = .holding ticket item) (outcome : Outcome) :
    Conserved max_depth { s with
      workers := Function.update s.workers w (.finishing ticket item outcome)
      sent := s.sent ++ [(ticket, item.network, outcome)] } := by
  obtain ⟨hget, hlife⟩ := h.life_of_holding hholding
  refine h.of_life hget rfl h.depth rfl ?_ fun t ht => ?_
  · have hlife' : ({ s with
        workers := Function.update s.workers w (.finishing ticket item outcome)
        sent := s.sent ++ [(ticket, item.network, outcome)] } : State P W σ φ).life ticket =
        { s.life ticket with
          holding := ∅
          finishing := {(w, item, outcome)}
          sent := (s.life ticket).sent ++ [(item.network, outcome)] } := by
      refine Life.ext rfl ?_ ?_ rfl ?_ rfl
      · exact occupants_update_leave (Holds _) (congrArg Life.holding hlife) (by simp [Holds])
      · exact occupants_update_enter (Finishes _) (congrArg Life.finishing hlife) fun x => by
          simp [Finishes, Prod.ext_iff, eq_comm]
      · exact logOf_append_self _ _
    rw [hlife', hlife]
    exact .finishing w outcome
  · refine Life.ext rfl ?_ ?_ rfl ?_ rfl
    · exact occupants_update_of_not (Holds t) (by simp [Holds, hholding, Ne.symm ht])
        (by simp [Holds])
    · exact occupants_update_of_not (Finishes t) (by simp [Finishes, hholding])
        (by simp [Finishes, Ne.symm ht])
    · exact logOf_append_of_ne _ ht _

/-- A worker runs the callback. -/
theorem Conserved.finish (h : Conserved max_depth s) (w : W) {ticket : ℕ} {item : Item σ φ}
    {outcome : Outcome} (hfinishing : s.workers w = .finishing ticket item outcome) :
    Conserved max_depth { s with
      workers := Function.update s.workers w .waiting
      ran := s.ran ++ ((item.callback outcome).map fun run => (ticket, run)).toList } := by
  obtain ⟨hget, hlife⟩ := h.life_of_finishing hfinishing
  refine h.of_life hget rfl h.depth rfl ?_ fun t ht => ?_
  · have hlife' : ({ s with
        workers := Function.update s.workers w .waiting
        ran := s.ran ++ ((item.callback outcome).map fun run => (ticket, run)).toList } :
          State P W σ φ).life ticket =
        { s.life ticket with
          finishing := ∅
          ran := (s.life ticket).ran ++ (item.callback outcome).toList } := by
      refine Life.ext rfl ?_ ?_ rfl rfl ?_
      · exact occupants_update_of_not (Holds _) (by simp [Holds, hfinishing]) (by simp [Holds])
      · exact occupants_update_leave (Finishes _) (congrArg Life.finishing hlife)
          (by simp [Finishes])
      · exact logOf_append_toList_self _ _
    rw [hlife', hlife]
    exact .done outcome
  · refine Life.ext rfl ?_ ?_ rfl rfl ?_
    · exact occupants_update_of_not (Holds t) (by simp [Holds, hfinishing]) (by simp [Holds])
    · exact occupants_update_of_not (Finishes t) (by simp [Finishes, hfinishing, Ne.symm ht])
        (by simp [Finishes])
    · exact logOf_append_toList_of_ne _ ht _

end workers

/-- The queue stays started, so that a caller sends a message itself only when it is disabled. -/
structure Queueing (config : ForwardQueueConfig) (s : State P W σ φ) : Prop where
  /-- `start` was called. -/
  started : s.started = true
  /-- No caller sent a message itself, unless the queue is disabled. -/
  not_inline : config.enabled = true → ∀ call ∈ s.calls, call.2 ≠ .inline

/-- A call that is not sent by its caller keeps this. -/
theorem Queueing.call {config : ForwardQueueConfig} (h : Queueing config s) {item : Item σ φ}
    {fate : Fate} (hfate : fate ≠ .inline) (hstarted : s'.started = true)
    (hcalls : s'.calls = s.calls ++ [(item, fate)]) : Queueing config s' := by
  refine ⟨hstarted, fun henabled call hcall => ?_⟩
  rw [hcalls] at hcall
  rcases List.mem_append.mp hcall with hcall | hcall
  · exact h.not_inline henabled call hcall
  · rw [List.mem_singleton.mp hcall]
    exact hfate

section steps

variable [DecidableEq P] [DecidableEq W]

/-- Every step conserves the items. -/
theorem Conserved.step {config : ForwardQueueConfig} {outcomes : ℕ → Outcome}
    {a : Action P W σ φ} (h : Conserved config.max_depth s)
    (hstep : step config outcomes s a = some s') : Conserved config.max_depth s' := by
  cases stepped_of_step hstep with
  | inline p c hfree hinline => exact h.inline c _
  | rejected p c hfree henabled hstarted hfull => exact h.rejected p c.item hfree
  | accepted p c hfree henabled hstarted hroom => exact h.accepted c.item hroom
  | drop p ticket item hdropping => exact h.drop p hdropping
  | dequeue w ticket item queue hwaiting hqueue => exact h.dequeue w hwaiting hqueue
  | send w ticket item hholding => exact h.send w hholding _
  | finish w ticket item outcome hfinishing => exact h.finish w hfinishing

/-- Every step keeps this. -/
theorem Queueing.step {config : ForwardQueueConfig} {outcomes : ℕ → Outcome}
    {a : Action P W σ φ} (h : Queueing config s)
    (hstep : step config outcomes s a = some s') : Queueing config s' := by
  cases stepped_of_step hstep with
  | inline p c hfree hinline =>
    have hdisabled : config.enabled = false := hinline.resolve_right (by simp [h.started])
    exact ⟨h.started, fun henabled => absurd henabled (by simp [hdisabled])⟩
  | rejected p c hfree henabled hstarted hfull => exact h.call (by simp) h.started rfl
  | accepted p c hfree henabled hstarted hroom => exact h.call (by simp) h.started rfl
  | drop p ticket item hdropping => exact ⟨h.started, h.not_inline⟩
  | dequeue w ticket item queue hwaiting hqueue => exact ⟨h.started, h.not_inline⟩
  | send w ticket item hholding => exact ⟨h.started, h.not_inline⟩
  | finish w ticket item outcome hfinishing => exact ⟨h.started, h.not_inline⟩

end steps

/-- Nothing is said about any ticket in a queue that was just started. -/
theorem conserved_start (max_depth : ℕ) :
    Conserved max_depth (construct : State P W σ φ).start := by
  have hcalls : (construct : State P W σ φ).start.calls = [] := rfl
  refine ⟨Nat.zero_le _, rfl, fun t item fate hget => absurd hget (by simp [hcalls]), fun t _ => ?_⟩
  refine Life.ext rfl ?_ ?_ ?_ rfl rfl
  · exact occupants_eq_empty (Holds t) fun w item => (nofun : Worker.waiting ≠ .holding t item)
  · exact occupants_eq_empty (Finishes t) fun w x => (nofun : Worker.waiting ≠ .finishing t x.1 x.2)
  · exact occupants_eq_empty (Keeps t) fun p item => (nofun : none ≠ some (t, item))

/-! ## What this means for an item -/

section items

variable (s : State P W σ φ) (t : ℕ) (item : Item σ φ)

/-- An accepted item is in one place. -/
inductive OnePlace : Prop where
  /-- It is in the queue. -/
  | queued (hqueue : logOf s.queue t = [item]) (hheld : ∀ w i, s.workers w ≠ .holding t i)
      (hsent : logOf s.sent t = [])
  /-- One worker holds it. -/
  | held (w : W) (hqueue : logOf s.queue t = [])
      (hheld : ∀ w' i, s.workers w' = .holding t i ↔ w' = w ∧ i = item)
      (hsent : logOf s.sent t = [])
  /-- It was handed to the network, once. -/
  | sent (outcome : Outcome) (hqueue : logOf s.queue t = [])
      (hheld : ∀ w i, s.workers w ≠ .holding t i)
      (hsent : logOf s.sent t = [(item.network, outcome)])

/-- A rejected item is sent by nobody, and its `on_failure` runs once. -/
structure Dropped : Prop where
  /-- It is not in the queue. -/
  queue : logOf s.queue t = []
  /-- No worker holds it. -/
  held : ∀ w i, s.workers w ≠ .holding t i
  /-- It was not handed to the network. -/
  sent : logOf s.sent t = []
  /-- Its caller is about to run `on_failure`, or has run it once. -/
  ran : (∃ p, s.dropping p = some (t, item)) ∧ logOf s.ran t = [] ∨
    (∀ p i, s.dropping p ≠ some (t, i)) ∧ logOf s.ran t = item.dropCallback.toList

/-- At most one callback of an item ran, and `on_success` after the item was sent. -/
structure RanOnce : Prop where
  /-- At most one ran, and at most once. -/
  once : (logOf s.ran t).length ≤ 1
  /-- `on_success` is that of the item, which is a direct one and was sent. -/
  success : ∀ f, .success f ∈ logOf s.ran t → item.kind = .direct ∧ item.on_success = some f ∧
    logOf s.sent t = [(.sendDirect item.addr item.msg, .ok ())]

variable {s t item} {fate : Fate}

/-- No worker holds an item, as its life says. -/
theorem not_holding_of_life (h : (s.life t).holding = ∅) (w : W) (i : Item σ φ) :
    s.workers w ≠ .holding t i :=
  fun hholding => Set.eq_empty_iff_forall_notMem.mp h (w, i) hholding

/-- An accepted item is in one place. -/
theorem Legal.onePlace (h : Legal item .accepted (s.life t)) : OnePlace s t item := by
  generalize hlife : s.life t = l at h
  have hqueue := congrArg Life.queued hlife
  have hholding := congrArg Life.holding hlife
  have hsent := congrArg Life.sent hlife
  cases h with
  | queued => exact .queued hqueue (not_holding_of_life hholding) hsent
  | holding w =>
    refine .held w hqueue (fun w' i => ?_) hsent
    have hone : (s.life t).holding = {(w, item)} := hholding
    have hmem : s.workers w' = .holding t i ↔ (w', i) ∈ (s.life t).holding := Iff.rfl
    rw [hmem, hone, Set.mem_singleton_iff, Prod.mk.injEq]
  | finishing w outcome => exact .sent outcome hqueue (not_holding_of_life hholding) hsent
  | done outcome => exact .sent outcome hqueue (not_holding_of_life hholding) hsent

/-- A rejected item is dropped. -/
theorem Legal.isDropped (h : Legal item .rejected (s.life t)) : Dropped s t item := by
  generalize hlife : s.life t = l at h
  have hqueue := congrArg Life.queued hlife
  have hholding := congrArg Life.holding hlife
  have hdropping := congrArg Life.dropping hlife
  have hsent := congrArg Life.sent hlife
  have hran := congrArg Life.ran hlife
  cases h with
  | dropping p =>
    have hmem : (p, item) ∈ (s.life t).dropping := hdropping ▸ Set.mem_singleton _
    exact ⟨hqueue, not_holding_of_life hholding, hsent, Or.inl ⟨⟨p, hmem⟩, hran⟩⟩
  | dropped =>
    refine ⟨hqueue, not_holding_of_life hholding, hsent, Or.inr ⟨fun p i hheld => ?_, hran⟩⟩
    exact Set.eq_empty_iff_forall_notMem.mp hdropping (p, i) hheld

/-- The success callback of an item that runs after a call of the network. -/
theorem success_mem_callback {outcome : Outcome} {f : σ}
    (h : .success f ∈ (item.callback outcome).toList) :
    item.kind = .direct ∧ item.on_success = some f ∧
      (item.network, outcome) = (.sendDirect item.addr item.msg, .ok ()) := by
  rw [Option.mem_toList] at h
  unfold Item.callback at h
  unfold Item.network
  cases hkind : item.kind with
  | broadcast => simp [hkind] at h
  | direct =>
    cases outcome with
    | error error => simp [hkind] at h
    | ok _ => exact ⟨rfl, by simpa [hkind] using h, rfl⟩

/-- At most one callback of a call ran. -/
theorem Legal.ranOnce (h : Legal item fate (s.life t)) : RanOnce s t item := by
  generalize hlife : s.life t = l at h
  have hsent := congrArg Life.sent hlife
  have hran : logOf s.ran t = l.ran := congrArg Life.ran hlife
  have hsilent : logOf s.ran t = [] → RanOnce s t item := fun hnone =>
    ⟨by rw [hnone]; exact Nat.zero_le _, fun f hf => absurd hf (by simp [hnone])⟩
  -- The callback after a call of the network.
  have hafter : ∀ outcome, logOf s.sent t = [(item.network, outcome)] →
      logOf s.ran t = (item.callback outcome).toList → RanOnce s t item := by
    intro outcome hsent hran
    refine ⟨?_, fun f hf => ?_⟩
    · rw [hran]
      exact Option.length_toList_le
    · rw [hran] at hf
      obtain ⟨hkind, hsuccess, hnetwork⟩ := success_mem_callback hf
      exact ⟨hkind, hsuccess, by rw [hsent, hnetwork]⟩
  cases h with
  | inline outcome => exact hafter outcome hsent hran
  | queued => exact hsilent hran
  | holding w => exact hsilent hran
  | finishing w outcome => exact hsilent hran
  | done outcome => exact hafter outcome hsent hran
  | dropping p => exact hsilent hran
  | dropped =>
    refine ⟨?_, fun f hf => ?_⟩
    · rw [hran]
      exact Option.length_toList_le
    · rw [hran, Option.mem_toList, Item.dropCallback] at hf
      simp at hf

/-- At most one call of the network for every call. -/
theorem Legal.length_sent_le (h : Legal item fate (s.life t)) : (logOf s.sent t).length ≤ 1 := by
  generalize hlife : s.life t = l at h
  have hsent : logOf s.sent t = l.sent := congrArg Life.sent hlife
  rw [hsent]
  cases h <;> simp

end items

/-! ## The sync table -/

/-- What a callback of `handle_request` does to the sync table: `on_success` records the origin of
the `DATA` for its key, and `on_failure` writes to the log only. -/
def Callback.record (table : SyncTable) : Callback (Bytes × Bytes) φ → SyncTable
  | .success (key, origin) => (table.recordDestination key origin).1
  | .failure _ _ => table

/-- This is what the callback of a node's answer does to its sync table. -/
theorem sync_table_onSuccess (n : Node) (f : Bytes × Bytes) :
    (n.onSuccess (some f)).sync_table = (Callback.success f : Callback _ φ).record n.sync_table :=
  rfl

/-- The sync table after the callbacks that ran. -/
def State.syncTable (capacity : ℕ) (s : State P W (Bytes × Bytes) φ) : SyncTable :=
  s.ran.foldl (fun table entry => entry.2.record table) (.construct capacity)

/-- A destination was recorded before, or by a callback. -/
theorem mem_destinations_foldl {ran : List (ℕ × Callback (Bytes × Bytes) φ)} {table : SyncTable}
    {key destination : Bytes}
    (h : destination ∈
      (ran.foldl (fun table entry => entry.2.record table) table).destinations key) :
    destination ∈ table.destinations key ∨ ∃ t, (t, .success (key, destination)) ∈ ran := by
  induction ran generalizing table with
  | nil => exact Or.inl h
  | cons entry ran ih =>
    obtain ⟨t, callback⟩ := entry
    rcases ih h with h | ⟨t', h⟩
    · cases callback with
      | failure on_failure error => exact Or.inl h
      | success recorded =>
        rcases SyncTable.mem_destinations_of_recordDestination recorded.1 h with h | ⟨rfl, rfl⟩
        · exact Or.inl h
        · exact Or.inr ⟨t, List.mem_cons_self⟩
    · exact Or.inr ⟨t', List.mem_cons_of_mem _ h⟩

/-- The call that hands over what a handler sends. -/
def Call.ofSend (on_failure : Option φ) : Send → Call (Bytes × Bytes) φ
  | .direct addr msg on_success => .direct addr msg on_success on_failure
  | .broadcast msg exclude => .broadcast msg exclude

/-- What a handler sends, if it has an `on_success`, is a `DATA`, and the key and the origin that
are recorded are its own. -/
def Recording : Send → Prop
  | .direct _ msg on_success => ∀ key destination, on_success = some (key, destination) →
    msg.type = .data ∧ msg.key = key ∧ msg.origin = destination
  | .broadcast _ _ => True

/-- An answer to a Query-BF records its own key and origin. -/
theorem recording_answerKeys {env : Env} {msg : Message} {filter : BloomFilter}
    {sender : SockaddrIn} (keys : List Bytes) (i : ℕ) (n : Node) :
    ∀ send ∈ (Node.answerKeys env msg filter sender keys i n).2, Recording send := by
  induction keys generalizing i n with
  | nil => exact fun send hsend => absurd hsend List.not_mem_nil
  | cons key keys ih =>
    unfold Node.answerKeys
    split_ifs
    · cases n.redisGet env key with
      | none => exact ih i n
      | some value =>
        refine List.forall_mem_cons.mpr ⟨?_, ih (i + 1) _⟩
        rintro key destination ⟨⟩
        exact ⟨rfl, rfl, rfl⟩
    · exact ih i n

/-- So it is with whatever `handle_query_bloom` sends. -/
theorem recording_handleQueryBloom (n : Node) (env : Env) (msg : Message) (sender : SockaddrIn) :
    ∀ send ∈ (n.handleQueryBloom env msg sender).2, Recording send := by
  unfold Node.handleQueryBloom
  cases n.queryBloomFilter env msg with
  | none => exact fun send hsend => absurd hsend List.not_mem_nil
  | some filter =>
    have hanswers : ∀ send ∈ (Node.answerKeys env msg filter sender
        (env.order.order n.local_keys.keys) 0 n).2, Recording send := recording_answerKeys _ 0 n
    dsimp only
    split_ifs with hlast hallowed
    · exact hanswers
    · intro send hsend
      rcases List.mem_append.mp hsend with hsend | hsend
      · exact hanswers send hsend
      · obtain rfl := List.mem_singleton.mp hsend
        trivial
    · exact hanswers

/-- So it is with whatever `handle_request` sends. -/
theorem recording_handleRequest (n : Node) (env : Env) (msg : Message) (sender : SockaddrIn) :
    ∀ send ∈ (n.handleRequest env msg sender).2, Recording send := by
  unfold Node.handleRequest
  dsimp only
  cases (RequestPipeline.run n.query_table (n.redisGet env) env.prune_now env.record_now
    msg).1.state with
  | serveLocal =>
    intro send hsend
    obtain rfl := List.mem_singleton.mp hsend
    rintro key destination ⟨⟩
    exact ⟨rfl, rfl, rfl⟩
  | forward =>
    intro send hsend
    obtain rfl := List.mem_singleton.mp hsend
    trivial
  | _ => exact fun send hsend => absurd hsend List.not_mem_nil

/-- So it is with whatever a handler sends. -/
theorem recording_handleWireMessage (n : Node) (env : Env) (wire : Bytes) (sender : SockaddrIn) :
    ∀ send ∈ (n.handleWireMessage env wire sender).2, Recording send := by
  cases hmsg : fromWire wire with
  | none =>
    rw [Node.handleWireMessage_of_none n env sender hmsg]
    exact fun send hsend => absurd hsend List.not_mem_nil
  | some msg =>
    rw [Node.handleWireMessage, hmsg]
    cases htype : msg.type with
    | request => simpa only [htype] using recording_handleRequest n env msg sender
    | queryBloom => simpa only [htype] using recording_handleQueryBloom n env msg sender
    | _ => simp [htype]

/-! ## The result -/

variable [DecidableEq P] [DecidableEq W]

/-- In every state of a started queue, with any callers, any workers and any outcomes of the
network: the queue is not too long, and items leave it in the order in which they were accepted. An
accepted item is in one place, and a rejected one is dropped, which its caller cannot fail to do
next. No call leads to two calls of the network or to two callbacks, `on_success` runs after the
message of its call was sent, and so the sync table holds destinations of sent `DATA` only. -/
theorem forward_queue_conservation (config : ForwardQueueConfig) (outcomes : ℕ → Outcome)
    (capacity : ℕ) (actions : List (Action P W (Bytes × Bytes) φ))
    {s : State P W (Bytes × Bytes) φ}
    (hrun : Machine.run (step config outcomes) construct.start actions = some s) :
    s.queue.length ≤ config.max_depth ∧
      s.dequeued ++ s.queue.map Prod.fst = acceptedTickets s.calls ∧
      (config.enabled = true → ∀ call ∈ s.calls, call.2 = .accepted ∨ call.2 = .rejected) ∧
      (∀ t item, s.calls[t]? = some (item, .accepted) → OnePlace s t item) ∧
      (∀ t item, s.calls[t]? = some (item, .rejected) → Dropped s t item) ∧
      (∀ p t item, s.dropping p = some (t, item) →
        (∀ c, step config outcomes s (.call p c) = none) ∧
          (step config outcomes s (.drop p)).isSome) ∧
      (s.sent.map Prod.fst).Nodup ∧ (s.ran.map Prod.fst).Nodup ∧
      (∀ t f, (t, .success f) ∈ s.ran → ∃ item fate, s.calls[t]? = some (item, fate) ∧
        item.kind = .direct ∧ item.on_success = some f ∧
        logOf s.sent t = [(.sendDirect item.addr item.msg, .ok ())]) ∧
      (∀ key destination, destination ∈ (s.syncTable capacity).destinations key →
        ∃ t item fate, s.calls[t]? = some (item, fate) ∧
          item.on_success = some (key, destination) ∧
          logOf s.sent t = [(.sendDirect item.addr item.msg, .ok ())]) ∧
      ∀ (n : Node) env wire sender, ∀ send ∈ (n.handleWireMessage env wire sender).2,
        ∀ (on_failure : Option φ) key destination,
          (Call.ofSend on_failure send).item.on_success = some (key, destination) →
            send.msg.type = .data ∧ send.msg.key = key ∧ send.msg.origin = destination := by
  have hstep : ∀ (s₁ : State P W (Bytes × Bytes) φ) (a : Action P W (Bytes × Bytes) φ)
      (s₂ : State P W (Bytes × Bytes) φ),
      Conserved config.max_depth s₁ ∧ Queueing config s₁ →
      step config outcomes s₁ a = some s₂ → Conserved config.max_depth s₂ ∧ Queueing config s₂ :=
    fun _ _ _ h hstep => ⟨h.1.step hstep, h.2.step hstep⟩
  have hstart : Queueing config (construct : State P W (Bytes × Bytes) φ).start :=
    ⟨rfl, fun _ call hcall => absurd hcall List.not_mem_nil⟩
  obtain ⟨hconserved, hqueueing⟩ :=
    Machine.run_invariant hstep ⟨conserved_start config.max_depth, hstart⟩ hrun
  have hsuccess : ∀ t f, (t, .success f) ∈ s.ran → ∃ item fate, s.calls[t]? = some (item, fate) ∧
      item.kind = .direct ∧ item.on_success = some f ∧
      logOf s.sent t = [(.sendDirect item.addr item.msg, .ok ())] := by
    intro t f hran
    have hlog : .success f ∈ logOf s.ran t := mem_logOf _ |>.mpr hran
    obtain ⟨item, fate, hget, hlegal⟩ := hconserved.exists_call (t := t) (by
      intro hnone
      rw [show logOf s.ran t = [] from congrArg Life.ran hnone] at hlog
      exact absurd hlog List.not_mem_nil)
    exact ⟨item, fate, hget, hlegal.ranOnce.success f hlog⟩
  refine ⟨hconserved.depth, hconserved.order, ?_, ?_, ?_, ?_, ?_, ?_, hsuccess, ?_, ?_⟩
  · intro henabled call hcall
    have hnot := hqueueing.not_inline henabled call hcall
    cases hfate : call.2 with
    | inline => exact absurd hfate hnot
    | accepted => exact Or.inl rfl
    | rejected => exact Or.inr rfl
  · exact fun t item hget => (hconserved.issued t item _ hget).onePlace
  · exact fun t item hget => (hconserved.issued t item _ hget).isDropped
  · intro p t item hdropping
    exact ⟨fun c => by simp [step, hdropping], by simp [step, hdropping]⟩
  · exact nodup_of_logOf _ fun t => hconserved.length_le (fun h => h.length_sent_le)
      (congrArg Life.sent)
  · exact nodup_of_logOf _ fun t => hconserved.length_le (fun h => h.ranOnce.once)
      (congrArg Life.ran)
  · intro key destination hmem
    rcases mem_destinations_foldl hmem with hmem | ⟨t, hran⟩
    · exact absurd hmem List.not_mem_nil
    · obtain ⟨item, fate, hget, -, hsuccess, hsent⟩ := hsuccess t _ hran
      exact ⟨t, item, fate, hget, hsuccess, hsent⟩
  · intro n env wire sender send hsend on_failure key destination hrecords
    have hrecording := recording_handleWireMessage n env wire sender send hsend
    cases send with
    | direct addr msg on_success => exact hrecording key destination hrecords
    | broadcast msg exclude =>
      cases exclude with
      | none => exact absurd hrecords (by simp [Call.ofSend, Call.item])
      | some addr => exact absurd hrecords (by simp [Call.ofSend, Call.item])

/-- Two callers, two workers and a queue for one item: the first item is sent, the second is
dropped. -/
theorem forward_queue_conservation_two :
    let msg : Message := ⟨.data, ascii "id", ascii "node2", 3, ascii "k", ascii "v"⟩
    let call : Call (Bytes × Bytes) ℕ := .direct {} msg (some (ascii "k", ascii "node2")) (some 1)
    let actions : List (Action Bool (Fin 2) (Bytes × Bytes) ℕ) :=
      [.call false call, .call true call, .dequeue 1, .drop true, .send 1, .finish 1]
    ∃ s : State Bool (Fin 2) (Bytes × Bytes) ℕ,
      Machine.run (step { max_depth := 1 } fun _ => .ok ()) construct.start actions = some s ∧
      OnePlace s 0 call.item ∧ Dropped s 1 call.item ∧ (s.ran.map Prod.fst).Nodup ∧
      s.ran.map Prod.fst = [1, 0] := by
  intro msg call actions
  obtain ⟨-, -, -, haccepted, hrejected, -, -, hran, -⟩ :=
    forward_queue_conservation { max_depth := 1 } (fun _ => .ok ()) 8 actions rfl
  exact ⟨_, rfl, haccepted 0 _ rfl, hrejected 1 _ rfl, hran, rfl⟩

end Netos.ForwardQueue
