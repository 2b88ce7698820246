import Mathlib.Data.List.ReduceOption
import Netos.Node.ForwardQueue

/-!
# Queued messages are sent like unqueued ones

With one worker, and as long as no message is dropped, the queue only delays: `sentOf` and `ranOf`
are what is handed to the network and which callbacks run when items are sent one after the other,
and `Tracks` says that the worker has done this for the first items, and that the others are in its
hand or in the queue. `async_refines_inline` compares the drained queue with one that is disabled.
-/

namespace Netos.ForwardQueue

open CString

variable {P W σ φ : Type}

/-! ## Sending one item after the other -/

/-- The calls of the network, with their outcomes. -/
def sentOf (outcomes : ℕ → Outcome) (items : List (Item σ φ)) : List (NetworkCall × Outcome) :=
  items.mapIdx fun i item => (item.network, outcomes i)

/-- The callbacks. -/
def ranOf (outcomes : ℕ → Outcome) (items : List (Item σ φ)) : List (Callback σ φ) :=
  (items.mapIdx fun i item => item.callback (outcomes i)).reduceOption

/-- One item more. -/
theorem sentOf_append_singleton (outcomes : ℕ → Outcome) (items : List (Item σ φ))
    (item : Item σ φ) : sentOf outcomes (items ++ [item]) =
      sentOf outcomes items ++ [(item.network, outcomes items.length)] := by
  rw [sentOf, List.mapIdx_concat, sentOf]

/-- One item more. -/
theorem ranOf_append_singleton (outcomes : ℕ → Outcome) (items : List (Item σ φ))
    (item : Item σ φ) : ranOf outcomes (items ++ [item]) =
      ranOf outcomes items ++ (item.callback (outcomes items.length)).toList := by
  rw [ranOf, List.mapIdx_concat, List.reduceOption_append, List.reduceOption_singleton, ranOf]

/-- As many calls of the network as items. -/
theorem length_sentOf (outcomes : ℕ → Outcome) (items : List (Item σ φ)) :
    (sentOf outcomes items).length = items.length := by
  rw [sentOf, List.length_mapIdx]

/-- What a log says, without the tickets, when a callback that runs is logged. -/
theorem map_snd_toList {α : Type} (ticket : ℕ) (run : Option α) :
    (run.map fun r => (ticket, r)).toList.map Prod.snd = run.toList := by
  cases run with
  | none => rfl
  | some r => rfl

/-! ## The calls of a run -/

/-- The item of an action that is a call. -/
def Action.item : Action P W σ φ → Option (Item σ φ)
  | .call _ c => some c.item
  | .drop _ => none
  | .dequeue _ => none
  | .send _ => none
  | .finish _ => none

variable [DecidableEq P] [DecidableEq W] {config : ForwardQueueConfig} {outcomes : ℕ → Outcome}

/-- The items of all calls. -/
def State.items (s : State P W σ φ) : List (Item σ φ) := s.calls.map Prod.fst

/-- The calls of the network, with their outcomes. -/
def State.network (s : State P W σ φ) : List (NetworkCall × Outcome) := s.sent.map Prod.snd

omit [DecidableEq P] [DecidableEq W] in
/-- As many calls of the network as items were sent one after the other. -/
theorem length_of_network {s : State P W σ φ} {items : List (Item σ φ)}
    (h : s.network = sentOf outcomes items) : s.sent.length = items.length := by
  have hlength := congrArg List.length h
  rwa [length_sentOf, State.network, List.length_map] at hlength

/-- The callbacks that ran. -/
def State.callbacks (s : State P W σ φ) : List (Callback σ φ) := s.ran.map Prod.snd

/-- Every call is logged. -/
theorem items_step {s s' : State P W σ φ} {a : Action P W σ φ}
    (hstep : step config outcomes s a = some s') : s'.items = s.items ++ a.item.toList := by
  unfold State.items
  cases stepped_of_step hstep with
  | inline p c hfree hinline => simp [Action.item]
  | rejected p c hfree henabled hstarted hfull => simp [Action.item]
  | accepted p c hfree henabled hstarted hroom => simp [Action.item]
  | drop p ticket item hdropping => simp [Action.item]
  | dequeue w ticket item queue hwaiting hqueue => simp [Action.item]
  | send w ticket item hholding => simp [Action.item]
  | finish w ticket item outcome hfinishing => simp [Action.item]

/-- The calls of a run, in their order. -/
theorem items_run {s s' : State P W σ φ} {actions : List (Action P W σ φ)}
    (hrun : Machine.run (step config outcomes) s actions = some s') :
    s'.items = s.items ++ actions.filterMap Action.item := by
  induction actions generalizing s with
  | nil =>
    obtain rfl := Option.some.inj hrun
    exact (List.append_nil _).symm
  | cons a actions ih =>
    rw [Machine.run_cons] at hrun
    obtain ⟨s₁, hstep, hrest⟩ := Option.bind_eq_some_iff.mp hrun
    have hhead : (a :: actions).filterMap Action.item =
        a.item.toList ++ actions.filterMap Action.item := by
      rw [List.filterMap_cons]
      cases a.item with
      | none => rfl
      | some item => rfl
    rw [ih hrest, items_step hstep, hhead, List.append_assoc]

/-! ## The disabled queue -/

/-- Every item so far was sent, one after the other. -/
structure Sent (outcomes : ℕ → Outcome) (s : State P W σ φ) : Prop where
  /-- No caller holds an item. -/
  free : ∀ p, s.dropping p = none
  /-- The calls of the network. -/
  network : s.network = sentOf outcomes s.items
  /-- The callbacks. -/
  callbacks : s.callbacks = ranOf outcomes s.items

/-- A disabled queue sends every message at once. -/
theorem Sent.call (hdisabled : config.enabled = false) {s : State P W σ φ} (h : Sent outcomes s)
    (p : P) (c : Call σ φ) :
    ∃ s', step config outcomes s (.call p c) = some s' ∧ Sent outcomes s' := by
  have hlength : s.sent.length = s.items.length := length_of_network h.network
  have hstep : step config outcomes s (.call p c) = some { s with
      calls := s.calls ++ [(c.item, .inline)]
      sent := s.sent ++ [(s.calls.length, c.inlineNetwork, outcomes s.sent.length)]
      ran := s.ran ++ ((c.inlineCallback (outcomes s.sent.length)).map fun run =>
        (s.calls.length, run)).toList } := by
    unfold step
    simp only [h.free p, hdisabled, Bool.false_eq_true, not_false_eq_true, true_or, if_true]
  have hitems : ∀ (queued : State P W σ φ), queued.calls = s.calls ++ [(c.item, .inline)] →
      queued.items = s.items ++ [c.item] := by
    intro queued hcalls
    rw [State.items, hcalls, List.map_append]
    rfl
  refine ⟨_, hstep, h.free, ?_, ?_⟩
  · rw [hitems _ rfl, sentOf_append_singleton, ← h.network, ← hlength, network_item,
      State.network, List.map_append]
    rfl
  · rw [hitems _ rfl, ranOf_append_singleton, ← h.callbacks, ← hlength, callback_item,
      State.callbacks, List.map_append, map_snd_toList]
    rfl

/-- An action is a call. -/
def Action.isCall (a : Action P W σ φ) : Bool := a.item.isSome

omit [DecidableEq P] [DecidableEq W] in
/-- Leaving out the other actions leaves the calls. -/
theorem filterMap_filter_isCall (actions : List (Action P W σ φ)) :
    (actions.filter Action.isCall).filterMap Action.item = actions.filterMap Action.item := by
  rw [List.filterMap_filter]
  refine List.filterMap_congr fun a _ => ?_
  unfold Action.isCall
  cases a.item with
  | none => rfl
  | some item => rfl

/-- A disabled queue sends every message of a run at once. -/
theorem Sent.run (hdisabled : config.enabled = false) {s : State P W σ φ} (h : Sent outcomes s)
    (actions : List (Action P W σ φ)) :
    ∃ s', Machine.run (step config outcomes) s (actions.filter Action.isCall) = some s' ∧
      Sent outcomes s' := by
  induction actions generalizing s with
  | nil => exact ⟨s, rfl, h⟩
  | cons a actions ih =>
    cases a with
    | call p c =>
      obtain ⟨s₁, hstep, hsent⟩ := h.call hdisabled p c
      obtain ⟨s', hrun, hsent'⟩ := ih hsent
      rw [List.filter_cons_of_pos rfl, Machine.run_cons, hstep]
      exact ⟨s', hrun, hsent'⟩
    | drop p => exact ih h
    | dequeue w => exact ih h
    | send w => exact ih h
    | finish w => exact ih h

/-! ## The queue with one worker -/

/-- The item in the hand of a worker. -/
def Worker.inHand : Worker σ φ → List (Item σ φ)
  | .waiting => []
  | .holding _ item => [item]
  | .finishing _ _ _ => []

/-- The callback that a worker has still to run. -/
def Worker.unfinished : Worker σ φ → List (Callback σ φ)
  | .waiting => []
  | .holding _ _ => []
  | .finishing _ item outcome => (item.callback outcome).toList

/-- The worker has sent the first items, one after the other; the others are in its hand and in the
queue. -/
structure Tracks (outcomes : ℕ → Outcome) (s : State P Unit σ φ) (done : List (Item σ φ)) :
    Prop where
  /-- The queue was started. -/
  started : s.started = true
  /-- No caller holds an item. -/
  free : ∀ p, s.dropping p = none
  /-- Every item is where it should be. -/
  items : s.items = done ++ (s.workers ()).inHand ++ s.queue.map Prod.snd
  /-- The calls of the network. -/
  network : s.network = sentOf outcomes done
  /-- The callbacks. -/
  callbacks : s.callbacks ++ (s.workers ()).unfinished = ranOf outcomes done

omit [DecidableEq P] in
/-- The worker is somewhere in its loop. -/
theorem Tracks.of_worker {s : State P Unit σ φ} {done : List (Item σ φ)} {worker : Worker σ φ}
    (hstarted : s.started = true) (hfree : ∀ p, s.dropping p = none)
    (hworker : s.workers () = worker)
    (hitems : s.items = done ++ worker.inHand ++ s.queue.map Prod.snd)
    (hnetwork : s.network = sentOf outcomes done)
    (hcallbacks : s.callbacks ++ worker.unfinished = ranOf outcomes done) :
    Tracks outcomes s done := by
  subst hworker
  exact ⟨hstarted, hfree, hitems, hnetwork, hcallbacks⟩

/-- A step with room in the queue keeps track. -/
theorem Tracks.step (henabled : config.enabled = true) {s s' : State P Unit σ φ}
    {done : List (Item σ φ)} {a : Action P Unit σ φ} (h : Tracks outcomes s done)
    (hroom : s.queue.length < config.max_depth) (hstep : step config outcomes s a = some s') :
    ∃ done', Tracks outcomes s' done' := by
  have hitems := h.items
  have hcallbacks := h.callbacks
  cases stepped_of_step hstep with
  | inline p c hfree hinline => simp [henabled, h.started] at hinline
  | rejected p c hfree _ hstarted hfull => omega
  | accepted p c hfree _ hstarted hroom =>
    refine ⟨done, h.started, h.free, ?_, h.network, hcallbacks⟩
    unfold State.items at hitems ⊢
    rw [List.map_append, hitems, List.map_append, List.append_assoc]
    rfl
  | drop p ticket item hdropping => simp [h.free] at hdropping
  | dequeue w ticket item queue hwaiting hqueue =>
    rw [hwaiting, hqueue] at hitems
    rw [hwaiting] at hcallbacks
    have hworker : Function.update s.workers w (.holding ticket item) () = .holding ticket item :=
      Function.update_self w _ _
    refine ⟨done, .of_worker h.started h.free hworker ?_ h.network hcallbacks⟩
    exact hitems.trans (by simp [Worker.inHand])
  | send w ticket item hholding =>
    have hlength : s.sent.length = done.length := length_of_network h.network
    rw [hholding] at hitems hcallbacks
    have hworker : Function.update s.workers w (.finishing ticket item (outcomes s.sent.length))
        () = .finishing ticket item (outcomes s.sent.length) := Function.update_self w _ _
    refine ⟨done ++ [item], .of_worker h.started h.free hworker ?_ ?_ ?_⟩
    · exact hitems.trans (by simp [Worker.inHand])
    · rw [sentOf_append_singleton, ← h.network, ← hlength, State.network, List.map_append]
      rfl
    · rw [ranOf_append_singleton, ← hcallbacks, ← hlength]
      simp [Worker.unfinished, State.callbacks]
  | finish w ticket item outcome hfinishing =>
    rw [hfinishing] at hitems hcallbacks
    have hworker : Function.update s.workers w .waiting () = .waiting :=
      Function.update_self w _ _
    refine ⟨done, .of_worker h.started h.free hworker hitems h.network ?_⟩
    rw [← hcallbacks, State.callbacks, List.map_append, map_snd_toList]
    simp [Worker.unfinished, State.callbacks]

/-- Async forwarding refines synchronous forwarding. For one worker, any sequence of calls after
`start` by any callers, any schedule in which the queue never reaches `max_depth`, and any outcomes
of the network: once the queue is drained, the calls of the network and the callbacks that ran are,
in their order, those of a disabled queue with the same calls, and these are the calls and callbacks
that send the items one after the other. -/
theorem async_refines_inline (config : ForwardQueueConfig) (henabled : config.enabled = true)
    (outcomes : ℕ → Outcome) (actions : List (Action P Unit σ φ)) (s : State P Unit σ φ)
    (hrun : Machine.run (step config outcomes) construct.start actions = some s)
    (hbelow : Machine.Always (step config outcomes) (fun s => s.queue.length < config.max_depth)
      construct.start actions)
    (hdrained : s.queue = []) (hwaiting : s.workers () = .waiting) :
    ∃ s' : State P Unit σ φ,
      Machine.run (step { config with enabled := false } outcomes) construct.start
        (actions.filter Action.isCall) = some s' ∧
      s.network = s'.network ∧ s.callbacks = s'.callbacks ∧
      s'.network = sentOf outcomes (actions.filterMap Action.item) ∧
      s'.callbacks = ranOf outcomes (actions.filterMap Action.item) := by
  have hinit : ∃ done, Tracks outcomes (construct.start : State P Unit σ φ) done :=
    ⟨[], rfl, fun _ => rfl, rfl, rfl, rfl⟩
  have hstep : ∀ (s₁ : State P Unit σ φ) (a : Action P Unit σ φ) (s₂ : State P Unit σ φ),
      (∃ done, Tracks outcomes s₁ done) → s₁.queue.length < config.max_depth →
      step config outcomes s₁ a = some s₂ → ∃ done, Tracks outcomes s₂ done :=
    fun s₁ a s₂ ⟨_, h⟩ hroom hstep => h.step henabled hroom hstep
  obtain ⟨done, htracks⟩ := Machine.Guarded.invariant hstep hinit hbelow.guarded hrun
  have hempty : Sent outcomes (construct.start : State P Unit σ φ) := ⟨fun _ => rfl, rfl, rfl⟩
  have hdisabled : ({ config with enabled := false } : ForwardQueueConfig).enabled = false := rfl
  obtain ⟨s', hrun', hsent⟩ := hempty.run hdisabled actions
  -- Both have the same items, and the worker is done with all of them.
  have hitems : s'.items = s.items := by
    rw [items_run hrun, items_run hrun', filterMap_filter_isCall]
  have hdone : done = s.items := by
    have h := htracks.items
    rw [hdrained, hwaiting] at h
    simpa [Worker.inHand] using h.symm
  have hcallbacks := htracks.callbacks
  rw [hwaiting, Worker.unfinished, List.append_nil] at hcallbacks
  have hcalls : s'.items = actions.filterMap Action.item :=
    hitems.trans ((items_run hrun).trans (List.nil_append _))
  refine ⟨s', hrun', ?_, ?_, ?_, ?_⟩
  · rw [htracks.network, hsent.network, hitems, hdone]
  · rw [hcallbacks, hsent.callbacks, hitems, hdone]
  · rw [hsent.network, hcalls]
  · rw [hsent.callbacks, hcalls]

/-- A direct message and a broadcast, of which the first cannot be sent: both go to the network in
their order, and the failure callback of the first runs. -/
theorem async_refines_inline_two :
    let msg : Message := ⟨.data, ascii "id", ascii "node2", 3, ascii "k", ascii "v"⟩
    let outcomes : ℕ → Outcome := fun i => if i = 0 then .error (ascii "unreachable") else .ok ()
    let actions : List (Action Bool Unit ℕ ℕ) :=
      [.call false (.direct {} msg (some 1) (some 2)), .dequeue (),
        .call true (.broadcast msg none), .send (), .finish (), .dequeue (), .send (), .finish ()]
    ∃ s s' : State Bool Unit ℕ ℕ,
      Machine.run (step {} outcomes) construct.start actions = some s ∧
      Machine.run (step { enabled := false } outcomes) construct.start
        (actions.filter Action.isCall) = some s' ∧
      s.network = s'.network ∧ s.callbacks = s'.callbacks ∧
      s'.network = [(.sendDirect {} msg, .error (ascii "unreachable")),
        (.sendBroadcast msg none, .ok ())] ∧
      s'.callbacks = [.failure 2 (ascii "unreachable")] := by
  intro msg outcomes actions
  obtain ⟨s', hrun', hnetwork, hcallbacks, hsent, hran⟩ := async_refines_inline {} rfl outcomes
    actions _ rfl (by decide +kernel) rfl rfl
  exact ⟨_, s', rfl, hrun', hnetwork, hcallbacks, hsent, hran⟩

end Netos.ForwardQueue
