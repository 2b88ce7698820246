import Mathlib.Algebra.BigOperators.Group.Finset.Piecewise
import Mathlib.Algebra.Order.BigOperators.Group.Finset
import Mathlib.Data.Fintype.BigOperators
import Netos.Node.ForwardConservation
import Netos.Node.ForwardRefinement

/-!
# The forward queue drains

An accepted item has three steps before it: a worker takes it, makes the call of the network and
runs the callback. `State.workLeft` counts these steps over all items, and the callbacks that
callers of dropped items have still to run. Every step of a worker, and every such callback, takes
one off the count, and as long as the count is not zero one of these steps can be taken. So however
the workers are scheduled, a queue that gets no more calls is empty after exactly that many steps,
and then every call is settled: what was accepted has been sent and its callback has run, and what
was rejected has had its `on_failure` run (`queue_drains`).
-/

namespace Netos.ForwardQueue

open CString

variable {P W σ φ : Type}

/-- The steps that a worker has left for its item. -/
def Worker.stepsLeft : Worker σ φ → ℕ
  | .waiting => 0
  | .holding _ _ => 2
  | .finishing _ _ _ => 1

/-- The steps that a caller has left for the item that it holds. -/
def dropLeft : Option (ℕ × Item σ φ) → ℕ
  | none => 0
  | some _ => 1

/-- The steps that are left without further calls. -/
def State.workLeft [Fintype P] [Fintype W] (s : State P W σ φ) : ℕ :=
  3 * s.queue.length + ∑ w, (s.workers w).stepsLeft + ∑ p, dropLeft (s.dropping p)

/-- A call has come to its end: what was to be sent was sent once and its callback ran once, and
what was rejected was not sent and its `on_failure` ran once. -/
def Settled (s : State P W σ φ) (t : ℕ) (item : Item σ φ) : Fate → Prop
  | .rejected => logOf s.sent t = [] ∧ logOf s.ran t = item.dropCallback.toList
  | _ => ∃ outcome, logOf s.sent t = [(item.network, outcome)] ∧
      logOf s.ran t = (item.callback outcome).toList

section Sums

variable {α β : Type} [Fintype α] [DecidableEq α]

/-- A sum in which one term changes. -/
theorem sum_update_add {M : Type*} [AddCommMonoid M] {count : β → M} {f : α → β} {a : α} {m n : M}
    (hold : count (f a) = m) {b : β} (hnew : count b = n) :
    ∑ x, count (Function.update f a b x) + m = ∑ x, count (f x) + n := by
  have hrest : ∑ x ∈ Finset.univ.erase a, count (Function.update f a b x) =
      ∑ x ∈ Finset.univ.erase a, count (f x) :=
    Finset.sum_congr rfl fun x hx => by rw [Function.update_of_ne (Finset.ne_of_mem_erase hx)]
  rw [← Finset.add_sum_erase Finset.univ _ (Finset.mem_univ a), hrest, Function.update_self, hnew,
    ← Finset.add_sum_erase Finset.univ (fun x => count (f x)) (Finset.mem_univ a), hold,
    add_right_comm, add_comm n m, add_right_comm]

end Sums

section Drain

variable [DecidableEq P] [DecidableEq W] [Fintype P] [Fintype W] {config : ForwardQueueConfig}
  {outcomes : ℕ → Outcome} {s s' : State P W σ φ} {a : Action P W σ φ}

/-- Every step that is not a call takes one off the count. -/
theorem workLeft_step (hcall : a.isCall = false)
    (hstep : step config outcomes s a = some s') : s'.workLeft + 1 = s.workLeft := by
  unfold State.workLeft
  cases stepped_of_step hstep with
  | inline p c => exact absurd hcall (by simp [Action.isCall, Action.item])
  | rejected p c => exact absurd hcall (by simp [Action.isCall, Action.item])
  | accepted p c => exact absurd hcall (by simp [Action.isCall, Action.item])
  | drop p ticket item hdropping =>
    have hsum : ∑ x, dropLeft (Function.update s.dropping p none x) + 1 =
        ∑ x, dropLeft (s.dropping x) + 0 :=
      sum_update_add (by rw [hdropping]; rfl) rfl
    dsimp only
    omega
  | dequeue w ticket item queue hwaiting hqueue =>
    have hsum : ∑ x, (Function.update s.workers w (.holding ticket item) x).stepsLeft + 0 =
        ∑ x, (s.workers x).stepsLeft + 2 :=
      sum_update_add (by rw [hwaiting]; rfl) rfl
    have hlength : s.queue.length = queue.length + 1 := by rw [hqueue, List.length_cons]
    dsimp only
    omega
  | send w ticket item hholding =>
    have hsum : ∑ x, (Function.update s.workers w
        (.finishing ticket item (outcomes s.sent.length)) x).stepsLeft + 2 =
          ∑ x, (s.workers x).stepsLeft + 1 :=
      sum_update_add (by rw [hholding]; rfl) rfl
    dsimp only
    omega
  | finish w ticket item outcome hfinishing =>
    have hsum : ∑ x, (Function.update s.workers w .waiting x).stepsLeft + 1 =
        ∑ x, (s.workers x).stepsLeft + 0 :=
      sum_update_add (by rw [hfinishing]; rfl) rfl
    dsimp only
    omega

omit [Fintype P] [Fintype W] in
/-- Nobody has anything left to do when nothing but a call can happen. -/
theorem idle_of_stuck [Nonempty W]
    (hstuck : ∀ a : Action P W σ φ, a.isCall = false → step config outcomes s a = none) :
    s.queue = [] ∧ (∀ w, s.workers w = .waiting) ∧ ∀ p, s.dropping p = none := by
  have hworkers : ∀ w, s.workers w = .waiting := by
    intro w
    cases hworker : s.workers w with
    | waiting => rfl
    | holding ticket item =>
      have hnone := hstuck (.send w) rfl
      simp [step, hworker] at hnone
    | finishing ticket item outcome =>
      have hnone := hstuck (.finish w) rfl
      simp [step, hworker] at hnone
  refine ⟨?_, hworkers, fun p => ?_⟩
  · obtain ⟨w⟩ := ‹Nonempty W›
    cases hqueue : s.queue with
    | nil => rfl
    | cons entry queue =>
      have hnone := hstuck (.dequeue w) rfl
      simp [step, hworkers w, hqueue] at hnone
  · cases hdropping : s.dropping p with
    | none => rfl
    | some held =>
      have hnone := hstuck (.drop p) rfl
      simp [step, hdropping] at hnone

omit [DecidableEq P] [DecidableEq W] [Fintype P] [Fintype W] in
/-- Where nobody has anything left to do, a call with a legal life is settled. -/
theorem Legal.settled {t : ℕ} {item : Item σ φ} {fate : Fate} (h : Legal item fate (s.life t))
    (hqueue : s.queue = []) (hworkers : ∀ w, s.workers w = .waiting)
    (hdropping : ∀ p, s.dropping p = none) : Settled s t item fate := by
  generalize hlife : s.life t = l at h
  have hqueued : logOf s.queue t = l.queued := congrArg Life.queued hlife
  have hholding : occupants (Holds t) s.workers = l.holding := congrArg Life.holding hlife
  have hfinishing : occupants (Finishes t) s.workers = l.finishing :=
    congrArg Life.finishing hlife
  have hkept : occupants (Keeps t) s.dropping = l.dropping := congrArg Life.dropping hlife
  have hsent := congrArg Life.sent hlife
  have hran := congrArg Life.ran hlife
  cases h with
  | inline outcome => exact ⟨outcome, hsent, hran⟩
  | queued =>
    rw [hqueue] at hqueued
    exact absurd hqueued.symm (List.cons_ne_nil _ _)
  | holding w =>
    rw [occupants_eq_empty (Holds t) fun w i h => by simp [Holds, hworkers w] at h] at hholding
    exact absurd hholding.symm (Set.singleton_ne_empty _)
  | finishing w outcome =>
    rw [occupants_eq_empty (Finishes t) fun w x h => by simp [Finishes, hworkers w] at h]
      at hfinishing
    exact absurd hfinishing.symm (Set.singleton_ne_empty _)
  | done outcome => exact ⟨outcome, hsent, hran⟩
  | dropping p =>
    rw [occupants_eq_empty (Keeps t) fun p i h => by simp [Keeps, hdropping p] at h] at hkept
    exact absurd hkept.symm (Set.singleton_ne_empty _)
  | dropped => exact ⟨hsent, hran⟩

/-- The queue drains. For any settings, outcomes of the network, callers and workers, of which there
is at least one, from every state that a run of a started queue has come to, in whatever order the
workers and the callers of dropped items go on: a run without further calls has as many steps as it
takes off the work left; and where such a run cannot go on, no work is left, the queue is empty, and
every call is settled: what was accepted was sent once and its callback ran once, and what was
rejected was not sent and its `on_failure` ran once. -/
theorem queue_drains [Nonempty W] (config : ForwardQueueConfig) (outcomes : ℕ → Outcome)
    (actions : List (Action P W σ φ)) (s : State P W σ φ)
    (hrun : Machine.run (step config outcomes) construct.start actions = some s)
    (rest : List (Action P W σ φ)) (hrest : ∀ a ∈ rest, a.isCall = false) (s' : State P W σ φ)
    (hdrain : Machine.run (step config outcomes) s rest = some s') :
    rest.length + s'.workLeft = s.workLeft ∧
      ((∀ a : Action P W σ φ, a.isCall = false → step config outcomes s' a = none) →
        s'.workLeft = 0 ∧ s'.queue = [] ∧
          ∀ t item fate, s'.calls[t]? = some (item, fate) → Settled s' t item fate) := by
  have hconserved : Conserved config.max_depth s' :=
    Machine.run_invariant (fun _ _ _ h hstep => h.step hstep)
      (Machine.run_invariant (fun _ _ _ h hstep => Conserved.step h hstep)
        (conserved_start config.max_depth) hrun) hdrain
  refine ⟨Machine.length_add_measure State.workLeft (fun _ _ _ => workLeft_step) hrest hdrain,
    fun hstuck => ?_⟩
  obtain ⟨hqueue, hworkers, hdropping⟩ := idle_of_stuck hstuck
  refine ⟨?_, hqueue, fun t item fate hcall =>
    (hconserved.issued t item fate hcall).settled hqueue hworkers hdropping⟩
  simp [State.workLeft, hqueue, hworkers, hdropping, Worker.stepsLeft, dropLeft]

/-- Two callers, two workers and a queue for one item: four steps after both calls, the first is
sent and the second is dropped, and nothing is left to do. -/
theorem queue_drains_two :
    let msg : Message := ⟨.data, ascii "id", ascii "node2", 3, ascii "k", ascii "v"⟩
    let call : Call (Bytes × Bytes) ℕ := .direct {} msg (some (ascii "k", ascii "node2")) (some 1)
    ∃ s s' : State Bool Bool (Bytes × Bytes) ℕ,
      Machine.run (step { max_depth := 1 } fun _ => .ok ()) construct.start
        [.call false call, .call true call] = some s ∧
      Machine.run (step { max_depth := 1 } fun _ => .ok ()) s
        [.dequeue true, .drop true, .send true, .finish true] = some s' ∧
      s.workLeft = 4 ∧ Settled s' 0 call.item .accepted ∧ Settled s' 1 call.item .rejected := by
  intro msg call
  have hfacts : (Machine.run (step { max_depth := 1 } fun _ => .ok ()) construct.start
      ([.call false call, .call true call] ++
        [.dequeue true, .drop true, .send true, .finish true])).map
      (fun s : State Bool Bool (Bytes × Bytes) ℕ => (s.workLeft, s.calls)) =
        some (0, [(call.item, .accepted), (call.item, .rejected)]) := rfl
  obtain ⟨s', hboth, hvalues⟩ := Option.map_eq_some_iff.mp hfacts
  obtain ⟨hnone, hcalls⟩ := Prod.mk.inj hvalues
  rw [Machine.run_append] at hboth
  obtain ⟨s, hrun, hdrain⟩ := Option.bind_eq_some_iff.mp hboth
  obtain ⟨hlength, hend⟩ := queue_drains { max_depth := 1 } (fun _ => .ok ())
    [.call false call, .call true call] s hrun
    [.dequeue true, .drop true, .send true, .finish true] (by decide) s' hdrain
  -- With no work left, no step but a call is possible.
  have hstuck : ∀ a : Action Bool Bool (Bytes × Bytes) ℕ, a.isCall = false →
      step { max_depth := 1 } (fun _ => .ok ()) s' a = none := fun a ha => by
    by_contra hsome
    obtain ⟨s'', hstep⟩ := Option.ne_none_iff_exists'.mp hsome
    have hone := workLeft_step ha hstep
    omega
  obtain ⟨-, -, hsettled⟩ := hend hstuck
  refine ⟨s, s', hrun, hdrain, ?_, hsettled 0 _ _ (by rw [hcalls]; rfl),
    hsettled 1 _ _ (by rw [hcalls]; rfl)⟩
  rw [← hlength, hnone]
  rfl

end Drain

end Netos.ForwardQueue
