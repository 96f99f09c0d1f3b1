import BengalMarket.Library.Simulation
import BengalMarket.Pipeline.Comparison

universe u

namespace BengalMarket.System

variable {capacity : Nat} {F : BoundedFifo.{0, u} Trade capacity} {trades : List Trade}
  {s t : System F.Carrier} {a : Step}

section Joining

def remainingOf : Worker → Nat
  | .observing _ => 3
  | .popping => 2
  | .loading => 1
  | .left => 0

def joinsLeft : Producer → Nat
  | .joining => 1
  | _ => 0

def remaining (s : System F.Carrier) : Nat :=
  2 * (s.items F).length + remainingOf s.worker + joinsLeft s.producer

structure Closed (trades : List Trade) (s : System F.Carrier) : Prop where
  history : History trades s
  closed : s.producer.closed = true

theorem remaining_le (s : System F.Carrier) : s.remaining ≤ 2 * (s.items F).length + 4 := by
  have hworker : remainingOf s.worker ≤ 3 := by cases s.worker <;> simp [remainingOf]
  have hproducer : joinsLeft s.producer ≤ 1 := by cases s.producer <;> simp [joinsLeft]
  rw [remaining]
  omega

theorem Closed.lowers (h : Closed trades s) (hstep : step F s a = some t) :
    Closed trades t ∧ t.remaining < s.remaining := by
  have hdone : s.pipeline.producerDone = true := h.history.done.trans h.closed
  have hhistory := h.history.step hstep
  have hclosed := h.closed
  cases Moves.of_step hstep with
  | submit nowNs hproducer => simp [hproducer, Producer.closed] at hclosed
  | push hproducer => simp [hproducer, Producer.closed] at hclosed
  | full hproducer => simp [hproducer, Producer.closed] at hclosed
  | finish hproducer => simp [hproducer, Producer.closed] at hclosed
  | join hproducer hworker =>
    refine ⟨⟨hhistory, rfl⟩, ?_⟩
    simp [remaining, joinsLeft, hproducer, items]
  | @pop value queue hworker hpop =>
    have hitems : (s.items F).length = (F.items queue).length + 1 := by
      rw [items, F.items_of_tryPop hpop, List.length_cons]
    refine ⟨⟨hhistory, hclosed⟩, ?_⟩
    simp only [remaining, hworker, remainingOf, hitems]
    simp only [items]
    omega
  | empty hworker =>
    refine ⟨⟨hhistory, hclosed⟩, ?_⟩
    simp only [remaining, hworker, remainingOf, items]
    omega
  | observe nowNs hworker =>
    refine ⟨⟨hhistory, hclosed⟩, ?_⟩
    simp only [remaining, hworker, remainingOf, items]
    omega
  | leave hworker =>
    refine ⟨⟨hhistory, hclosed⟩, ?_⟩
    simp only [remaining, hworker, remainingOf, items]
    omega
  | retry hworker hnot => simp [hdone] at hnot

theorem worker_moves (hworker : s.worker ≠ .left) : ∃ a t, step F s a = some t := by
  cases hstands : s.worker with
  | popping =>
    cases hpop : F.tryPop s.pipeline.queue with
    | none => exact ⟨.pop, _, (Moves.empty hstands hpop).step_eq⟩
    | some popped => exact ⟨.pop, _, (Moves.pop hstands hpop).step_eq⟩
  | observing value => exact ⟨.observe 0, _, (Moves.observe 0 hstands).step_eq⟩
  | loading =>
    cases hdone : s.pipeline.producerDone with
    | true => exact ⟨.load, _, (Moves.leave hstands hdone).step_eq⟩
    | false => exact ⟨.load, _, (Moves.retry hstands hdone).step_eq⟩
  | left => exact absurd hstands hworker

theorem Closed.progress (h : Closed trades s) (hover : s.producer ≠ .joined) :
    ∃ a t, step F s a = some t := by
  by_cases hworker : s.worker = .left
  · have hproducer : s.producer = .joining := by
      have hclosed := h.closed
      cases hproducer : s.producer <;> simp_all [Producer.closed]
    exact ⟨.join, _, (Moves.join hproducer hworker).step_eq⟩
  · exact worker_moves hworker

/-- From the store on, no schedule takes more than a number of steps that depends on the queue
only, none gets stuck before the join, and so the join returns. -/
theorem finish_returns {steps : List Step} (hrun : (initial F trades).run F steps = some s)
    (hclosed : s.producer.closed = true) :
    (∀ later t, s.run F later = some t → later.length ≤ 2 * (s.items F).length + 4 ∧
      later.length ≤ 2 * capacity + 4 ∧
      (t.producer ≠ .joined → ∃ a u, step F t a = some u)) ∧
    ∃ later t, s.run F later = some t ∧ t.producer = .joined := by
  have hs : Closed trades s := ⟨.of_run hrun, hclosed⟩
  constructor
  · intro later t hlater
    have hlength := Transition.length_add_measure_le Closed.lowers hs hlater
    have hbound := remaining_le s
    have hitems : (s.items F).length ≤ capacity := F.items_length_le _
    have ht : Closed trades t :=
      Transition.run_invariant (I := Closed trades) (fun h hstep => (h.lowers hstep).1) hs hlater
    exact ⟨by omega, by omega, ht.progress⟩
  · have hprogress {r : System F.Carrier} (hr : Closed trades r) (hover : r.producer ≠ .joined) :
        ∃ a u, step F r a = some u ∧ Closed trades u ∧ u.remaining < r.remaining := by
      obtain ⟨a, u, hstep⟩ := hr.progress hover
      exact ⟨a, u, hstep, hr.lowers hstep⟩
    obtain ⟨later, t, hlater, -, hjoined⟩ := Transition.exists_run_of_progress hprogress hs
    exact ⟨later, t, hlater, hjoined⟩

def closingSteps : List Step := [.submit 0, .push, .finish]

theorem finish_returns_queued :
    ∃ s : System referenceQueue.Carrier,
      (initial _ [fixtureTrade]).run _ closingSteps = some s ∧ (s.items _).length = 1 ∧
      (∀ later t, s.run _ later = some t → later.length ≤ 2 * (s.items _).length + 4 ∧
        later.length ≤ 2 * queueCapacity + 4 ∧
        (t.producer ≠ .joined → ∃ a u, step _ t a = some u)) ∧
      ∃ later t, s.run _ later = some t ∧ t.producer = .joined := by
  obtain ⟨s, hrun, hclosed, hlength⟩ : ∃ s : System referenceQueue.Carrier,
      (initial _ [fixtureTrade]).run _ closingSteps = some s ∧ s.producer.closed = true ∧
        (s.items _).length = 1 := ⟨_, rfl, rfl, rfl⟩
  exact ⟨s, hrun, hlength, finish_returns hrun hclosed⟩

end Joining

section Draining

def ahead : Producer → Worker → Nat
  | .joined, _ => 0
  | .joining, .left => 1
  | .joining, .loading => 2
  | .joining, .popping => 3
  | .joining, .observing _ => 4
  | _, .popping | _, .left => 5
  | _, .loading | _, .observing _ => 6

def unsent : Producer → Nat
  | .pushing _ => 4
  | _ => 0

def distance (s : System F.Carrier) : Nat :=
  5 * s.pending.length + unsent s.producer + 2 * (s.items F).length + ahead s.producer s.worker

/-- The store was not made before the queue was empty. -/
structure Drainable (trades : List Trade) (s : System F.Carrier) : Prop where
  history : History trades s
  drained : s.producer.closed = true → s.items F = []

def Advances (trades : List Trade) (s : System F.Carrier) : Prop :=
  ∃ a t, step F s a = some t ∧ Drainable trades t ∧ t.distance < s.distance

theorem Drainable.advances (h : Drainable trades s) (hmove : Moves F s a t)
    (hdrained : t.producer.closed = true → t.items F = []) (hlower : t.distance < s.distance) :
    Advances trades s :=
  ⟨a, t, hmove.step_eq, ⟨h.history.step hmove.step_eq, hdrained⟩, hlower⟩

variable (h : Drainable trades s) (hover : s.producer ≠ .joined)

include h hover

theorem Drainable.observe {value : Trade} (hworker : s.worker = .observing value) :
    Advances trades s := by
  refine h.advances (.observe 0 hworker) h.drained ?_
  cases hproducer : s.producer with
  | joined => exact absurd hproducer hover
  | ready | pushing | joining => simp [distance, hproducer, hworker, ahead, items]

theorem Drainable.load (hworker : s.worker = .loading) : Advances trades s := by
  have hclosed := h.history.done
  cases hproducer : s.producer with
  | joined => exact absurd hproducer hover
  | joining =>
    rw [hproducer] at hclosed
    refine h.advances (.leave hworker hclosed) h.drained ?_
    simp [distance, hproducer, hworker, ahead, items]
  | ready | pushing =>
    rw [hproducer] at hclosed
    refine h.advances (.retry hworker hclosed) h.drained ?_
    simp [distance, hproducer, hworker, ahead, items]

theorem Drainable.join (hworker : s.worker = .left) : Advances trades s := by
  have hclosed := h.history.done.symm.trans (h.history.left hworker)
  have hproducer : s.producer = .joining := by
    cases hproducer : s.producer <;> simp_all [Producer.closed]
  refine h.advances (.join hproducer hworker) (fun _ => h.drained hclosed) ?_
  simp [distance, hproducer, hworker, ahead, unsent, items]

omit hover in
theorem Drainable.pop (hworker : s.worker = .popping) (hitems : s.items F ≠ []) :
    Advances trades s := by
  have hopen : s.producer.closed = false := by
    by_contra hclosed
    exact hitems (h.drained (by simpa using hclosed))
  cases hpop : F.tryPop s.pipeline.queue with
  | none => exact absurd (F.tryPop_eq_none_iff.1 hpop) hitems
  | some popped =>
    obtain ⟨value, queue⟩ := popped
    have hlength : (s.items F).length = (F.items queue).length + 1 := by
      rw [items, F.items_of_tryPop hpop, List.length_cons]
    refine h.advances (.pop hworker hpop)
      (fun hclosed => absurd (hopen.symm.trans hclosed) Bool.false_ne_true) ?_
    cases hproducer : s.producer with
    | joined | joining => simp [hproducer, Producer.closed] at hopen
    | ready | pushing =>
      simp only [distance, hlength, hproducer, hworker, ahead, unsent]
      simp only [items]
      omega

theorem Drainable.feed (hcap : 0 < capacity) (hworker : s.worker = .popping)
    (hitems : s.items F = []) : Advances trades s := by
  cases hproducer : s.producer with
  | joined => exact absurd hproducer hover
  | joining =>
    refine h.advances (.empty hworker (F.tryPop_eq_none_iff.2 hitems)) (fun _ => hitems) ?_
    simp [distance, hproducer, hworker, ahead, items]
  | ready =>
    cases hpending : s.pending with
    | nil =>
      refine h.advances (.finish hproducer hpending) (fun _ => hitems) ?_
      simp [distance, hproducer, hworker, ahead, unsent, items]
    | cons value rest =>
      refine h.advances (.submit 0 hproducer hpending)
        (fun hclosed => absurd hclosed Bool.false_ne_true) ?_
      simp only [distance, hproducer, hpending, hworker, ahead, unsent, items, List.length_cons]
      omega
  | pushing value =>
    cases hpush : F.tryPush s.pipeline.queue value with
    | none =>
      have hfull := F.tryPush_eq_none_iff.1 hpush
      rw [show F.items s.pipeline.queue = [] from hitems] at hfull
      exact absurd hfull (Nat.ne_of_lt hcap)
    | some queue =>
      have hlength : (F.items queue).length = 1 := by
        rw [F.items_of_tryPush hpush, show F.items s.pipeline.queue = [] from hitems]
        rfl
      refine h.advances (.push hproducer hpush)
        (fun hclosed => absurd hclosed Bool.false_ne_true) ?_
      simp only [distance, hproducer, hworker, hitems, ahead, unsent, List.length_nil]
      simp only [items, hlength]
      omega

theorem Drainable.progress (hcap : 0 < capacity) : Advances trades s := by
  cases hworker : s.worker with
  | observing value => exact h.observe hover hworker
  | loading => exact h.load hover hworker
  | left => exact h.join hover hworker
  | popping =>
    by_cases hitems : s.items F = []
    · exact h.feed hover hcap hworker hitems
    · exact h.pop hworker hitems

omit h hover

theorem Drainable.exists_joined (hcap : 0 < capacity) (hs : Drainable trades s) :
    ∃ later t, s.run F later = some t ∧ Drainable trades t ∧ t.producer = .joined :=
  Transition.exists_run_of_progress
    (fun {r : System F.Carrier} (hr : Drainable trades r) hover => hr.progress hover hcap) hs

theorem Drainable.consumed {steps : List Step} (ht : Drainable trades t)
    (hreplayed : Replayed F trades steps t) : Consumed trades t := by
  rw [hreplayed.consumed_iff, leftover, ht.drained (by simp [hreplayed.joined, Producer.closed])]
  rfl

theorem exists_consuming (hcap : 0 < capacity) (trades : List Trade) :
    ∃ steps, ∃ s : System F.Carrier, Replayed F trades steps s ∧ Consumed trades s := by
  have hstart : Drainable trades (initial F trades) := ⟨.initial trades, fun _ => F.items_empty⟩
  obtain ⟨steps, s, hrun, hs, hjoined⟩ := hstart.exists_joined hcap
  exact ⟨steps, s, ⟨hrun, hjoined⟩, hs.consumed ⟨hrun, hjoined⟩⟩

/-- No state before the store is a dead end: some schedule goes on to the join with every trade
consumed. -/
theorem exists_draining_run {steps : List Step} (hcap : 0 < capacity)
    (hrun : (initial F trades).run F steps = some s) (hopen : s.producer.closed = false) :
    ∃ later t, s.run F later = some t ∧ t.producer = .joined ∧ Consumed trades t := by
  have hs : Drainable trades s :=
    ⟨.of_run hrun, fun hclosed => by rw [hopen] at hclosed; cases hclosed⟩
  obtain ⟨later, t, hlater, ht, hjoined⟩ := hs.exists_joined hcap
  refine ⟨later, t, hlater, hjoined, ht.consumed (?_ : Replayed F trades (steps ++ later) t)⟩
  refine ⟨?_, hjoined⟩
  rw [run, Transition.run_append]
  rw [run] at hrun
  rw [hrun]
  exact hlater

def waitingSteps : List Step := [.pop, .submit 0, .push]

theorem exists_draining_run_waiting :
    ∃ s : System referenceQueue.Carrier,
      (initial _ [fixtureTrade]).run _ waitingSteps = some s ∧ s.worker = .loading ∧
      ∃ later t, s.run _ later = some t ∧ t.producer = .joined ∧ Consumed [fixtureTrade] t := by
  obtain ⟨s, hrun, hworker, hopen⟩ : ∃ s : System referenceQueue.Carrier,
      (initial _ [fixtureTrade]).run _ waitingSteps = some s ∧ s.worker = .loading ∧
        s.producer.closed = false := ⟨_, rfl, rfl, rfl⟩
  exact ⟨s, hrun, hworker, exists_draining_run (by decide) hrun hopen⟩

end Draining

end BengalMarket.System
