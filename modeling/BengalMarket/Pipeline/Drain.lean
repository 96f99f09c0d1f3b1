import BengalMarket.Pipeline.History

universe u

namespace BengalMarket.System

variable {capacity : Nat} {F : BoundedFifo.{0, u} Trade capacity}

structure Drained (trades : List Trade) (s : System F.Carrier) : Prop where
  popped : s.popped.map unstamped = trades.map unstamped
  events : s.pipeline.events.toNat = trades.length
  checksum : s.pipeline.checksum = trades.foldl updateChecksum hashOffset

/-- The load of `producer_done_` is not the one that reads `true` while trades are
queued: nothing was pushed between the failed `try_pop` before it and the store. -/
def LoadsDrained (F : BoundedFifo.{0, u} Trade capacity) (s : System F.Carrier) (a : Step) : Prop :=
  a = .load → s.pipeline.producerDone = true → s.items F = []

theorem Moves.items_of_left {trades : List Trade} {s t : System F.Carrier} {a : Step}
    (h : History trades s) (hleft : s.worker = .left) (hmove : Moves F s a t) :
    t.worker = .left ∧ t.items F = s.items F := by
  have hclosed : s.producer.closed = true := h.done ▸ h.left hleft
  cases hmove with
  | submit nowNs hproducer => simp [hproducer, Producer.closed] at hclosed
  | push hproducer => simp [hproducer, Producer.closed] at hclosed
  | full hproducer => simp [hproducer, Producer.closed] at hclosed
  | finish hproducer => simp [hproducer, Producer.closed] at hclosed
  | join => exact ⟨hleft, rfl⟩
  | pop hworker => simp [hworker] at hleft
  | empty hworker => simp [hworker] at hleft
  | observe nowNs hworker => simp [hworker] at hleft
  | leave hworker => simp [hworker] at hleft
  | retry hworker => simp [hworker] at hleft

theorem items_of_left_run {trades : List Trade} {s t : System F.Carrier} {steps : List Step}
    (h : History trades s) (hleft : s.worker = .left) (hrun : s.run F steps = some t) :
    t.items F = s.items F := by
  induction steps generalizing s with
  | nil => cases hrun; rfl
  | cons a as ih =>
    obtain ⟨m, hm, ht⟩ := Transition.run_cons_eq_some hrun
    obtain ⟨hmleft, hitems⟩ := Moves.items_of_left h hleft (Moves.of_step hm)
    exact (ih (h.step hm) hmleft ht).trans hitems

theorem Moves.left_iff {s t : System F.Carrier} {a : Step} (hmove : Moves F s a t)
    (h : ¬ (a = .load ∧ s.pipeline.producerDone = true)) :
    t.worker = .left ↔ s.worker = .left := by
  cases hmove with
  | submit | push | full | finish => rfl
  | join _ hworker => rfl
  | pop hworker => simp [hworker]
  | empty hworker => simp [hworker]
  | observe nowNs hworker => simp [hworker]
  | leave hworker hdone => exact absurd ⟨rfl, hdone⟩ h
  | retry hworker => simp [hworker]

/-- Along a run on which the worker leaves, every load is drained exactly when the
queue is empty at the end. -/
theorem throughout_loadsDrained_iff {trades : List Trade} {s t : System F.Carrier}
    {steps : List Step} (h : History trades s) (hrun : s.run F steps = some t)
    (hleft : t.worker = .left) :
    Transition.Throughout (step F) (LoadsDrained F) s steps ↔
      s.worker = .left ∨ t.items F = [] := by
  induction steps generalizing s with
  | nil => cases hrun; simp [Transition.Throughout, hleft]
  | cons a as ih =>
    obtain ⟨m, hm, ht⟩ := Transition.run_cons_eq_some hrun
    have hmove := Moves.of_step hm
    have hrest := ih (h.step hm) ht
    simp only [Transition.Throughout, hm, Option.some.injEq, forall_eq', hrest]
    by_cases hexit : a = .load ∧ s.pipeline.producerDone = true
    · obtain ⟨rfl, hdone⟩ := hexit
      cases hmove with
      | leave hworker _ =>
        have hitems : t.items F = s.items F :=
          (items_of_left_run (h.step hm) rfl ht).trans rfl
        simp [LoadsDrained, hdone, hitems, hworker]
      | retry hworker hnot => simp [hdone] at hnot
    · have hok : LoadsDrained F s a := fun ha hdone => absurd ⟨ha, hdone⟩ hexit
      simp [hok, hmove.left_iff hexit]

theorem History.drained_iff {trades : List Trade} {s : System F.Carrier}
    (h : History trades s) (hleft : s.worker = .left) :
    Drained trades s ↔ s.items F = [] ∧ trades.length < 2 ^ 64 := by
  have hclosed : s.producer.closed = true := h.done ▸ h.left hleft
  have hheld : s.producer.held = [] := by
    cases hproducer : s.producer <;> simp_all [Producer.closed, Producer.held]
  have hobserved := observed_of_left hleft
  have hall : (s.popped ++ s.items F).map unstamped = trades.map unstamped := by
    have hsubmitted := h.submitted
    rwa [hheld, h.closed hclosed, List.append_nil, List.append_nil, ← h.fifo] at hsubmitted
  have hlength : s.popped.length + (s.items F).length = trades.length := by
    simpa using congrArg List.length hall
  have hevents : s.pipeline.events.toNat = s.popped.length % 2 ^ 64 := by
    rw [h.events, hobserved]
    exact UInt64.toNat_ofNat'
  constructor
  · intro hdrained
    have hpopped : s.popped.length = trades.length := by
      simpa using congrArg List.length hdrained.popped
    refine ⟨List.eq_nil_of_length_eq_zero (by omega), ?_⟩
    rw [← hdrained.events]
    exact s.pipeline.events.toNat_lt
  · rintro ⟨hempty, hlt⟩
    rw [hempty, List.append_nil] at hall
    rw [hempty, List.length_nil, Nat.add_zero] at hlength
    refine ⟨hall, ?_, ?_⟩
    · rw [hevents, hlength, Nat.mod_eq_of_lt hlt]
    · rw [h.checksum, hobserved, ← foldl_updateChecksum_unstamped, hall,
        foldl_updateChecksum_unstamped]

theorem drained_iff_loadsDrained {trades : List Trade} {steps : List Step}
    {s : System F.Carrier} (hrun : (initial F trades).run F steps = some s)
    (hleft : s.worker = .left) :
    Drained trades s ↔
      Transition.Throughout (step F) (LoadsDrained F) (initial F trades) steps ∧
        trades.length < 2 ^ 64 := by
  have hinitial := History.initial (F := F) trades
  have hworker : (initial F trades).worker ≠ .left := by intro h; cases h
  rw [(hinitial.run hrun).drained_iff hleft,
    throughout_loadsDrained_iff hinitial hrun hleft]
  simp [hworker]

/-- The push and the store fall between the failed `try_pop` and the load. -/
def lossySteps : List Step := [.pop, .submit 0, .push, .finish, .load]

theorem drain_loses_trade :
    ∃ s : System referenceQueue.Carrier,
      (initial _ [fixtureTrade]).run _ lossySteps = some s ∧ s.worker = .left ∧
        s.popped = [] ∧ s.pipeline.events = 0 ∧ ¬ Drained [fixtureTrade] s := by
  obtain ⟨s, hrun, hleft, hpopped, hevents⟩ :
      ∃ s : System referenceQueue.Carrier,
        (initial _ [fixtureTrade]).run _ lossySteps = some s ∧ s.worker = .left ∧
          s.popped = [] ∧ s.pipeline.events = 0 := ⟨_, rfl, rfl, rfl, rfl⟩
  refine ⟨s, hrun, hleft, hpopped, hevents, ?_⟩
  intro h
  have hcount := h.events
  rw [hevents] at hcount
  cases hcount

def drainingSteps : List Step := [.submit 0, .push, .finish, .pop, .observe 0, .pop, .load]

theorem drained_iff_loadsDrained_once :
    ∃ s : System referenceQueue.Carrier,
      (initial _ [fixtureTrade]).run _ drainingSteps = some s ∧ s.worker = .left ∧
      (Drained [fixtureTrade] s ↔
        Transition.Throughout (step _) (LoadsDrained _) (initial referenceQueue [fixtureTrade])
            drainingSteps ∧
          [fixtureTrade].length < 2 ^ 64) := by
  obtain ⟨s, hrun, hleft⟩ : ∃ s : System referenceQueue.Carrier,
      (initial _ [fixtureTrade]).run _ drainingSteps = some s ∧ s.worker = .left := ⟨_, rfl, rfl⟩
  exact ⟨s, hrun, hleft, drained_iff_loadsDrained hrun hleft⟩

end BengalMarket.System
