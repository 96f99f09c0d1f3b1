import BengalMarket.Pipeline.Core

universe u

namespace BengalMarket

def Producer.held : Producer → List Trade
  | .pushing value => [value]
  | _ => []

def Producer.closed : Producer → Bool
  | .joining | .joined => true
  | _ => false

def Worker.held : Worker → List Trade
  | .observing value => [value]
  | _ => []

namespace System

variable {capacity : Nat} {F : BoundedFifo.{0, u} Trade capacity}

@[simp] theorem unstamped_stamp (value : Trade) (nowNs : UInt64) :
    unstamped (stamp value nowNs) = unstamped value := rfl

def observed (s : System F.Carrier) : List Trade :=
  match s.worker with
  | .observing _ => s.popped.dropLast
  | _ => s.popped

abbrev referenceQueue : BoundedFifo Trade queueCapacity := .ofList Trade queueCapacity

theorem length_fixtureTradeId : (ascii "1").length ≤ 24 := by decide

theorem length_fixtureProductId : (ascii "BTC-USD").length ≤ 20 := by decide

def fixtureTrade : Trade where
  tradeId := ⟨ascii "1", length_fixtureTradeId⟩
  productId := ⟨ascii "BTC-USD", length_fixtureProductId⟩
  price := 3000000000000
  size := 100000
  side := .buy
  sourceTimeNs := 1767225600000000000

structure History (trades : List Trade) (s : System F.Carrier) : Prop where
  fifo : s.popped ++ s.items F = s.pushed
  submitted : (s.pushed ++ s.producer.held ++ s.pending).map unstamped = trades.map unstamped
  worker : s.popped = s.observed ++ s.worker.held
  events : s.pipeline.events = UInt64.ofNat s.observed.length
  samples : s.pipeline.histogram.samples = UInt64.ofNat s.observed.length
  checksum : s.pipeline.checksum = s.observed.foldl updateChecksum hashOffset
  done : s.pipeline.producerDone = s.producer.closed
  closed : s.producer.closed = true → s.pending = []
  left : s.worker = .left → s.pipeline.producerDone = true

theorem History.initial (trades : List Trade) : History trades (initial F trades) where
  fifo := F.items_empty
  submitted := rfl
  worker := rfl
  events := rfl
  samples := rfl
  checksum := rfl
  done := rfl
  closed := by intro h; cases h
  left := by intro h; cases h

theorem observed_of_popping {s : System F.Carrier} (h : s.worker = .popping) :
    s.observed = s.popped := by simp [observed, h]

theorem observed_of_left {s : System F.Carrier} (h : s.worker = .left) :
    s.observed = s.popped := by simp [observed, h]

theorem History.step {trades : List Trade} {s t : System F.Carrier} {a : Step}
    (h : History trades s) (hstep : step F s a = some t) : History trades t := by
  obtain ⟨fifo, submitted, worker, events, samples, checksum, done, closed, left⟩ := h
  cases Moves.of_step hstep with
  | submit nowNs hproducer hpending =>
    refine ⟨fifo, ?_, worker, events, samples, checksum, ?_, ?_, left⟩
    · simpa [hproducer, hpending, Producer.held] using submitted
    · simpa [hproducer, Producer.closed] using done
    · simp [Producer.closed]
  | @push value queue hproducer hpush =>
    have hitems := F.items_of_tryPush hpush
    refine ⟨?_, ?_, worker, events, samples, checksum, ?_, ?_, left⟩
    · change s.popped ++ F.items queue = s.pushed ++ [value]
      rw [hitems, ← List.append_assoc]
      exact congrArg (· ++ [value]) fifo
    · simpa [hproducer, Producer.held] using submitted
    · simpa [hproducer, Producer.closed] using done
    · simp [Producer.closed]
  | full hproducer hpush =>
    exact ⟨fifo, submitted, worker, events, samples, checksum, done, closed, left⟩
  | finish hproducer hpending =>
    refine ⟨fifo, ?_, worker, events, samples, checksum, rfl, fun _ => hpending, fun _ => rfl⟩
    simpa [hproducer, Producer.held] using submitted
  | join hproducer hworker =>
    refine ⟨fifo, ?_, worker, events, samples, checksum, ?_, ?_, left⟩
    · simpa [hproducer, Producer.held] using submitted
    · simpa [hproducer, Producer.closed] using done
    · intro _; exact closed (by simp [hproducer, Producer.closed])
  | @pop value queue hworker hpop =>
    have hitems := F.items_of_tryPop hpop
    have hobserved := observed_of_popping hworker
    refine ⟨?_, submitted, ?_, ?_, ?_, ?_, done, closed, by intro h; cases h⟩
    · rw [← fifo]
      simp [items, hitems]
    · simp [observed, Worker.held]
    · simpa [observed, hworker] using events
    · simpa [observed, hworker] using samples
    · simpa [observed, hworker] using checksum
  | empty hworker hpop =>
    refine ⟨fifo, submitted, ?_, ?_, ?_, ?_, done, closed, by intro h; cases h⟩
    · simp [observed, Worker.held]
    · simpa [observed, hworker] using events
    · simpa [observed, hworker] using samples
    · simpa [observed, hworker] using checksum
  | @observe value nowNs hworker =>
    have hpopped : s.popped = s.observed ++ [value] := by
      simpa [hworker, Worker.held] using worker
    refine ⟨fifo, submitted, ?_, ?_, ?_, ?_, done, closed, by intro h; cases h⟩
    · simp [observed, Worker.held]
    · change s.pipeline.events + 1 = UInt64.ofNat s.popped.length
      rw [hpopped, List.length_append, UInt64.ofNat_add, events]
      rfl
    · change s.pipeline.histogram.samples + 1 = UInt64.ofNat s.popped.length
      rw [hpopped, List.length_append, UInt64.ofNat_add, samples]
      rfl
    · change updateChecksum s.pipeline.checksum value = s.popped.foldl updateChecksum hashOffset
      rw [hpopped, List.foldl_append, checksum]
      rfl
  | leave hworker hdone =>
    refine ⟨fifo, submitted, ?_, ?_, ?_, ?_, done, closed, fun _ => hdone⟩
    · simp [observed, Worker.held]
    · simpa [observed, hworker] using events
    · simpa [observed, hworker] using samples
    · simpa [observed, hworker] using checksum
  | retry hworker hdone =>
    refine ⟨fifo, submitted, ?_, ?_, ?_, ?_, done, closed, by intro h; cases h⟩
    · simp [observed, Worker.held]
    · simpa [observed, hworker] using events
    · simpa [observed, hworker] using samples
    · simpa [observed, hworker] using checksum

theorem History.run {trades : List Trade} {s t : System F.Carrier} {steps : List Step}
    (h : History trades s) (hrun : s.run F steps = some t) : History trades t :=
  Transition.run_invariant (I := History trades) History.step h hrun

theorem History.of_run {trades : List Trade} {s : System F.Carrier} {steps : List Step}
    (hrun : (System.initial F trades).run F steps = some s) : History trades s :=
  (History.initial trades).run hrun

def BetweenIterations (s : System F.Carrier) : Prop := s.worker.held = []

theorem History.observed_eq {trades : List Trade} {s : System F.Carrier}
    (h : History trades s) (hs : s.BetweenIterations) : s.observed = s.popped := by
  have hworker := h.worker
  rw [hs, List.append_nil] at hworker
  exact hworker.symm

theorem pipeline_history {trades : List Trade} {steps : List Step} {s : System F.Carrier}
    (hrun : (initial F trades).run F steps = some s) :
    s.popped ++ s.items F = s.pushed ∧
      (s.pushed ++ s.producer.held).map unstamped <+: trades.map unstamped ∧
      (s.items F).length ≤ capacity ∧
      (s.BetweenIterations →
        s.pipeline.events.toNat = s.popped.length % 2 ^ 64 ∧
        s.pipeline.histogram.samples.toNat = s.popped.length % 2 ^ 64 ∧
        s.pipeline.checksum = s.popped.foldl updateChecksum hashOffset) := by
  have h := History.of_run hrun
  refine ⟨h.fifo, ?_, F.items_length_le _, ?_⟩
  · rw [← h.submitted]
    exact (List.prefix_append _ s.pending).map unstamped
  · intro hs
    have hobserved := h.observed_eq hs
    rw [h.events, h.samples, h.checksum, hobserved]
    exact ⟨UInt64.toNat_ofNat', UInt64.toNat_ofNat', rfl⟩

def crowdedSteps : List Step := [.submit 5, .push, .submit 6, .push, .pop, .observe 9]

theorem pipeline_history_crowded :
    ∃ s : System (BoundedFifo.ofList Trade 1).Carrier,
      (initial _ [fixtureTrade, fixtureTrade]).run _
        crowdedSteps = some s ∧
      (s.popped ++ s.items _ = s.pushed ∧
        (s.pushed ++ s.producer.held).map unstamped <+:
          [fixtureTrade, fixtureTrade].map unstamped ∧
        (s.items _).length ≤ 1 ∧
        (s.BetweenIterations →
          s.pipeline.events.toNat = s.popped.length % 2 ^ 64 ∧
          s.pipeline.histogram.samples.toNat = s.popped.length % 2 ^ 64 ∧
          s.pipeline.checksum = s.popped.foldl updateChecksum hashOffset)) := by
  obtain ⟨s, hrun⟩ : ∃ s : System (BoundedFifo.ofList Trade 1).Carrier,
      (initial _ [fixtureTrade, fixtureTrade]).run _ crowdedSteps = some s := ⟨_, rfl⟩
  exact ⟨s, hrun, pipeline_history hrun⟩

def deliverSteps : List Step := [.submit 0, .push, .pop, .observe 0]

structure Idle (s : System F.Carrier) : Prop where
  producer : s.producer = .ready
  worker : s.worker = .popping
  items : s.items F = []

theorem Idle.deliver {s : System F.Carrier} (h : Idle s) (hcap : 0 < capacity)
    {value : Trade} {rest : List Trade} (hpending : s.pending = value :: rest) :
    ∃ t, s.run F deliverSteps = some t ∧ Idle t ∧ t.pending = rest ∧
      t.popped.length = s.popped.length + 1 := by
  have hitems : F.items s.pipeline.queue = [] := h.items
  cases hpush : F.tryPush s.pipeline.queue (stamp value 0) with
  | none =>
    rw [F.tryPush_eq_none_iff, hitems] at hpush
    simp at hpush
    omega
  | some queue =>
    have hqueue : F.items queue = [stamp value 0] := by
      rw [F.items_of_tryPush hpush, hitems, List.nil_append]
    cases hpop : F.tryPop queue with
    | none =>
      rw [F.tryPop_eq_none_iff, hqueue] at hpop
      cases hpop
    | some popped =>
      obtain ⟨w, queue'⟩ := popped
      have hcons := F.items_of_tryPop hpop
      rw [hqueue] at hcons
      let s₁ : System F.Carrier :=
        { s with pending := rest, producer := .pushing (stamp value 0) }
      let s₂ : System F.Carrier := { s₁ with
        pipeline := { s₁.pipeline with queue := queue }
        producer := .ready
        pushed := s₁.pushed ++ [stamp value 0] }
      let s₃ : System F.Carrier := { s₂ with
        pipeline := { s₂.pipeline with queue := queue' }
        worker := .observing w
        popped := s₂.popped ++ [w] }
      have h₁ : step F s (.submit 0) = some s₁ := (Moves.submit 0 h.producer hpending).step_eq
      have h₂ : step F s₁ .push = some s₂ := Moves.step_eq
        (.push (rfl : s₁.producer = .pushing (stamp value 0)) hpush)
      have h₃ : step F s₂ .pop = some s₃ := Moves.step_eq
        (.pop (show s₂.worker = .popping from h.worker) hpop)
      let s₄ : System F.Carrier := { s₃ with
        pipeline := { s₃.pipeline with
          histogram := s₃.pipeline.histogram.observe (0 - w.enqueuedNs)
          checksum := updateChecksum s₃.pipeline.checksum w
          events := s₃.pipeline.events + 1 }
        worker := .popping }
      have h₄ : step F s₃ (.observe 0) = some s₄ := Moves.step_eq
        (.observe 0 (rfl : s₃.worker = .observing w))
      refine ⟨s₄, ?_, ⟨rfl, rfl, (List.cons.inj hcons).2.symm⟩, rfl, List.length_append⟩
      simp only [run, deliverSteps, Transition.run_cons, h₁, h₂, h₃, h₄, Option.bind_some,
        Transition.run_nil]

theorem Idle.deliver_all {s : System F.Carrier} (h : Idle s) (hcap : 0 < capacity)
    (trades : List Trade) (hpending : s.pending = trades) :
    ∃ steps t, s.run F steps = some t ∧ Idle t ∧
      t.popped.length = s.popped.length + trades.length := by
  induction trades generalizing s with
  | nil => exact ⟨[], s, rfl, h, rfl⟩
  | cons value rest ih =>
    obtain ⟨m, hm, hidle, hrest, hpopped⟩ := h.deliver hcap hpending
    obtain ⟨steps, t, ht, htidle, htpopped⟩ := ih hidle hrest
    refine ⟨deliverSteps ++ steps, t, ?_, htidle, ?_⟩
    · simp only [run, Transition.run_append] at hm ht ⊢
      rw [hm]
      exact ht
    · rw [htpopped, hpopped, List.length_cons]
      omega

/-- The 64-bit counters wrap: after `2 ^ 64` trades they read zero. -/
theorem pipeline_history_wraps :
    ∃ steps, ∃ s : System referenceQueue.Carrier,
      (initial _ (List.replicate (2 ^ 64) fixtureTrade)).run _ steps = some s ∧
        s.BetweenIterations ∧ s.popped.length = 2 ^ 64 ∧ s.pipeline.events = 0 ∧
        s.pipeline.histogram.samples = 0 := by
  have hidle : Idle (initial referenceQueue
      (List.replicate (2 ^ 64) fixtureTrade)) := ⟨rfl, rfl, rfl⟩
  obtain ⟨steps, s, hrun, hs, hpopped⟩ := hidle.deliver_all (by decide)
    (List.replicate (2 ^ 64) fixtureTrade) rfl
  have hlength : s.popped.length = 2 ^ 64 := by
    rw [hpopped, List.length_replicate]
    rfl
  have h := History.of_run hrun
  have hbetween : s.BetweenIterations := by simp [BetweenIterations, hs.worker, Worker.held]
  refine ⟨steps, s, hrun, hbetween, hlength, ?_, ?_⟩
  · rw [h.events, h.observed_eq hbetween, hlength]
    rfl
  · rw [h.samples, h.observed_eq hbetween, hlength]
    rfl

end System

end BengalMarket
