import BengalMarket.Pipeline.Drain
import BengalMarket.Reader.Delivery

universe u v

namespace BengalMarket

def reportsComparable (bengal standard : ReplayReport) : Bool :=
  bengal.input.frames == standard.input.frames &&
    bengal.input.parseErrors == 0 &&
    standard.input.parseErrors == 0 &&
    bengal.events == standard.events &&
    bengal.checksum == standard.checksum &&
    bengal.dropped == 0 && standard.dropped == 0 &&
    bengal.stageLatency.samples == bengal.events &&
    standard.stageLatency.samples == standard.events

namespace System

open Reader (readCapture)

section Replay

variable {capacity : Nat} (F : BoundedFifo.{0, u} Trade capacity)

/-- A schedule of `replay_with` up to the return of `finish`: the reader submits `trades`. -/
structure Replayed (trades : List Trade) (steps : List Step) (s : System F.Carrier) : Prop where
  run : (initial F trades).run F steps = some s
  joined : s.producer = .joined

variable {F}

def Consumed (trades : List Trade) (s : System F.Carrier) : Prop :=
  s.popped.map unstamped = trades.map unstamped

def leftover (s : System F.Carrier) : Nat := (s.items F).length

theorem left_of_joined_step {s t : System F.Carrier} {a : Step}
    (h : s.producer = .joined → s.worker = .left) (hstep : step F s a = some t) :
    t.producer = .joined → t.worker = .left := by
  cases Moves.of_step hstep with
  | submit | push | finish => intro hjoined; cases hjoined
  | full hproducer => exact h
  | join hproducer hworker => exact fun _ => hworker
  | pop hworker | empty hworker | observe nowNs hworker | retry hworker =>
    intro hjoined
    have hleft := h hjoined
    rw [hworker] at hleft
    cases hleft
  | leave => exact fun _ => rfl

variable {trades : List Trade} {steps : List Step} {s : System F.Carrier}

theorem Replayed.history (h : Replayed F trades steps s) : History trades s := .of_run h.run

theorem Replayed.left (h : Replayed F trades steps s) : s.worker = .left :=
  Transition.run_invariant
    (I := fun s : System F.Carrier => s.producer = .joined → s.worker = .left)
    left_of_joined_step (by intro hjoined; cases hjoined) h.run h.joined

theorem Replayed.split (h : Replayed F trades steps s) :
    s.popped.map unstamped ++ (s.items F).map unstamped = trades.map unstamped := by
  have hhistory := h.history
  have hclosed : s.producer.closed = true := by simp [h.joined, Producer.closed]
  have hsubmitted := hhistory.submitted
  rw [hhistory.closed hclosed, h.joined, ← hhistory.fifo] at hsubmitted
  simpa [Producer.held] using hsubmitted

theorem Replayed.leftover_le (h : Replayed F trades steps s) : s.leftover ≤ trades.length := by
  have hlength := congrArg List.length h.split
  simp only [List.length_append, List.length_map] at hlength
  rw [leftover]
  omega

theorem Replayed.popped_eq (h : Replayed F trades steps s) :
    s.popped.map unstamped = (trades.take (trades.length - s.leftover)).map unstamped := by
  have hsplit := h.split
  have hlength := congrArg List.length hsplit
  simp only [List.length_append, List.length_map] at hlength
  rw [List.map_take, ← hsplit, List.take_left' (by simp [leftover]; omega)]

theorem Replayed.consumed_iff (h : Replayed F trades steps s) :
    Consumed trades s ↔ s.leftover = 0 := by
  have hsplit := h.split
  rw [Consumed, leftover, List.length_eq_zero_iff]
  constructor
  · intro hconsumed
    rw [hconsumed, List.append_right_eq_self] at hsplit
    exact List.map_eq_nil_iff.1 hsplit
  · intro hempty
    simpa [hempty] using hsplit

theorem Replayed.loadsDrained_iff (h : Replayed F trades steps s) :
    Transition.Throughout (step F) (LoadsDrained F) (initial F trades) steps ↔
      Consumed trades s := by
  have hworker : (initial F trades).worker ≠ .left := by intro hleft; cases hleft
  rw [throughout_loadsDrained_iff (History.initial trades) h.run h.left, h.consumed_iff, leftover,
    List.length_eq_zero_iff]
  simp [hworker]

theorem Replayed.events_eq (h : Replayed F trades steps s) :
    s.pipeline.events = UInt64.ofNat (trades.length - s.leftover) ∧
      s.pipeline.histogram.samples = UInt64.ofNat (trades.length - s.leftover) := by
  have hlength := congrArg List.length h.popped_eq
  simp only [List.length_map, List.length_take] at hlength
  have hpopped : s.popped.length = trades.length - s.leftover := by omega
  rw [h.history.events, h.history.samples, observed_of_left h.left, hpopped]
  exact ⟨rfl, rfl⟩

theorem Replayed.checksum_eq (h : Replayed F trades steps s) :
    s.pipeline.checksum =
      (trades.take (trades.length - s.leftover)).foldl updateChecksum hashOffset := by
  rw [h.history.checksum, observed_of_left h.left, ← foldl_updateChecksum_unstamped, h.popped_eq,
    foldl_updateChecksum_unstamped]

end Replay

/-- The gate tells two leftovers of the same trades apart: by the 64-bit count of what was
consumed or by its checksum. -/
def Distinguished (trades : List Trade) (left left' : Nat) : Prop :=
  UInt64.ofNat (trades.length - left) ≠ UInt64.ofNat (trades.length - left') ∨
    (trades.take (trades.length - left)).foldl updateChecksum hashOffset ≠
      (trades.take (trades.length - left')).foldl updateChecksum hashOffset

theorem distinguished_iff {trades : List Trade} {left left' : Nat} (h : trades.length < 2 ^ 64)
    (hleft : left ≤ trades.length) (hleft' : left' ≤ trades.length) :
    Distinguished trades left left' ↔ left ≠ left' := by
  constructor
  · rintro hdistinguished rfl
    simp [Distinguished] at hdistinguished
  · intro hne
    refine Or.inl fun heq => hne ?_
    have hnat := congrArg UInt64.toNat heq
    have hlt : trades.length - left < 2 ^ 64 := by omega
    have hlt' : trades.length - left' < 2 ^ 64 := by omega
    rw [UInt64.toNat_ofNat_of_lt' hlt, UInt64.toNat_ofNat_of_lt' hlt'] at hnat
    omega

section Gate

variable {capacity capacity' : Nat} {F : BoundedFifo.{0, u} Trade capacity}
  {G : BoundedFifo.{0, v} Trade capacity'}

structure Comparison (F : BoundedFifo.{0, u} Trade capacity)
    (G : BoundedFifo.{0, v} Trade capacity') (J : JsonLibrary) (path : String)
    (stream : Bytes) (metrics : ParseMetrics) (bengal standard : List Step) (b : System F.Carrier)
    (s : System G.Carrier) : Prop where
  returned : (readCapture J path (some stream)).outcome = .ok metrics
  bengal : Replayed F (readCapture J path (some stream)).delivered bengal b
  standard : Replayed G (readCapture J path (some stream)).delivered standard s

def GateExact (trades : List Trade) (metrics : ParseMetrics) (b : System F.Carrier)
    (s : System G.Carrier) : Prop :=
  ∀ bengalNs standardNs,
    reportsComparable (b.pipeline.report "bengal" metrics bengalNs)
        (s.pipeline.report "standard" metrics standardNs) = true ↔
      metrics.parseErrors = 0 ∧ Consumed trades b ∧ Consumed trades s

variable {J : JsonLibrary} {path : String} {stream : Bytes} {metrics : ParseMetrics}
  {bengal standard : List Step} {b : System F.Carrier} {s : System G.Carrier}

theorem Comparison.comparable_iff (h : Comparison F G J path stream metrics bengal standard b s)
    (bengalNs standardNs : UInt64) :
    reportsComparable (b.pipeline.report "bengal" metrics bengalNs)
        (s.pipeline.report "standard" metrics standardNs) = true ↔
      metrics.parseErrors = 0 ∧
        ¬ Distinguished (readCapture J path (some stream)).delivered b.leftover s.leftover := by
  obtain ⟨hevents, hsamples⟩ := h.bengal.events_eq
  obtain ⟨hevents', hsamples'⟩ := h.standard.events_eq
  simp [reportsComparable, Pipeline.report, hsamples, hsamples', hevents, hevents',
    h.bengal.checksum_eq, h.standard.checksum_eq, Distinguished, and_assoc]

theorem Comparison.consumed_iff (h : Comparison F G J path stream metrics bengal standard b s) :
    Consumed (readCapture J path (some stream)).delivered b ∧
        Consumed (readCapture J path (some stream)).delivered s →
      ¬ Distinguished (readCapture J path (some stream)).delivered b.leftover s.leftover := by
  rw [h.bengal.consumed_iff, h.standard.consumed_iff]
  rintro ⟨hb, hs⟩
  simp [Distinguished, hb, hs]

/-- When the gate is exact: if a payload was rejected, if the two leftovers can be told
apart, or if no load of either schedule left trades behind. -/
theorem gateExact_iff (h : Comparison F G J path stream metrics bengal standard b s)
    (trades : List Trade) (htrades : (readCapture J path (some stream)).delivered = trades) :
    (GateExact trades metrics b s ↔
      metrics.parseErrors ≠ 0 ∨ Distinguished trades b.leftover s.leftover ∨
        Transition.Throughout (step F) (LoadsDrained F) (initial F trades) bengal ∧
          Transition.Throughout (step G) (LoadsDrained G) (initial G trades) standard) ∧
    (trades.length < 2 ^ 64 →
      (Distinguished trades b.leftover s.leftover ↔ b.leftover ≠ s.leftover)) := by
  subst htrades
  refine ⟨?_, fun hlt => distinguished_iff hlt h.bengal.leftover_le h.standard.leftover_le⟩
  rw [h.bengal.loadsDrained_iff, h.standard.loadsDrained_iff]
  have hconsumed := h.consumed_iff
  simp only [GateExact, h.comparable_iff, forall_const]
  tauto

end Gate

section Fixture

open Reader JsonText

def fixtureSale : Bytes := fixtureFile [fixtureMetadata, fixtureFrame (fixtureTrades
  [fixtureTradeValue (.string (ascii "30000"))])]

theorem fixtureSale_state : Bounded (Lines.pieces fixtureSale) ∧
    (finalState .reference fixtureSale).metadataSeen = true ∧
    (finalState .reference fixtureSale).delivered = [fixtureTrade] ∧
    (finalState .reference fixtureSale).metrics = { frames := 1 } := by decide +kernel

theorem readCapture_fixtureSale : readCapture .reference "fixture" (some fixtureSale) =
    ⟨[fixtureTrade], .ok { frames := 1 }⟩ := by
  obtain ⟨hbounded, hseen, hdelivered, hmetrics⟩ := fixtureSale_state
  rw [readCapture_of_seen hbounded hseen, hdelivered, hmetrics]

theorem delivered_fixtureSale :
    (readCapture .reference "fixture" (some fixtureSale)).delivered = [fixtureTrade] := by
  rw [readCapture_fixtureSale]

theorem comparison_lossy :
    ∃ s : System referenceQueue.Carrier, s.popped = [] ∧
      Comparison referenceQueue referenceQueue .reference "fixture" fixtureSale { frames := 1 }
        (lossySteps ++ [.join]) (lossySteps ++ [.join]) s s := by
  obtain ⟨s, hrun, hjoined, hpopped⟩ : ∃ s : System referenceQueue.Carrier,
      (initial _ [fixtureTrade]).run _ (lossySteps ++ [.join]) = some s ∧
        s.producer = .joined ∧ s.popped = [] := ⟨_, rfl, rfl, rfl⟩
  have hreplayed : Replayed referenceQueue
      (readCapture .reference "fixture" (some fixtureSale)).delivered (lossySteps ++ [.join]) s := by
    rw [delivered_fixtureSale]
    exact ⟨hrun, hjoined⟩
  exact ⟨s, hpopped, by rw [readCapture_fixtureSale], hreplayed, hreplayed⟩

theorem gateExact_iff_lossy :
    ∃ s : System referenceQueue.Carrier,
      Comparison referenceQueue referenceQueue .reference "fixture" fixtureSale { frames := 1 }
        (lossySteps ++ [.join]) (lossySteps ++ [.join]) s s ∧
      (readCapture .reference "fixture" (some fixtureSale)).delivered = [fixtureTrade] ∧
      (GateExact [fixtureTrade] { frames := 1 } s s ↔
        ({ frames := 1 } : ParseMetrics).parseErrors ≠ 0 ∨
          Distinguished [fixtureTrade] s.leftover s.leftover ∨
          Transition.Throughout (step _) (LoadsDrained referenceQueue)
              (initial referenceQueue [fixtureTrade]) (lossySteps ++ [.join]) ∧
            Transition.Throughout (step _) (LoadsDrained referenceQueue)
              (initial referenceQueue [fixtureTrade]) (lossySteps ++ [.join])) := by
  obtain ⟨s, -, hcomparison⟩ := comparison_lossy
  exact ⟨s, hcomparison, delivered_fixtureSale,
    (gateExact_iff hcomparison [fixtureTrade] delivered_fixtureSale).1⟩

/-- Two runs that lost the same trade pass the gate. -/
theorem gate_accepts_lost_trade :
    ∃ s : System referenceQueue.Carrier,
      Comparison referenceQueue referenceQueue .reference "fixture" fixtureSale { frames := 1 }
        (lossySteps ++ [.join]) (lossySteps ++ [.join]) s s ∧
      s.popped = [] ∧
      reportsComparable (s.pipeline.report "bengal" { frames := 1 } 0)
        (s.pipeline.report "standard" { frames := 1 } 0) = true ∧
      ¬ GateExact [fixtureTrade] { frames := 1 } s s := by
  obtain ⟨s, hpopped, hcomparison⟩ := comparison_lossy
  have hopen : reportsComparable (s.pipeline.report "bengal" { frames := 1 } 0)
      (s.pipeline.report "standard" { frames := 1 } 0) = true :=
    (hcomparison.comparable_iff 0 0).2 ⟨rfl, by simp [Distinguished]⟩
  refine ⟨s, hcomparison, hpopped, hopen, fun hexact => ?_⟩
  obtain ⟨-, hconsumed, -⟩ := (hexact 0 0).1 hopen
  rw [Consumed, hpopped] at hconsumed
  cases hconsumed

end Fixture

end System

end BengalMarket
