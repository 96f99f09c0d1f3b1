import BengalMarket.Library.Simulation
import BengalMarket.Pipeline.Core

universe u v

namespace BengalMarket.System

variable {capacity : Nat} {F : BoundedFifo.{0, u} Trade capacity}
  {G : BoundedFifo.{0, v} Trade capacity}

def abstracted (s : System F.Carrier) : System (BoundedFifo.ofList Trade capacity).Carrier where
  pipeline := {
    queue := F.abstracted s.pipeline.queue
    producerDone := s.pipeline.producerDone
    histogram := s.pipeline.histogram
    events := s.pipeline.events
    backpressure := s.pipeline.backpressure
    checksum := s.pipeline.checksum
    finished := s.pipeline.finished }
  pending := s.pending
  producer := s.producer
  worker := s.worker
  pushed := s.pushed
  popped := s.popped

theorem abstracted_initial (trades : List Trade) :
    (initial F trades).abstracted = initial (BoundedFifo.ofList Trade capacity) trades := by
  unfold abstracted initial
  rw [F.abstracted_empty]

theorem map_push (s : System F.Carrier) :
    (s.push F).map abstracted = s.abstracted.push (BoundedFifo.ofList Trade capacity) := by
  unfold push
  cases hproducer : s.producer with
  | ready | joining | joined => simp [abstracted, hproducer]
  | pushing value =>
    have hqueue := F.map_tryPush s.pipeline.queue value
    simp only [abstracted, hproducer]
    rw [← hqueue]
    cases F.tryPush s.pipeline.queue value <;> simp [abstracted]

theorem map_pop (s : System F.Carrier) :
    (s.pop F).map abstracted = s.abstracted.pop (BoundedFifo.ofList Trade capacity) := by
  unfold pop
  cases hworker : s.worker with
  | observing | loading | left => simp [abstracted, hworker]
  | popping =>
    have hqueue := F.map_tryPop s.pipeline.queue
    simp only [abstracted, hworker]
    rw [← hqueue]
    cases F.tryPop s.pipeline.queue <;> simp [abstracted]

theorem map_step (s : System F.Carrier) (a : Step) :
    (step F s a).map abstracted = step (BoundedFifo.ofList Trade capacity) s.abstracted a := by
  cases a with
  | push => exact s.map_push
  | pop => exact s.map_pop
  | submit nowNs =>
    cases hproducer : s.producer <;> cases hpending : s.pending <;>
      simp [step, submit, abstracted, hproducer, hpending]
  | finish =>
    cases hproducer : s.producer <;> cases hpending : s.pending <;>
      simp [step, finish, abstracted, hproducer, hpending]
  | join =>
    cases hproducer : s.producer <;> cases hworker : s.worker <;>
      simp [step, join, abstracted, hproducer, hworker]
  | observe nowNs => cases hworker : s.worker <;> simp [step, observe, abstracted, hworker]
  | load => cases hworker : s.worker <;> simp [step, load, abstracted, hworker]

theorem map_run (trades : List Trade) (steps : List Step) :
    ((initial F trades).run F steps).map abstracted =
      (initial (BoundedFifo.ofList Trade capacity) trades).run _ steps := by
  rw [run, Transition.run_map map_step, abstracted_initial]
  rfl

/-- A schedule that one engine can follow, any engine of that capacity can, and it leads to the same
state but for the queue's own representation, and so to the same report. -/
theorem engines_agree (F : BoundedFifo.{0, u} Trade capacity)
    (G : BoundedFifo.{0, v} Trade capacity) (trades : List Trade) (steps : List Step) :
    ((initial F trades).run F steps).map abstracted =
        ((initial G trades).run G steps).map abstracted ∧
      ∀ engine input elapsedNs,
        ((initial F trades).run F steps).map (·.pipeline.report engine input elapsedNs) =
          ((initial G trades).run G steps).map (·.pipeline.report engine input elapsedNs) := by
  have hsame : ((initial F trades).run F steps).map abstracted =
      ((initial G trades).run G steps).map abstracted := by rw [map_run, map_run]
  refine ⟨hsame, fun engine input elapsedNs => ?_⟩
  have hreport := congrArg (Option.map fun t : System (BoundedFifo.ofList Trade capacity).Carrier =>
    t.pipeline.report engine input elapsedNs) hsame
  rwa [Option.map_map, Option.map_map] at hreport

end BengalMarket.System
