import BengalMarket.Library.BoundedFifo
import BengalMarket.Library.Transition
import BengalMarket.Pipeline.Checksum
import BengalMarket.Pipeline.Histogram

/-! The bounded handoff between the reader and one worker thread, as a transition
system over the atomic steps of both threads.  The queue is any bounded FIFO. -/

universe u

namespace BengalMarket

structure Pipeline (Queue : Type u) where
  queue : Queue
  producerDone : Bool := false
  histogram : LatencyHistogram := {}
  events : UInt64 := 0
  backpressure : UInt64 := 0
  checksum : UInt64 := hashOffset
  finished : Bool := false

def Pipeline.report {Queue : Type u} (p : Pipeline Queue) (engine : String)
    (input : ParseMetrics) (elapsedNs : UInt64) : ReplayReport where
  engine := engine
  input := input
  stageLatency := p.histogram.summary
  events := p.events
  dropped := 0
  backpressure := p.backpressure
  checksum := p.checksum
  elapsedNs := elapsedNs

/-- Where the producer stands: between two calls, in the retry loop of `submit`
with the stamped trade, or in `finish` after the store and after the join. -/
inductive Producer
  | ready
  | pushing (value : Trade)
  | joining
  | joined

/-- Where the worker stands in `consume`: before `try_pop`, in the body of the
loop with the popped trade, before the load of `producer_done_`, or outside. -/
inductive Worker
  | popping
  | observing (value : Trade)
  | loading
  | left
  deriving DecidableEq

/-- Both threads.  `pushed` and `popped` are history: the trades that `try_push`
accepted and that `try_pop` returned, oldest first. -/
structure System (Queue : Type u) where
  pipeline : Pipeline Queue
  pending : List Trade
  producer : Producer := .ready
  worker : Worker := .popping
  pushed : List Trade := []
  popped : List Trade := []

inductive Step
  | submit (nowNs : UInt64)
  | push
  | finish
  | join
  | pop
  | observe (nowNs : UInt64)
  | load
  deriving DecidableEq

namespace System

variable {capacity : Nat} (F : BoundedFifo.{0, u} Trade capacity)

def initial (trades : List Trade) : System F.Carrier where
  pipeline := { queue := F.empty }
  pending := trades

def stamp (value : Trade) (nowNs : UInt64) : Trade := { value with enqueuedNs := nowNs }

def submit (s : System F.Carrier) (nowNs : UInt64) : Option (System F.Carrier) :=
  match s.producer, s.pending with
  | .ready, value :: rest =>
    some { s with pending := rest, producer := .pushing (stamp value nowNs) }
  | _, _ => none

def push (s : System F.Carrier) : Option (System F.Carrier) :=
  match s.producer with
  | .pushing value =>
    match F.tryPush s.pipeline.queue value with
    | some queue => some { s with
        pipeline := { s.pipeline with queue := queue }
        producer := .ready
        pushed := s.pushed ++ [value] }
    | none => some { s with
        pipeline := { s.pipeline with backpressure := s.pipeline.backpressure + 1 } }
  | _ => none

def finish (s : System F.Carrier) : Option (System F.Carrier) :=
  match s.producer, s.pending with
  | .ready, [] => some { s with
      pipeline := { s.pipeline with producerDone := true }
      producer := .joining }
  | _, _ => none

def join (s : System F.Carrier) : Option (System F.Carrier) :=
  match s.producer, s.worker with
  | .joining, .left => some { s with
      pipeline := { s.pipeline with finished := true }
      producer := .joined }
  | _, _ => none

def pop (s : System F.Carrier) : Option (System F.Carrier) :=
  match s.worker with
  | .popping =>
    match F.tryPop s.pipeline.queue with
    | some (value, queue) => some { s with
        pipeline := { s.pipeline with queue := queue }
        worker := .observing value
        popped := s.popped ++ [value] }
    | none => some { s with worker := .loading }
  | _ => none

def observe (s : System F.Carrier) (nowNs : UInt64) : Option (System F.Carrier) :=
  match s.worker with
  | .observing value => some { s with
      pipeline := { s.pipeline with
        histogram := s.pipeline.histogram.observe (nowNs - value.enqueuedNs)
        checksum := updateChecksum s.pipeline.checksum value
        events := s.pipeline.events + 1 }
      worker := .popping }
  | _ => none

def load (s : System F.Carrier) : Option (System F.Carrier) :=
  match s.worker with
  | .loading =>
    some { s with worker := if s.pipeline.producerDone then .left else .popping }
  | _ => none

def step (s : System F.Carrier) : Step → Option (System F.Carrier)
  | .submit nowNs => s.submit F nowNs
  | .push => s.push F
  | .finish => s.finish F
  | .join => s.join F
  | .pop => s.pop F
  | .observe nowNs => s.observe F nowNs
  | .load => s.load F

def run (s : System F.Carrier) (steps : List Step) : Option (System F.Carrier) :=
  Transition.run (step F) s steps

def items (s : System F.Carrier) : List Trade := F.items s.pipeline.queue

inductive Moves (s : System F.Carrier) : Step → System F.Carrier → Prop
  | submit {value rest} (nowNs : UInt64) : s.producer = .ready → s.pending = value :: rest →
      Moves s (.submit nowNs)
        { s with pending := rest, producer := .pushing (stamp value nowNs) }
  | push {value queue} : s.producer = .pushing value →
      F.tryPush s.pipeline.queue value = some queue →
      Moves s .push { s with
        pipeline := { s.pipeline with queue := queue }
        producer := .ready
        pushed := s.pushed ++ [value] }
  | full {value} : s.producer = .pushing value → F.tryPush s.pipeline.queue value = none →
      Moves s .push { s with
        pipeline := { s.pipeline with backpressure := s.pipeline.backpressure + 1 } }
  | finish : s.producer = .ready → s.pending = [] →
      Moves s .finish { s with
        pipeline := { s.pipeline with producerDone := true }
        producer := .joining }
  | join : s.producer = .joining → s.worker = .left →
      Moves s .join { s with
        pipeline := { s.pipeline with finished := true }
        producer := .joined }
  | pop {value queue} : s.worker = .popping →
      F.tryPop s.pipeline.queue = some (value, queue) →
      Moves s .pop { s with
        pipeline := { s.pipeline with queue := queue }
        worker := .observing value
        popped := s.popped ++ [value] }
  | empty : s.worker = .popping → F.tryPop s.pipeline.queue = none →
      Moves s .pop { s with worker := .loading }
  | observe {value} (nowNs : UInt64) : s.worker = .observing value →
      Moves s (.observe nowNs) { s with
        pipeline := { s.pipeline with
          histogram := s.pipeline.histogram.observe (nowNs - value.enqueuedNs)
          checksum := updateChecksum s.pipeline.checksum value
          events := s.pipeline.events + 1 }
        worker := .popping }
  | leave : s.worker = .loading → s.pipeline.producerDone = true →
      Moves s .load { s with worker := .left }
  | retry : s.worker = .loading → s.pipeline.producerDone = false →
      Moves s .load { s with worker := .popping }

variable {F}

theorem Moves.of_step {s t : System F.Carrier} {a : Step} (h : step F s a = some t) :
    Moves F s a t := by
  cases a with
  | submit nowNs =>
    simp only [step, System.submit] at h
    split at h
    · rename_i hproducer hpending; cases h; exact .submit nowNs hproducer hpending
    · cases h
  | push =>
    simp only [step, System.push] at h
    split at h
    · rename_i hproducer
      split at h
      · rename_i hpush; cases h; exact .push hproducer hpush
      · rename_i hpush; cases h; exact .full hproducer hpush
    · cases h
  | finish =>
    simp only [step, System.finish] at h
    split at h
    · rename_i hproducer hpending; cases h; exact .finish hproducer hpending
    · cases h
  | join =>
    simp only [step, System.join] at h
    split at h
    · rename_i hproducer hworker; cases h; exact .join hproducer hworker
    · cases h
  | pop =>
    simp only [step, System.pop] at h
    split at h
    · rename_i hworker
      split at h
      · rename_i hpop; cases h; exact .pop hworker hpop
      · rename_i hpop; cases h; exact .empty hworker hpop
    · cases h
  | observe nowNs =>
    simp only [step, System.observe] at h
    split at h
    · rename_i hworker; cases h; exact .observe nowNs hworker
    · cases h
  | load =>
    simp only [step, System.load] at h
    split at h
    · rename_i hworker
      cases h
      cases hdone : s.pipeline.producerDone with
      | true => simpa [hdone] using Moves.leave hworker hdone
      | false => simpa [hdone] using Moves.retry hworker hdone
    · cases h

theorem Moves.step_eq {s t : System F.Carrier} {a : Step} (h : Moves F s a t) :
    step F s a = some t := by
  cases h with
  | submit nowNs hproducer hpending => simp [step, System.submit, hproducer, hpending]
  | push hproducer hpush => simp [step, System.push, hproducer, hpush]
  | full hproducer hpush => simp [step, System.push, hproducer, hpush]
  | finish hproducer hpending => simp [step, System.finish, hproducer, hpending]
  | join hproducer hworker => simp [step, System.join, hproducer, hworker]
  | pop hworker hpop => simp [step, System.pop, hworker, hpop]
  | empty hworker hpop => simp [step, System.pop, hworker, hpop]
  | observe nowNs hworker => simp [step, System.observe, hworker]
  | leave hworker hdone => simp [step, System.load, hworker, hdone]
  | retry hworker hdone => simp [step, System.load, hworker, hdone]

end System

end BengalMarket
