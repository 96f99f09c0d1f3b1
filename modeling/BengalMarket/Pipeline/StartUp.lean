import BengalMarket.Pipeline.Core
import Mathlib.Data.List.Infix

/-! The start of a pipeline: the constructor initialises the members in the order of their
declarations and starts the worker in the middle of them, so the worker may run while later
members hold whatever was in their memory. -/

universe u

namespace BengalMarket

inductive Member
  | queue
  | producerDone
  | worker
  | histogram
  | events
  | backpressure
  | checksum
  | finished
  deriving DecidableEq

def Member.declarations : List Member :=
  [.queue, .producerDone, .worker, .histogram, .events, .backpressure, .checksum, .finished]

/-- Where the worker stands.  The three statements after a successful pop are apart, since each of
them touches a member of its own. -/
inductive Stage
  | absent
  | popping
  | observing (value : Trade)
  | hashing (value : Trade)
  | counting
  | loading
  | left

def Stage.touches : Stage → List Member
  | .absent | .left => []
  | .popping => [.queue]
  | .observing _ => [.histogram]
  | .hashing _ => [.checksum]
  | .counting => [.events]
  | .loading => [.producerDone]

inductive Access
  | initialised (member : Member)
  | worker (member : Member)
  deriving DecidableEq

/-- `accesses` is history: the initialisations and what the worker read or wrote, oldest first. -/
structure StartUp (Queue : Type u) where
  pipeline : Pipeline Queue
  uninitialised : List Member := Member.declarations
  pending : List Trade
  producer : Producer := .ready
  worker : Stage := .absent
  accesses : List Access := []

inductive Event
  | construct
  | submit (nowNs : UInt64)
  | push
  | finish
  | join
  | pop
  | observe (nowNs : UInt64)
  | hash
  | count
  | load
  deriving DecidableEq

namespace StartUp

variable {capacity : Nat} (F : BoundedFifo.{0, u} Trade capacity)

def start (memory : Pipeline F.Carrier) (trades : List Trade) : StartUp F.Carrier where
  pipeline := memory
  pending := trades

def initialise (p : Pipeline F.Carrier) : Member → Pipeline F.Carrier
  | .queue => { p with queue := F.empty }
  | .producerDone => { p with producerDone := false }
  | .worker => p
  | .histogram => { p with histogram := {} }
  | .events => { p with events := 0 }
  | .backpressure => { p with backpressure := 0 }
  | .checksum => { p with checksum := hashOffset }
  | .finished => { p with finished := false }

def construct (s : StartUp F.Carrier) : Option (StartUp F.Carrier) :=
  match s.uninitialised with
  | member :: rest => some { s with
      pipeline := initialise F s.pipeline member
      uninitialised := rest
      worker := if member = .worker then .popping else s.worker
      accesses := s.accesses ++ [.initialised member] }
  | [] => none

/-- The calls of the producer come after the constructor has returned. -/
def submit (s : StartUp F.Carrier) (nowNs : UInt64) : Option (StartUp F.Carrier) :=
  match s.uninitialised, s.producer, s.pending with
  | [], .ready, value :: rest =>
    some { s with pending := rest, producer := .pushing (System.stamp value nowNs) }
  | _, _, _ => none

def push (s : StartUp F.Carrier) : Option (StartUp F.Carrier) :=
  match s.uninitialised, s.producer with
  | [], .pushing value =>
    match F.tryPush s.pipeline.queue value with
    | some queue => some { s with
        pipeline := { s.pipeline with queue := queue }
        producer := .ready }
    | none => some { s with
        pipeline := { s.pipeline with backpressure := s.pipeline.backpressure + 1 } }
  | _, _ => none

def finish (s : StartUp F.Carrier) : Option (StartUp F.Carrier) :=
  match s.uninitialised, s.producer, s.pending with
  | [], .ready, [] => some { s with
      pipeline := { s.pipeline with producerDone := true }
      producer := .joining }
  | _, _, _ => none

def join (s : StartUp F.Carrier) : Option (StartUp F.Carrier) :=
  match s.uninitialised, s.producer, s.worker with
  | [], .joining, .left => some { s with
      pipeline := { s.pipeline with finished := true }
      producer := .joined }
  | _, _, _ => none

def goOn (s : StartUp F.Carrier) (stage : Stage) : StartUp F.Carrier :=
  { s with worker := stage, accesses := s.accesses ++ s.worker.touches.map .worker }

def pop (s : StartUp F.Carrier) : Option (StartUp F.Carrier) :=
  match s.worker with
  | .popping =>
    match F.tryPop s.pipeline.queue with
    | some (value, queue) =>
      some { s.goOn F (.observing value) with pipeline := { s.pipeline with queue := queue } }
    | none => some (s.goOn F .loading)
  | _ => none

def observe (s : StartUp F.Carrier) (nowNs : UInt64) : Option (StartUp F.Carrier) :=
  match s.worker with
  | .observing value => some { s.goOn F (.hashing value) with
      pipeline := { s.pipeline with
        histogram := s.pipeline.histogram.observe (nowNs - value.enqueuedNs) } }
  | _ => none

def hash (s : StartUp F.Carrier) : Option (StartUp F.Carrier) :=
  match s.worker with
  | .hashing value => some { s.goOn F .counting with
      pipeline := { s.pipeline with checksum := updateChecksum s.pipeline.checksum value } }
  | _ => none

def count (s : StartUp F.Carrier) : Option (StartUp F.Carrier) :=
  match s.worker with
  | .counting => some { s.goOn F .popping with
      pipeline := { s.pipeline with events := s.pipeline.events + 1 } }
  | _ => none

def load (s : StartUp F.Carrier) : Option (StartUp F.Carrier) :=
  match s.worker with
  | .loading => some (s.goOn F (if s.pipeline.producerDone then .left else .popping))
  | _ => none

def step (s : StartUp F.Carrier) : Event → Option (StartUp F.Carrier)
  | .construct => s.construct F
  | .submit nowNs => s.submit F nowNs
  | .push => s.push F
  | .finish => s.finish F
  | .join => s.join F
  | .pop => s.pop F
  | .observe nowNs => s.observe F nowNs
  | .hash => s.hash F
  | .count => s.count F
  | .load => s.load F

inductive Moves (s : StartUp F.Carrier) : Event → StartUp F.Carrier → Prop
  | construct {member rest} : s.uninitialised = member :: rest → Moves s .construct { s with
      pipeline := initialise F s.pipeline member
      uninitialised := rest
      worker := if member = .worker then .popping else s.worker
      accesses := s.accesses ++ [.initialised member] }
  | submit {value rest} (nowNs : UInt64) : s.uninitialised = [] → s.producer = .ready →
      s.pending = value :: rest → Moves s (.submit nowNs)
        { s with pending := rest, producer := .pushing (System.stamp value nowNs) }
  | push {value queue} : s.uninitialised = [] → s.producer = .pushing value →
      F.tryPush s.pipeline.queue value = some queue →
      Moves s .push { s with pipeline := { s.pipeline with queue := queue }, producer := .ready }
  | full {value} : s.uninitialised = [] → s.producer = .pushing value →
      F.tryPush s.pipeline.queue value = none → Moves s .push { s with
        pipeline := { s.pipeline with backpressure := s.pipeline.backpressure + 1 } }
  | finish : s.uninitialised = [] → s.producer = .ready → s.pending = [] →
      Moves s .finish
        { s with pipeline := { s.pipeline with producerDone := true }, producer := .joining }
  | join : s.uninitialised = [] → s.producer = .joining → s.worker = .left →
      Moves s .join
        { s with pipeline := { s.pipeline with finished := true }, producer := .joined }
  | pop {value queue} : s.worker = .popping → F.tryPop s.pipeline.queue = some (value, queue) →
      Moves s .pop
        { s.goOn F (.observing value) with pipeline := { s.pipeline with queue := queue } }
  | empty : s.worker = .popping → F.tryPop s.pipeline.queue = none →
      Moves s .pop (s.goOn F .loading)
  | observe {value} (nowNs : UInt64) : s.worker = .observing value →
      Moves s (.observe nowNs) { s.goOn F (.hashing value) with
        pipeline := { s.pipeline with
          histogram := s.pipeline.histogram.observe (nowNs - value.enqueuedNs) } }
  | hash {value} : s.worker = .hashing value → Moves s .hash { s.goOn F .counting with
      pipeline := { s.pipeline with checksum := updateChecksum s.pipeline.checksum value } }
  | count : s.worker = .counting → Moves s .count { s.goOn F .popping with
      pipeline := { s.pipeline with events := s.pipeline.events + 1 } }
  | load : s.worker = .loading →
      Moves s .load (s.goOn F (if s.pipeline.producerDone then .left else .popping))

variable {F}

theorem Moves.of_step {s t : StartUp F.Carrier} {e : Event} (h : step F s e = some t) :
    Moves F s e t := by
  cases e with
  | construct =>
    simp only [step, StartUp.construct] at h
    split at h
    · rename_i hrest; cases h; exact .construct hrest
    · cases h
  | submit nowNs =>
    simp only [step, StartUp.submit] at h
    split at h
    · rename_i hdone hproducer hpending; cases h; exact .submit nowNs hdone hproducer hpending
    · cases h
  | push =>
    simp only [step, StartUp.push] at h
    split at h
    · rename_i hdone hproducer
      split at h
      · rename_i hpush; cases h; exact .push hdone hproducer hpush
      · rename_i hpush; cases h; exact .full hdone hproducer hpush
    · cases h
  | finish =>
    simp only [step, StartUp.finish] at h
    split at h
    · rename_i hdone hproducer hpending; cases h; exact .finish hdone hproducer hpending
    · cases h
  | join =>
    simp only [step, StartUp.join] at h
    split at h
    · rename_i hdone hproducer hworker; cases h; exact .join hdone hproducer hworker
    · cases h
  | pop =>
    simp only [step, StartUp.pop] at h
    split at h
    · rename_i hworker
      split at h
      · rename_i hpop; cases h; exact .pop hworker hpop
      · rename_i hpop; cases h; exact .empty hworker hpop
    · cases h
  | observe nowNs =>
    simp only [step, StartUp.observe] at h
    split at h
    · rename_i hworker; cases h; exact .observe nowNs hworker
    · cases h
  | hash =>
    simp only [step, StartUp.hash] at h
    split at h
    · rename_i hworker; cases h; exact .hash hworker
    · cases h
  | count =>
    simp only [step, StartUp.count] at h
    split at h
    · rename_i hworker; cases h; exact .count hworker
    · cases h
  | load =>
    simp only [step, StartUp.load] at h
    split at h
    · rename_i hworker; cases h; exact .load hworker
    · cases h

section Members

theorem mem_declarations (member : Member) : member ∈ Member.declarations := by
  cases member <;> decide

theorem declared_before_worker {rest : List Member} (h : rest <:+ Member.declarations)
    (hworker : .worker ∉ rest) : .queue ∉ rest ∧ .producerDone ∉ rest := by
  have hall : ∀ rest ∈ Member.declarations.tails, .worker ∉ rest →
      .queue ∉ rest ∧ .producerDone ∉ rest := by
    decide
  exact hall rest ((List.mem_tails _ _).2 h) hworker

theorem not_mem_of_suffix {member : Member} {rest : List Member}
    (h : member :: rest <:+ Member.declarations) : member ∉ rest := by
  have hnodup : (member :: rest).Nodup := h.sublist.nodup (by decide)
  exact (List.nodup_cons.1 hnodup).1

def Fresh (p : Pipeline F.Carrier) : Member → Prop
  | .queue => p.queue = F.empty
  | .producerDone => p.producerDone = false
  | .worker => True
  | .histogram => p.histogram = {}
  | .events => p.events = 0
  | .backpressure => p.backpressure = 0
  | .checksum => p.checksum = hashOffset
  | .finished => p.finished = false

theorem fresh_initialise (p : Pipeline F.Carrier) (member : Member) :
    Fresh (initialise F p member) member := by
  cases member <;> trivial

theorem Fresh.initialise {p : Pipeline F.Carrier} {member : Member} (h : Fresh p member)
    (other : Member) : Fresh (initialise F p other) member := by
  cases other <;> cases member <;> first | exact h | trivial

theorem eq_of_fresh {p : Pipeline F.Carrier} (h : ∀ member, Fresh p member) :
    p = { queue := F.empty } := by
  cases p
  simp only [Pipeline.mk.injEq]
  exact ⟨h .queue, h .producerDone, h .histogram, h .events, h .backpressure, h .checksum,
    h .finished⟩

end Members

section Construction

variable {trades : List Trade} {s t : StartUp F.Carrier} {e : Event}

/-- While the constructor runs, the worker, if it is there at all, finds the queue empty. -/
structure Constructing (trades : List Trade) (s : StartUp F.Carrier) : Prop where
  suffix : s.uninitialised <:+ Member.declarations
  fresh : ∀ member, member ∉ s.uninitialised → Fresh s.pipeline member
  pending : s.pending = trades
  producer : s.producer = .ready
  absent : .worker ∈ s.uninitialised → s.worker = .absent
  waiting : .worker ∉ s.uninitialised → s.worker = .popping ∨ s.worker = .loading

theorem constructing_start (memory : Pipeline F.Carrier) (trades : List Trade) :
    Constructing trades (start F memory trades) where
  suffix := List.suffix_rfl
  fresh member hmember := absurd (mem_declarations member) hmember
  pending := rfl
  producer := rfl
  absent _ := rfl
  waiting hworker := absurd (mem_declarations .worker) hworker

theorem tryPop_empty : F.tryPop F.empty = none :=
  F.tryPop_eq_none_iff.2 F.items_empty

namespace Constructing

theorem started (h : Constructing trades s) (hworker : s.worker ≠ .absent) :
    .worker ∉ s.uninitialised := fun hmem => hworker (h.absent hmem)

theorem waits (h : Constructing trades s) :
    s.worker = .absent ∨ s.worker = .popping ∨ s.worker = .loading := by
  by_cases hworker : .worker ∈ s.uninitialised
  · exact .inl (h.absent hworker)
  · exact .inr (h.waiting hworker)

theorem construct {member : Member} {rest : List Member} (h : Constructing trades s)
    (hrest : s.uninitialised = member :: rest) : Constructing trades { s with
      pipeline := initialise F s.pipeline member
      uninitialised := rest
      worker := if member = .worker then .popping else s.worker
      accesses := s.accesses ++ [.initialised member] } := by
  have hsuffix := h.suffix
  rw [hrest] at hsuffix
  constructor
  · exact (List.suffix_cons member rest).trans hsuffix
  · intro other hother
    by_cases hsame : other = member
    · exact hsame ▸ fresh_initialise s.pipeline other
    · apply Fresh.initialise
      apply h.fresh
      rw [hrest, List.mem_cons, not_or]
      exact ⟨hsame, hother⟩
  · exact h.pending
  · exact h.producer
  · intro hworker
    have hne : member ≠ .worker := fun hsame => not_mem_of_suffix hsuffix (hsame ▸ hworker)
    rw [if_neg hne]
    exact h.absent (hrest ▸ List.mem_cons_of_mem member hworker)
  · intro hworker
    by_cases hsame : member = .worker
    · exact .inl (if_pos hsame)
    · rw [if_neg hsame]
      apply h.waiting
      rw [hrest, List.mem_cons, not_or]
      exact ⟨fun heq => hsame heq.symm, hworker⟩

theorem goOn {stage : Stage} (h : Constructing trades s) (hworker : s.worker ≠ .absent)
    (hstage : stage = .popping ∨ stage = .loading) : Constructing trades (s.goOn F stage) :=
  ⟨h.suffix, h.fresh, h.pending, h.producer, fun hmem => absurd (h.absent hmem) hworker,
    fun _ => hstage⟩

theorem step (h : Constructing trades s) (hopen : s.uninitialised ≠ [])
    (hstep : StartUp.step F s e = some t) : Constructing trades t := by
  have hwaits := h.waits
  cases Moves.of_step hstep with
  | construct hrest => exact h.construct hrest
  | submit _ hdone | push hdone | full hdone | finish hdone | join hdone => exact absurd hdone hopen
  | pop hworker hpop =>
    have hempty : s.pipeline.queue = F.empty :=
      h.fresh .queue (declared_before_worker h.suffix (h.started (by simp [hworker]))).1
    rw [hempty, tryPop_empty] at hpop
    cases hpop
  | empty hworker => exact h.goOn (by simp [hworker]) (.inr rfl)
  | observe _ hworker | hash hworker | count hworker => simp [hworker] at hwaits
  | load hworker =>
    have hdone : s.pipeline.producerDone = false :=
      h.fresh .producerDone (declared_before_worker h.suffix (h.started (by simp [hworker]))).2
    rw [hdone]
    exact h.goOn (by simp [hworker]) (.inl rfl)

end Constructing

end Construction

section Refinement

/-- The worker of the coarser model, in which the body of the loop is one step. -/
def coarse : Stage → Worker
  | .absent | .popping | .hashing _ | .counting => .popping
  | .observing value => .observing value
  | .loading => .loading
  | .left => .left

/-- The pipeline when the body of the loop is done. -/
def settled (s : StartUp F.Carrier) : Pipeline F.Carrier :=
  match s.worker with
  | .hashing value => { s.pipeline with
      checksum := updateChecksum s.pipeline.checksum value, events := s.pipeline.events + 1 }
  | .counting => { s.pipeline with events := s.pipeline.events + 1 }
  | _ => s.pipeline

structure Refines (s : StartUp F.Carrier) (t : System F.Carrier) : Prop where
  pipeline : t.pipeline = settled s
  pending : t.pending = s.pending
  producer : t.producer = s.producer
  worker : t.worker = coarse s.worker

structure Running (trades : List Trade) (s : StartUp F.Carrier) : Prop where
  constructed : s.uninitialised = []
  reached : ∃ steps t, (System.initial F trades).run F steps = some t ∧ Refines s t

variable {trades : List Trade} {s t : StartUp F.Carrier} {e : Event}

theorem settled_queue (s : StartUp F.Carrier) : (settled s).queue = s.pipeline.queue := by
  unfold settled
  split <;> rfl

theorem settled_producerDone (s : StartUp F.Carrier) :
    (settled s).producerDone = s.pipeline.producerDone := by
  unfold settled
  split <;> rfl

theorem settled_backpressure (s : StartUp F.Carrier) :
    (settled s).backpressure = s.pipeline.backpressure := by
  unfold settled
  split <;> rfl

theorem settled_hashing {value : Trade} (h : s.worker = .hashing value) : settled s =
    { s.pipeline with
      checksum := updateChecksum s.pipeline.checksum value, events := s.pipeline.events + 1 } := by
  simp only [settled, h]

theorem settled_hashed (s : StartUp F.Carrier) (checksum : UInt64) :
    settled { s.goOn F .counting with pipeline := { s.pipeline with checksum := checksum } } =
      { s.pipeline with checksum := checksum, events := s.pipeline.events + 1 } := rfl

theorem Constructing.running (h : Constructing trades s) (hdone : s.uninitialised = []) :
    Running trades s := by
  have hnone : ∀ member, member ∉ s.uninitialised := by simp [hdone]
  have hpipeline : s.pipeline = { queue := F.empty } :=
    eq_of_fresh fun member => h.fresh member (hnone member)
  refine ⟨hdone, ?_⟩
  rcases h.waiting (hnone .worker) with hworker | hworker
  · refine ⟨[], System.initial F trades, rfl, ?_, h.pending.symm, h.producer.symm, ?_⟩
    · simp [settled, hworker, hpipeline, System.initial]
    · simp [coarse, hworker, System.initial]
  · have hpop : System.step F (System.initial F trades) .pop =
        some { System.initial F trades with worker := .loading } :=
      (System.Moves.empty rfl tryPop_empty).step_eq
    refine ⟨[.pop], _, by rw [System.run, Transition.run_cons, hpop]; rfl, ?_, h.pending.symm,
      h.producer.symm, ?_⟩
    · simp [settled, hworker, hpipeline, System.initial]
    · simp [coarse, hworker]

theorem Running.step (h : Running trades s) (hstep : StartUp.step F s e = some t) :
    Running trades t := by
  obtain ⟨hdone, steps, r, hrun, href⟩ := h
  -- the coarser system takes at most one step for a step of the finer one
  have hnext : ∀ {a : Step} {r' : System F.Carrier}, System.Moves F r a r' →
      (System.initial F trades).run F (steps ++ [a]) = some r' := by
    intro a r' hmove
    rw [System.run] at hrun ⊢
    rw [Transition.run_append, hrun]
    simp [hmove.step_eq]
  have hqueue : r.pipeline.queue = s.pipeline.queue := by rw [href.pipeline, settled_queue]
  cases Moves.of_step hstep with
  | construct hrest => rw [hdone] at hrest; cases hrest
  | submit nowNs _ hproducer hpending =>
    refine ⟨hdone, _, _, hnext (.submit nowNs (href.producer.trans hproducer)
      (href.pending.trans hpending)), ?_⟩
    exact ⟨href.pipeline, rfl, rfl, href.worker⟩
  | push _ hproducer hpush =>
    refine ⟨hdone, _, _, hnext (.push (href.producer.trans hproducer) (hqueue ▸ hpush)), ?_⟩
    refine ⟨?_, href.pending, rfl, href.worker⟩
    simp only [href.pipeline, settled]
    split <;> rfl
  | full _ hproducer hpush =>
    refine ⟨hdone, _, _, hnext (.full (href.producer.trans hproducer) (hqueue ▸ hpush)), ?_⟩
    refine ⟨?_, href.pending, href.producer, href.worker⟩
    simp only [href.pipeline, settled_backpressure]
    simp only [settled]
    split <;> rfl
  | finish _ hproducer hpending =>
    refine ⟨hdone, _, _, hnext (.finish (href.producer.trans hproducer)
      (href.pending.trans hpending)), ?_⟩
    refine ⟨?_, href.pending, rfl, href.worker⟩
    simp only [href.pipeline, settled]
    split <;> rfl
  | join _ hproducer hworker =>
    have hleft : r.worker = .left := by rw [href.worker, hworker]; rfl
    refine ⟨hdone, _, _, hnext (.join (href.producer.trans hproducer) hleft), ?_⟩
    refine ⟨?_, href.pending, rfl, href.worker⟩
    simp only [href.pipeline, settled, hworker]
  | pop hworker hpop =>
    have hpopping : r.worker = .popping := by rw [href.worker, hworker]; rfl
    refine ⟨hdone, _, _, hnext (.pop hpopping (hqueue ▸ hpop)), ?_⟩
    refine ⟨?_, href.pending, href.producer, rfl⟩
    simp only [href.pipeline, settled, hworker, StartUp.goOn]
  | empty hworker hpop =>
    have hpopping : r.worker = .popping := by rw [href.worker, hworker]; rfl
    refine ⟨hdone, _, _, hnext (.empty hpopping (hqueue ▸ hpop)), ?_⟩
    refine ⟨?_, href.pending, href.producer, rfl⟩
    simp only [href.pipeline, settled, hworker, StartUp.goOn]
  | @observe value nowNs hworker =>
    have hobserving : r.worker = .observing value := by rw [href.worker, hworker]; rfl
    refine ⟨hdone, _, _, hnext (.observe nowNs hobserving), ?_⟩
    refine ⟨?_, href.pending, href.producer, rfl⟩
    simp only [href.pipeline, settled, hworker, StartUp.goOn]
  | hash hworker =>
    refine ⟨hdone, steps, r, hrun, ?_, href.pending, href.producer, ?_⟩
    · rw [href.pipeline, settled_hashing hworker, settled_hashed]
    · rw [href.worker, hworker]; rfl
  | count hworker =>
    refine ⟨hdone, steps, r, hrun, ?_, href.pending, href.producer, ?_⟩
    · simp only [href.pipeline, settled, hworker, StartUp.goOn]
    · rw [href.worker, hworker]; rfl
  | load hworker =>
    have hloading : r.worker = .loading := by rw [href.worker, hworker]; rfl
    have hflag : r.pipeline.producerDone = s.pipeline.producerDone := by
      rw [href.pipeline, settled_producerDone]
    have hpipeline : r.pipeline = s.pipeline := by
      simp only [href.pipeline, settled, hworker]
    cases hclosed : s.pipeline.producerDone with
    | true =>
      refine ⟨hdone, _, _, hnext (.leave hloading (hflag.trans hclosed)), ?_⟩
      exact ⟨hpipeline, href.pending, href.producer, rfl⟩
    | false =>
      refine ⟨hdone, _, _, hnext (.retry hloading (hflag.trans hclosed)), ?_⟩
      exact ⟨hpipeline, href.pending, href.producer, rfl⟩

end Refinement

section Accesses

variable {trades : List Trade} {s t : StartUp F.Carrier} {e : Event}

/-- The worker touches a member after its initialisation and never before. -/
structure Ordered (accesses : List Access) : Prop where
  initialised : ∀ before member rest, accesses = before ++ .worker member :: rest →
    .initialised member ∈ before
  kept : ∀ before member rest, accesses = before ++ .initialised member :: rest →
    .worker member ∉ before

theorem ordered_nil : Ordered [] := by
  constructor <;> intro before member rest h <;> simp at h

theorem split_snoc {α : Type _} {l before rest : List α} {a b : α}
    (h : l ++ [a] = before ++ b :: rest) :
    (rest = [] ∧ l = before ∧ a = b) ∨
      ∃ shorter, rest = shorter ++ [a] ∧ l = before ++ b :: shorter := by
  rcases List.eq_nil_or_concat' rest with rfl | ⟨shorter, last, rfl⟩
  · obtain ⟨hl, ha⟩ := List.append_inj' h rfl
    exact .inl ⟨rfl, hl, List.head_eq_of_cons_eq ha⟩
  · rw [← List.cons_append, ← List.append_assoc] at h
    obtain ⟨hl, ha⟩ := List.append_inj' h rfl
    cases List.head_eq_of_cons_eq ha
    exact .inr ⟨shorter, rfl, hl⟩

theorem Ordered.worker {accesses : List Access} (h : Ordered accesses) {member : Member}
    (hmember : .initialised member ∈ accesses) : Ordered (accesses ++ [.worker member]) := by
  constructor
  · intro before other rest hsplit
    rcases split_snoc hsplit with ⟨-, rfl, hsame⟩ | ⟨shorter, -, hshorter⟩
    · cases hsame
      exact hmember
    · exact h.initialised before other shorter hshorter
  · intro before other rest hsplit
    rcases split_snoc hsplit with ⟨-, -, hsame⟩ | ⟨shorter, -, hshorter⟩
    · cases hsame
    · exact h.kept before other shorter hshorter

theorem Ordered.construct {accesses : List Access} (h : Ordered accesses) {member : Member}
    (hmember : .worker member ∉ accesses) : Ordered (accesses ++ [.initialised member]) := by
  constructor
  · intro before other rest hsplit
    rcases split_snoc hsplit with ⟨-, -, hsame⟩ | ⟨shorter, -, hshorter⟩
    · cases hsame
    · exact h.initialised before other shorter hshorter
  · intro before other rest hsplit
    rcases split_snoc hsplit with ⟨-, rfl, hsame⟩ | ⟨shorter, -, hshorter⟩
    · cases hsame
      exact hmember
    · exact h.kept before other shorter hshorter

theorem Ordered.mem {accesses : List Access} (h : Ordered accesses) {member : Member}
    (hmember : .worker member ∈ accesses) : .initialised member ∈ accesses := by
  obtain ⟨before, rest, rfl⟩ := List.append_of_mem hmember
  exact List.mem_append_left _ (h.initialised before member rest rfl)

structure Safe (trades : List Trade) (s : StartUp F.Carrier) : Prop where
  constructing : s.uninitialised ≠ [] → Constructing trades s
  running : s.uninitialised = [] → Running trades s
  ready : ∀ member ∈ s.worker.touches, member ∉ s.uninitialised
  logged : ∀ member, .initialised member ∈ s.accesses ↔ member ∉ s.uninitialised
  ordered : Ordered s.accesses

theorem Constructing.ready (h : Constructing trades s) :
    ∀ member ∈ s.worker.touches, member ∉ s.uninitialised := by
  rcases h.waits with hworker | hworker | hworker
  · simp [hworker, Stage.touches]
  · have hstarted := h.started (by simp [hworker])
    simpa [hworker, Stage.touches] using (declared_before_worker h.suffix hstarted).1
  · have hstarted := h.started (by simp [hworker])
    simpa [hworker, Stage.touches] using (declared_before_worker h.suffix hstarted).2

theorem safe_start (memory : Pipeline F.Carrier) (trades : List Trade) :
    Safe trades (start F memory trades) where
  constructing _ := constructing_start memory trades
  running hdone := by cases hdone
  ready := (constructing_start memory trades).ready
  logged member := by simpa [start] using mem_declarations member
  ordered := ordered_nil

theorem accesses_step (hstep : StartUp.step F s e = some t) :
    (∃ member, s.uninitialised = member :: t.uninitialised ∧
      t.accesses = s.accesses ++ [.initialised member]) ∨
    (t.uninitialised = s.uninitialised ∧ ∃ member ∈ s.worker.touches,
      t.accesses = s.accesses ++ [.worker member]) ∨
    (t.uninitialised = s.uninitialised ∧ t.accesses = s.accesses) := by
  have htouches {member : Member} (hmember : s.worker.touches = [member]) :
      ∃ member ∈ s.worker.touches,
        s.accesses ++ s.worker.touches.map .worker = s.accesses ++ [.worker member] := by
    simp [hmember]
  cases Moves.of_step hstep with
  | construct hrest => exact .inl ⟨_, hrest, rfl⟩
  | submit | push | full | finish | join => exact .inr (.inr ⟨rfl, rfl⟩)
  | pop hworker | empty hworker =>
    exact .inr (.inl ⟨rfl, @htouches .queue (by rw [hworker]; rfl)⟩)
  | observe _ hworker =>
    exact .inr (.inl ⟨rfl, @htouches .histogram (by rw [hworker]; rfl)⟩)
  | hash hworker =>
    exact .inr (.inl ⟨rfl, @htouches .checksum (by rw [hworker]; rfl)⟩)
  | count hworker =>
    exact .inr (.inl ⟨rfl, @htouches .events (by rw [hworker]; rfl)⟩)
  | load hworker =>
    exact .inr (.inl ⟨rfl, @htouches .producerDone (by rw [hworker]; rfl)⟩)

theorem Safe.step (h : Safe trades s) (hstep : StartUp.step F s e = some t) : Safe trades t := by
  -- the phase
  have hconstructing : s.uninitialised ≠ [] → Constructing trades t := fun hopen =>
    (h.constructing hopen).step hopen hstep
  have hrunning : s.uninitialised = [] → Running trades t := fun hdone =>
    (h.running hdone).step hstep
  have hphase : Constructing trades t ∨ Running trades t := by
    by_cases hdone : s.uninitialised = []
    · exact .inr (hrunning hdone)
    · exact .inl (hconstructing hdone)
  have hready : ∀ member ∈ t.worker.touches, member ∉ t.uninitialised := by
    rcases hphase with hphase | hphase
    · exact hphase.ready
    · simp [hphase.constructed]
  have hopen : t.uninitialised ≠ [] → Constructing trades t := by
    intro hopen
    rcases hphase with hphase | hphase
    · exact hphase
    · exact absurd hphase.constructed hopen
  have hdone : t.uninitialised = [] → Running trades t := by
    intro hdone
    rcases hphase with hphase | hphase
    · exact hphase.running hdone
    · exact hphase
  -- the log
  rcases accesses_step hstep with ⟨member, hrest, haccesses⟩ | ⟨hsame, member, hmember, haccesses⟩ |
    ⟨hsame, haccesses⟩
  · have hnot : .worker member ∉ s.accesses := fun hmem =>
      (h.logged member).1 (h.ordered.mem hmem) (hrest ▸ List.mem_cons_self)
    have hsuffix := (h.constructing (by simp [hrest])).suffix
    have hfresh : member ∉ t.uninitialised := not_mem_of_suffix (hrest ▸ hsuffix)
    refine ⟨hopen, hdone, hready, fun other => ?_, haccesses ▸ h.ordered.construct hnot⟩
    rw [haccesses, List.mem_append, List.mem_singleton, h.logged, hrest, List.mem_cons]
    by_cases heq : other = member
    · simp [heq, hfresh]
    · simp [heq]
  · have hinitialised := (h.logged member).2 (h.ready member hmember)
    refine ⟨hopen, hdone, hready, fun other => ?_, haccesses ▸ h.ordered.worker hinitialised⟩
    rw [haccesses, hsame, ← h.logged]
    simp
  · refine ⟨hopen, hdone, hready, fun other => ?_, haccesses ▸ h.ordered⟩
    rw [haccesses, hsame, h.logged]

theorem safe_of_run {memory : Pipeline F.Carrier} {events : List Event}
    (h : Transition.run (StartUp.step F) (start F memory trades) events = some s) :
    Safe trades s :=
  Transition.run_invariant Safe.step (safe_start memory trades) h

end Accesses

section Runs

variable {memory : Pipeline F.Carrier} {trades : List Trade} {events : List Event}
  {s : StartUp F.Carrier}

/-- Whatever was in the memory of the pipeline, a constructed one is in a state of the model in
which construction is atomic. -/
theorem refines_pipeline
    (h : Transition.run (StartUp.step F) (start F memory trades) events = some s)
    (hdone : s.uninitialised = []) :
    ∃ steps t, (System.initial F trades).run F steps = some t ∧ Refines s t :=
  ((safe_of_run h).running hdone).reached

/-- In every interleaving the worker touches members only after their initialisation, and none is
initialised after the worker has touched it. -/
theorem touches_after_initialisation
    (h : Transition.run (StartUp.step F) (start F memory trades) events = some s) :
    (∀ member ∈ s.worker.touches, .initialised member ∈ s.accesses) ∧ Ordered s.accesses := by
  have hsafe := safe_of_run h
  refine ⟨fun member hmember => ?_, hsafe.ordered⟩
  exact (hsafe.logged member).2 (hsafe.ready member hmember)

end Runs

/-- The worker looks twice at the queue before the last members are initialised. -/
def earlyWorker : List Event :=
  [.construct, .construct, .construct, .pop, .construct, .load, .pop, .construct, .construct,
    .construct, .construct, .submit 5, .push, .load, .pop, .observe 9, .hash, .count]

def earlyTrade : Trade where
  tradeId := .empty 24
  productId := .empty 20
  price := 1
  size := 1
  side := .buy
  sourceTimeNs := 0

def earlyMemory : Pipeline (BoundedFifo.ofList Trade 1).Carrier where
  queue := ⟨[earlyTrade], Nat.le_refl 1⟩
  producerDone := true
  events := 7

theorem touches_after_initialisation_early :
    ∃ s, Transition.run (StartUp.step (.ofList Trade 1)) (start _ earlyMemory [earlyTrade])
        earlyWorker = some s ∧
      s.accesses.countP (· = .worker .events) = 1 ∧
      (∀ member ∈ s.worker.touches, .initialised member ∈ s.accesses) ∧ Ordered s.accesses := by
  obtain ⟨s, hs, hcount⟩ : ∃ s, Transition.run (StartUp.step (.ofList Trade 1))
      (start _ earlyMemory [earlyTrade]) earlyWorker = some s ∧
        s.accesses.countP (· = .worker .events) = 1 := ⟨_, rfl, rfl⟩
  exact ⟨s, hs, hcount, touches_after_initialisation hs⟩

theorem refines_pipeline_early :
    ∃ s, Transition.run (StartUp.step (.ofList Trade 1)) (start _ earlyMemory [earlyTrade])
        earlyWorker = some s ∧
      s.uninitialised = [] ∧ s.pipeline.events = 1 ∧
      ∃ steps t, (System.initial (.ofList Trade 1) [earlyTrade]).run _ steps = some t ∧
        Refines s t := by
  obtain ⟨s, hs, hdone, hcount⟩ : ∃ s, Transition.run (StartUp.step (.ofList Trade 1))
      (start _ earlyMemory [earlyTrade]) earlyWorker = some s ∧
        s.uninitialised = [] ∧ s.pipeline.events = 1 := ⟨_, rfl, rfl, rfl⟩
  exact ⟨s, hs, hdone, hcount, refines_pipeline hs hdone⟩

end StartUp

end BengalMarket
