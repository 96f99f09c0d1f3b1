import BengalMarket.Library.Simulation
import BengalMarket.Pipeline.Comparison
import BengalMarket.Reader.Splitting

/-! `replay_with` as one transition system: the reader fetches a line only when the trades of the
one before it are in the queue, and the worker consumes meanwhile. -/

universe u

namespace BengalMarket

open Reader (readBoundedLine readLoop readCapture)

namespace Reader

variable {J : JsonLibrary}

def outcomeOf : ReaderState × Option String → Except String ParseMetrics
  | (_, some error) => .error error
  | (s, none) => if s.metadataSeen then .ok s.metrics else .error "capture has no metadata record"

theorem readCapture_eq (path : String) (stream : Bytes) :
    readCapture J path (some stream) =
      ⟨(readLoop J {} stream).1.delivered, outcomeOf (readLoop J {} stream)⟩ := by
  rw [readCapture]
  rcases readLoop J {} stream with ⟨s, _ | error⟩
  · cases hseen : s.metadataSeen <;> simp [outcomeOf, hseen]
  · rfl

theorem delivered_step (s : ReaderState) (line : Bytes) :
    s.delivered <+: (step J s line).delivered := by
  cases hseen : s.metadataSeen with
  | false => rw [delivered_of_unseen hseen]
  | true =>
    rw [delivered_of_seen hseen]
    exact List.prefix_append _ _

theorem delivered_readLoop (s : ReaderState) (stream : Bytes) :
    s.delivered <+: (readLoop J s stream).1.delivered := by
  rw [readLoop_eq_readAll]
  induction (readAll stream).lines generalizing s with
  | nil => exact List.prefix_rfl
  | cons line lines ih => exact (delivered_step s line).trans (ih _)

theorem readLoop_of_error {s : ReaderState} {stream : Bytes} {error : String}
    (h : readBoundedLine [] stream = .error error) : readLoop J s stream = (s, some error) := by
  rw [readLoop]
  split <;> simp_all

theorem readLoop_of_end {s : ReaderState} {stream line rest : Bytes}
    (h : readBoundedLine [] stream = .ok (false, line, rest)) :
    readLoop J s stream = (s, none) := by
  rw [readLoop]
  split <;> simp_all

theorem readLoop_of_line {s : ReaderState} {stream line rest : Bytes}
    (h : readBoundedLine [] stream = .ok (true, line, rest)) :
    readLoop J s stream = readLoop J (step J s line) rest := by
  rw [readLoop]
  split <;> simp_all

end Reader

/-- The reader beside both threads.  `ended` is how `read_capture` was left: with a value or with an
exception, and then the destructor of the pipeline calls `finish`. -/
structure Replay (Queue : Type u) where
  reader : ReaderState := {}
  stream : Bytes := []
  ended : Option (Except String ParseMetrics) := none
  system : System Queue

namespace Replay

inductive Event
  | line
  | pipeline (step : Step)

def Event.step? : Event → Option Step
  | .line => none
  | .pipeline a => some a

variable (J : JsonLibrary) {capacity : Nat} (F : BoundedFifo.{0, u} Trade capacity)

def start (path : String) : Option Bytes → Replay F.Carrier
  | none => {
      ended := some (.error ("cannot open capture: " ++ path))
      system := .initial F [] }
  | some stream => { stream := stream, system := .initial F [] }

def handOver {Queue : Type u} (r : Replay Queue) (line rest : Bytes) : Replay Queue :=
  let reader := Reader.step J r.reader line
  { r with
    reader := reader
    stream := rest
    system := { r.system with
      pending := reader.delivered.drop r.reader.delivered.length } }

def nextLine {Queue : Type u} (r : Replay Queue) : Option (Replay Queue) :=
  match r.ended, r.system.producer, r.system.pending with
  | none, .ready, [] =>
    match readBoundedLine [] r.stream with
    | .error error => some { r with ended := some (.error error) }
    | .ok (false, _, _) => some { r with ended := some (Reader.outcomeOf (r.reader, none)) }
    | .ok (true, line, rest) => some (r.handOver J line rest)
  | _, _, _ => none

/-- `finish` waits for the reader to be left. -/
def mayTake {Queue : Type u} (r : Replay Queue) : Step → Bool
  | .finish => r.ended.isSome
  | _ => true

def step (r : Replay F.Carrier) : Event → Option (Replay F.Carrier)
  | .line => r.nextLine J
  | .pipeline a =>
    if r.mayTake a then (System.step F r.system a).map fun t => { r with system := t } else none

def run (r : Replay F.Carrier) (events : List Event) : Option (Replay F.Carrier) :=
  Transition.run (step J F) r events

/-- What `replay_with` returns or throws after the join. -/
def result {Queue : Type u} (r : Replay Queue) (engine : String) (elapsedNs : UInt64) :
    Option (Except String ReplayReport) :=
  r.ended.map fun ended => ended.map fun input => r.system.pipeline.report engine input elapsedNs

section Future

def future {Queue : Type u} (r : Replay Queue) : List Trade × Except String ParseMetrics :=
  match r.ended with
  | some outcome => ([], outcome)
  | none =>
    let loop := readLoop J r.reader r.stream
    (loop.1.delivered.drop r.reader.delivered.length, Reader.outcomeOf loop)

def followedBy {Queue : Type u} (s : System Queue) (more : List Trade) : System Queue :=
  { s with pending := s.pending ++ more }

def ahead {Queue : Type u} (r : Replay Queue) : System Queue := followedBy r.system (r.future J).1

@[simp] theorem producer_ahead {Queue : Type u} (r : Replay Queue) :
    (r.ahead J).producer = r.system.producer := rfl

variable {J F} {r r' : Replay F.Carrier}

theorem future_of_ended {outcome : Except String ParseMetrics} (h : r.ended = some outcome) :
    r.future J = ([], outcome) := by rw [future, h]

theorem future_of_open (h : r.ended = none) :
    r.future J = ((readLoop J r.reader r.stream).1.delivered.drop r.reader.delivered.length,
      Reader.outcomeOf (readLoop J r.reader r.stream)) := by rw [future, h]

theorem future_handOver {line rest : Bytes} (hended : r.ended = none)
    (hline : readBoundedLine [] r.stream = .ok (true, line, rest)) :
    r.future J = ((r.handOver J line rest).system.pending ++ ((r.handOver J line rest).future J).1,
      ((r.handOver J line rest).future J).2) := by
  have hnext : (r.handOver J line rest).ended = none := hended
  rw [future_of_open hended, future_of_open hnext, Reader.readLoop_of_line hline]
  obtain ⟨now, hnow⟩ := Reader.delivered_step (J := J) r.reader line
  obtain ⟨later, hlater⟩ := Reader.delivered_readLoop (J := J) (Reader.step J r.reader line) rest
  simp only [handOver, ← hlater, ← hnow, List.append_assoc, List.drop_left]
  rw [← List.append_assoc, List.drop_left]

inductive Fetches (J : JsonLibrary) {Queue : Type u} (r : Replay Queue) : Replay Queue → Prop
  | handed {line rest : Bytes} (hline : readBoundedLine [] r.stream = .ok (true, line, rest)) :
    Fetches J r (r.handOver J line rest)
  | left {outcome : Except String ParseMetrics}
    (houtcome : outcome = Reader.outcomeOf (readLoop J r.reader r.stream))
    (hnothing : (readLoop J r.reader r.stream).1 = r.reader) :
    Fetches J r { r with ended := some outcome }

theorem nextLine_cases (h : r.nextLine J = some r') :
    r.ended = none ∧ r.system.producer = .ready ∧ r.system.pending = [] ∧ Fetches J r r' := by
  unfold nextLine at h
  split at h
  case h_1 hended hproducer hpending =>
    refine ⟨hended, hproducer, hpending, ?_⟩
    split at h
    · rename_i error hline
      cases h
      have hloop := Reader.readLoop_of_error (J := J) (s := r.reader) hline
      exact .left (by rw [hloop]; rfl) (by rw [hloop])
    · rename_i line rest hline
      cases h
      have hloop := Reader.readLoop_of_end (J := J) (s := r.reader) hline
      exact .left (by rw [hloop]) (by rw [hloop])
    · rename_i line rest hline
      cases h
      exact .handed hline
  case h_2 => cases h

theorem ahead_nextLine (h : r.nextLine J = some r') :
    r'.ahead J = r.ahead J ∧ (r'.future J).2 = (r.future J).2 := by
  obtain ⟨hended, -, hpending, hfetches⟩ := nextLine_cases h
  cases hfetches with
  | handed hline =>
    have hfuture := future_handOver (J := J) hended hline
    simp only [ahead, followedBy, hfuture, hpending, List.nil_append, and_true]
    rfl
  | @left outcome houtcome hnothing =>
    have hfuture := future_of_open (J := J) hended
    have hended' : ({ r with ended := some outcome } : Replay F.Carrier).future J = ([], outcome) :=
      future_of_ended rfl
    rw [hnothing, List.drop_length] at hfuture
    rw [ahead, ahead, hended', hfuture, houtcome]
    exact ⟨rfl, rfl⟩

theorem exists_nextLine (hended : r.ended = none) (hproducer : r.system.producer = .ready)
    (hpending : r.system.pending = []) :
    ∃ m, r.nextLine J = some m ∧ m.system.producer = .ready ∧
      (m.ended = none → m.stream.length < r.stream.length) := by
  cases hline : readBoundedLine [] r.stream with
  | error error =>
    refine ⟨{ r with ended := some (.error error) }, ?_, hproducer, fun hnone => by cases hnone⟩
    simp [nextLine, hended, hproducer, hpending, hline]
  | ok reading =>
    obtain ⟨read, line, rest⟩ := reading
    cases read with
    | false =>
      refine ⟨{ r with ended := some (Reader.outcomeOf (r.reader, none)) }, ?_, hproducer,
        fun hnone => by cases hnone⟩
      simp [nextLine, hended, hproducer, hpending, hline]
    | true =>
      refine ⟨r.handOver J line rest, ?_, hproducer, fun _ => Reader.length_rest_lt hline⟩
      simp [nextLine, hended, hproducer, hpending, hline]

theorem exists_lines (hproducer : r.system.producer = .ready) :
    ∃ count r', run J F r (List.replicate count .line) = some r' ∧
      (r'.ended.isSome ∨ r'.system.pending ≠ []) ∧ r'.system.producer = .ready ∧
      r'.ahead J = r.ahead J ∧ (r'.future J).2 = (r.future J).2 := by
  induction h : r.stream.length using Nat.strongRecOn generalizing r with
  | ind n ih =>
    by_cases hdone : r.ended.isSome ∨ r.system.pending ≠ []
    · exact ⟨0, r, rfl, hdone, hproducer, rfl, rfl⟩
    · obtain ⟨hended, hpending⟩ : r.ended = none ∧ r.system.pending = [] := by
        simpa [not_or] using hdone
      obtain ⟨m, hm, hready, hshorter⟩ := exists_nextLine (J := J) hended hproducer hpending
      obtain ⟨hahead, houtcome⟩ := ahead_nextLine hm
      have hrun (count : Nat) {r' : Replay F.Carrier}
          (hcount : run J F m (List.replicate count .line) = some r') :
          run J F r (List.replicate (count + 1) .line) = some r' := by
        rw [List.replicate_succ, run, Transition.run_cons, step, hm]
        exact hcount
      cases hmended : m.ended with
      | some outcome =>
        exact ⟨1, m, hrun 0 rfl, Or.inl (by simp [hmended]), hready, hahead, houtcome⟩
      | none =>
        obtain ⟨count, r', hcount, hover, hproducer', hahead', houtcome'⟩ :=
          ih _ (h ▸ hshorter hmended) hready rfl
        exact ⟨count + 1, r', hrun count hcount, hover, hproducer', hahead'.trans hahead,
          houtcome'.trans houtcome⟩

end Future

section Refinement

variable {J F} {r r' : Replay F.Carrier} {s t : System F.Carrier} {a : Step}

/-- Trades that come later are in nobody's way, but for the store of `finish`. -/
theorem followedBy_moves {more : List Trade} (h : System.Moves F s a t)
    (hfinish : a = .finish → more = []) :
    System.Moves F (followedBy s more) a (followedBy t more) := by
  cases h with
  | submit nowNs hproducer hpending =>
    exact .submit nowNs hproducer (congrArg (· ++ more) hpending)
  | push hproducer hpush => exact .push hproducer hpush
  | full hproducer hpush => exact .full hproducer hpush
  | finish hproducer hpending =>
    exact .finish hproducer (List.append_eq_nil_iff.2 ⟨hpending, hfinish rfl⟩)
  | join hproducer hworker => exact .join hproducer hworker
  | pop hworker hpop => exact .pop hworker hpop
  | empty hworker hpop => exact .empty hworker hpop
  | observe nowNs hworker => exact .observe nowNs hworker
  | leave hworker hdone => exact .leave hworker hdone
  | retry hworker hdone => exact .retry hworker hdone

/-- Nor are they needed, but for a `submit` that would have nothing else. -/
theorem moves_of_followedBy {more : List Trade} (h : System.Moves F (followedBy s more) a t)
    (hsubmit : s.producer = .ready → s.pending = [] → more = []) :
    ∃ t', System.Moves F s a t' ∧ t = followedBy t' more := by
  cases h with
  | submit nowNs hproducer hpending =>
    cases hs : s.pending with
    | nil =>
      have hnone : s.pending ++ more = [] := by rw [hs, hsubmit hproducer hs]; rfl
      exact absurd (hnone.symm.trans hpending) (List.cons_ne_nil _ _).symm
    | cons value rest =>
      simp only [followedBy, hs, List.cons_append, List.cons.injEq] at hpending
      obtain ⟨rfl, rfl⟩ := hpending
      exact ⟨_, .submit nowNs hproducer hs, rfl⟩
  | push hproducer hpush => exact ⟨_, .push hproducer hpush, rfl⟩
  | full hproducer hpush => exact ⟨_, .full hproducer hpush, rfl⟩
  | finish hproducer hpending =>
    exact ⟨_, .finish hproducer (List.append_eq_nil_iff.1 hpending).1, rfl⟩
  | join hproducer hworker => exact ⟨_, .join hproducer hworker, rfl⟩
  | pop hworker hpop => exact ⟨_, .pop hworker hpop, rfl⟩
  | empty hworker hpop => exact ⟨_, .empty hworker hpop, rfl⟩
  | observe nowNs hworker => exact ⟨_, .observe nowNs hworker, rfl⟩
  | leave hworker hdone => exact ⟨_, .leave hworker hdone, rfl⟩
  | retry hworker hdone => exact ⟨_, .retry hworker hdone, rfl⟩

structure Related (J : JsonLibrary) (outcome : Except String ParseMetrics) (r : Replay F.Carrier)
    (t : System F.Carrier) : Prop where
  ahead : t = r.ahead J
  outcome : (r.future J).2 = outcome
  closed : r.system.producer.closed = true → r.ended.isSome

theorem closed_of_step (h : System.step F s a = some t)
    (hclosed : t.producer.closed = true) : a = .finish ∨ s.producer.closed = true := by
  cases System.Moves.of_step h with
  | submit | push => cases hclosed
  | finish => exact Or.inl rfl
  | join hproducer => exact Or.inr (by rw [hproducer]; rfl)
  | full | pop | empty | observe | leave | retry => exact Or.inr hclosed

theorem step_pipeline (h : System.step F r.system a = some t) (hmay : r.mayTake a = true) :
    step J F r (.pipeline a) = some { r with system := t } := by
  rw [step, if_pos hmay, h]
  rfl

theorem step_pipeline_cases (h : step J F r (.pipeline a) = some r') :
    ∃ t, System.step F r.system a = some t ∧ r' = { r with system := t } ∧
      (a = .finish → r.ended.isSome) := by
  rw [step] at h
  split at h
  · rename_i hmay
    obtain ⟨t, ht, rfl⟩ := Option.map_eq_some_iff.1 h
    refine ⟨t, ht, rfl, ?_⟩
    rintro rfl
    exact hmay
  · cases h

theorem Related.step {outcome : Except String ParseMetrics} (h : Related J outcome r s)
    (hstep : Replay.step J F r (.pipeline a) = some r') :
    ∃ t, System.step F s a = some t ∧ Related J outcome r' t := by
  obtain ⟨t, ht, rfl, hfinish⟩ := step_pipeline_cases hstep
  have hfuture : a = .finish → (r.future J).1 = [] := fun ha => by
    obtain ⟨ending, hending⟩ := Option.isSome_iff_exists.1 (hfinish ha)
    rw [future_of_ended hending]
  rw [h.ahead]
  have hmoves := followedBy_moves (System.Moves.of_step ht) hfuture
  refine ⟨_, hmoves.step_eq, rfl, h.outcome, fun hclosed => ?_⟩
  exact (closed_of_step ht hclosed).elim hfinish h.closed

theorem refines (outcome : Except String ParseMetrics) :
    Transition.Refines (step J F) (System.step F) Event.step? (Related J outcome) where
  silent {r r' t a} hrelated hstep hsilent := by
    cases a with
    | line =>
      obtain ⟨hahead, houtcome⟩ := ahead_nextLine hstep
      obtain ⟨-, hproducer, -⟩ := nextLine_cases hstep
      have hsame : r'.system.producer = r.system.producer := by
        rw [← producer_ahead (J := J) r', hahead, producer_ahead]
      refine ⟨hrelated.ahead.trans hahead.symm, houtcome.trans hrelated.outcome, ?_⟩
      rw [hsame, hproducer]
      intro hclosed
      cases hclosed
    | pipeline a => cases hsilent
  follows {r r' t a b} hrelated hstep hvisible := by
    cases a with
    | line => cases hvisible
    | pipeline a =>
      cases hvisible
      exact hrelated.step hstep

theorem Related.lift {outcome : Except String ParseMetrics} (h : Related J outcome r s)
    (hstep : System.step F s a = some t)
    (hready : r.system.producer = .ready → r.ended.isSome ∨ r.system.pending ≠ []) :
    ∃ r', Replay.step J F r (.pipeline a) = some r' ∧ Related J outcome r' t := by
  have hfuture : r.ended.isSome → (r.future J).1 = [] := fun hended => by
    obtain ⟨ending, hending⟩ := Option.isSome_iff_exists.1 hended
    rw [future_of_ended hending]
  have hahead := h.ahead
  subst hahead
  have hmoves := System.Moves.of_step hstep
  have hfinish : a = .finish → r.ended.isSome := by
    rintro rfl
    cases hmoves with
    | finish hproducer hpending =>
      exact (hready hproducer).resolve_right fun hne => hne (List.append_eq_nil_iff.1 hpending).1
  obtain ⟨u, hu, rfl⟩ := moves_of_followedBy hmoves
    fun hproducer hpending => (hready hproducer).elim hfuture fun hne => absurd hpending hne
  have hmay : r.mayTake a = true := by
    cases a <;> first | rfl | exact hfinish rfl
  refine ⟨_, step_pipeline hu.step_eq hmay, rfl, h.outcome, fun hclosed => ?_⟩
  exact (closed_of_step hu.step_eq hclosed).elim hfinish h.closed

theorem lifts (outcome : Except String ParseMetrics) :
    Transition.Lifts (step J F) (System.step F) Event.step? (Related J outcome) where
  lift {r t t' b} hrelated hstep := by
    by_cases hproducer : r.system.producer = .ready
    · obtain ⟨count, m, hm, hready, hmproducer, hahead, houtcome⟩ :=
        exists_lines (J := J) hproducer
      have hmrelated : Related J outcome m t := by
        refine ⟨hrelated.ahead.trans hahead.symm, houtcome.trans hrelated.outcome, ?_⟩
        rw [hmproducer]
        intro hclosed
        cases hclosed
      obtain ⟨r', hr', hfinal⟩ := hmrelated.lift hstep fun _ => hready
      refine ⟨List.replicate count .line ++ [.pipeline b], r', ?_, ?_, hfinal⟩
      · rw [List.filterMap_append, List.filterMap_replicate_of_none rfl]
        rfl
      · rw [Transition.run_append]
        rw [run] at hm
        rw [hm]
        simpa using hr'
    · obtain ⟨r', hr', hfinal⟩ := hrelated.lift hstep fun h => absurd h hproducer
      exact ⟨[.pipeline b], r', rfl, by simpa using hr', hfinal⟩

variable (J F)

theorem related_start (path : String) (file : Option Bytes) :
    Related J (readCapture J path file).outcome (start F path file)
      (System.initial F (readCapture J path file).delivered) := by
  cases file with
  | none => exact ⟨rfl, rfl, fun _ => rfl⟩
  | some stream =>
    refine ⟨?_, ?_, nofun⟩
    · rw [Reader.readCapture_eq]
      rfl
    · rw [Reader.readCapture_eq]
      rfl

variable {J F}

theorem Related.of_joined {trades : List Trade} {outcome : Except String ParseMetrics}
    (h : Related J outcome r t) (hhistory : System.History trades t)
    (hjoined : t.producer = .joined) : r.system = t ∧ r.ended = some outcome := by
  obtain ⟨hahead, houtcome, hended⟩ := h
  subst hahead
  have hclosed : r.system.producer.closed = true := by
    rw [show r.system.producer = .joined from hjoined]
    rfl
  obtain ⟨ending, hending⟩ := Option.isSome_iff_exists.1 (hended hclosed)
  rw [Replay.ahead, followedBy, future_of_ended hending, List.append_nil, hending]
  rw [future_of_ended hending] at houtcome
  exact ⟨rfl, congrArg some houtcome⟩

theorem replayed_of_run {path : String} {file : Option Bytes} {events : List Event}
    (hrun : run J F (start F path file) events = some r) (hjoined : r.system.producer = .joined) :
    System.Replayed F (readCapture J path file).delivered (events.filterMap Event.step?) r.system ∧
      r.ended = some (readCapture J path file).outcome := by
  obtain ⟨t, ht, hrelated⟩ := (refines (J := J) (F := F) (readCapture J path file).outcome).run
    (related_start J F path file) hrun
  have htjoined : t.producer = .joined := by
    rw [hrelated.ahead, producer_ahead]
    exact hjoined
  obtain ⟨rfl, hended⟩ := hrelated.of_joined (.of_run ht) htjoined
  exact ⟨⟨ht, hjoined⟩, hended⟩

theorem result_of_run {path : String} {file : Option Bytes} {events : List Event}
    (hrun : run J F (start F path file) events = some r) (hjoined : r.system.producer = .joined)
    (engine : String) (elapsedNs : UInt64) : r.result engine elapsedNs =
      some ((readCapture J path file).outcome.map fun input =>
        r.system.pipeline.report engine input elapsedNs) := by
  rw [result, (replayed_of_run hrun hjoined).2]
  rfl

theorem exists_run_of_replayed {path : String} {file : Option Bytes} {steps : List Step}
    (h : System.Replayed F (readCapture J path file).delivered steps s) :
    ∃ events r, run J F (start F path file) events = some r ∧
      events.filterMap Event.step? = steps ∧ r.system = s ∧
      r.ended = some (readCapture J path file).outcome := by
  obtain ⟨events, r, hsteps, hrun, hrelated⟩ :=
    (lifts _).run (related_start J F path file) h.run
  obtain ⟨hsystem, hended⟩ := hrelated.of_joined h.history h.joined
  exact ⟨events, r, hrun, hsteps, hsystem, hended⟩

/-- A replay that reads its capture line by line, beside a worker that consumes, goes through
exactly the schedules of a replay that has read it all before, and is left in the same way. -/
theorem replay_streams (J : JsonLibrary) (F : BoundedFifo.{0, u} Trade capacity) (path : String)
    (file : Option Bytes) (steps : List Step) (s : System F.Carrier)
    (ended : Option (Except String ParseMetrics)) :
    (∃ events r, run J F (start F path file) events = some r ∧
        events.filterMap Event.step? = steps ∧ r.system = s ∧ r.ended = ended ∧
        s.producer = .joined) ↔
      System.Replayed F (readCapture J path file).delivered steps s ∧
        ended = some (readCapture J path file).outcome := by
  constructor
  · rintro ⟨events, r, hrun, rfl, rfl, rfl, hjoined⟩
    exact replayed_of_run hrun hjoined
  · rintro ⟨hreplayed, rfl⟩
    obtain ⟨events, r, hrun, hsteps, hsystem, hended⟩ := exists_run_of_replayed hreplayed
    exact ⟨events, r, hrun, hsteps, hsystem, hended, hreplayed.joined⟩

end Refinement

end Replay

end BengalMarket
