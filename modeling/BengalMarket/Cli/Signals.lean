import BengalMarket.Capture.Core
import BengalMarket.Library.Transition
import Mathlib.Data.List.Basic
import Mathlib.Logic.Function.Basic

/-! The signals of a capture.  They arrive between any two steps of the command, and a handler may
be interrupted by the other one. -/

universe u

namespace BengalMarket.Cli

open Capture (CaptureResult)

inductive StopSignal
  | interrupt
  | terminate
  deriving DecidableEq

def StopSignal.number : StopSignal → UInt64
  | .interrupt => 2
  | .terminate => 15

/-- What a signal does: it calls `request_capture_stop`, or whatever it did before. -/
inductive Disposition (D : Type u)
  | requestStop
  | previous (action : D)

inductive Handler
  | comparing
  | assigning
  deriving DecidableEq

abbrev CaptureAnswer := Option (CaptureResult × UInt64)

inductive ScopeStage
  | resetting
  | installingInterrupt
  | installingTerminate
  | undoing
  | capturing
  | committing (result : CaptureResult)
  | reading (result : CaptureResult)
  | restoringTerminate (answer : CaptureAnswer)
  | restoringInterrupt (answer : CaptureAnswer)
  | left (answer : CaptureAnswer)
  | killed (signal : StopSignal)

/-- `delivered` and `polls` are history: the signals that called the handler, and what
`stop_requested` returned. -/
structure SignalScope (D : Type u) where
  stage : ScopeStage := .resetting
  captureSignal : UInt64 := 0
  actions : StopSignal → Disposition D
  saved : StopSignal → Disposition D
  handlers : StopSignal → Option Handler := fun _ => none
  delivered : List StopSignal := []
  polls : List Bool := []

inductive ScopeAction
  | deliver (signal : StopSignal)
  | handle (signal : StopSignal)
  | proceed (good : Bool)
  | poll
  | finish (frames reconnects : UInt64)
  deriving DecidableEq

namespace SignalScope

variable {D : Type u} (kills : D → Bool)

/-- A signal is blocked while its own handler runs. -/
def deliver (s : SignalScope D) (signal : StopSignal) : Option (SignalScope D) :=
  match s.actions signal, s.handlers signal with
  | .previous action, _ => some (if kills action then { s with stage := .killed signal } else s)
  | .requestStop, some _ => none
  | .requestStop, none => some { s with
      handlers := Function.update s.handlers signal (some .comparing)
      delivered := s.delivered ++ [signal] }

def handle (s : SignalScope D) (signal : StopSignal) : Option (SignalScope D) :=
  match s.handlers signal with
  | none => none
  | some .comparing => some { s with
      handlers := Function.update s.handlers signal
        (if s.captureSignal = 0 then some .assigning else none) }
  | some .assigning => some { s with
      captureSignal := signal.number
      handlers := Function.update s.handlers signal none }

def install (s : SignalScope D) (signal : StopSignal) (stage : ScopeStage) : SignalScope D :=
  { s with
    stage := stage
    saved := Function.update s.saved signal (s.actions signal)
    actions := Function.update s.actions signal .requestStop }

def restore (s : SignalScope D) (signal : StopSignal) (stage : ScopeStage) : SignalScope D :=
  { s with
    stage := stage
    actions := Function.update s.actions signal (s.saved signal) }

/-- The next call of the command; without `good` it fails or throws. -/
def proceed (s : SignalScope D) (good : Bool) : Option (SignalScope D) :=
  match s.stage with
  | .resetting => some { s with captureSignal := 0, stage := .installingInterrupt }
  | .installingInterrupt => some <|
    if good then s.install .interrupt .installingTerminate else { s with stage := .left none }
  | .installingTerminate => some <|
    if good then s.install .terminate .capturing else { s with stage := .undoing }
  | .undoing => some (s.restore .interrupt (.left none))
  | .capturing => if good then none else some { s with stage := .restoringTerminate none }
  | .committing result => some
    { s with stage := if good then .reading result else .restoringTerminate none }
  | .reading result => some
    { s with stage := .restoringTerminate (some (result, s.captureSignal)) }
  | .restoringTerminate answer => some (s.restore .terminate (.restoringInterrupt answer))
  | .restoringInterrupt answer => some (s.restore .interrupt (.left answer))
  | .left _ | .killed _ => none

/-- `stop_requested`, in the loops of the capture and behind them. -/
def poll (s : SignalScope D) : SignalScope D :=
  { s with polls := s.polls ++ [s.captureSignal != 0] }

def step (s : SignalScope D) (a : ScopeAction) : Option (SignalScope D) :=
  match s.stage, a with
  | .left _, _ | .killed _, _ => none
  | _, .deliver signal => s.deliver kills signal
  | _, .handle signal => s.handle signal
  | _, .proceed good => s.proceed good
  | .capturing, .poll => some s.poll
  | .capturing, .finish frames reconnects => some
    { s.poll with stage := .committing { frames, reconnects, interrupted := s.captureSignal != 0 } }
  | _, _ => none

def run (s : SignalScope D) (actions : List ScopeAction) : Option (SignalScope D) :=
  Transition.run (step kills) s actions

def start (zeroed : StopSignal → Disposition D) (before : StopSignal → D) : SignalScope D where
  actions signal := .previous (before signal)
  saved := zeroed

end SignalScope

section Stages

def ScopeStage.installed : ScopeStage → StopSignal → Bool
  | .installingTerminate, .interrupt | .undoing, .interrupt | .restoringInterrupt _, .interrupt =>
    true
  | .capturing, _ | .committing _, _ | .reading _, _ | .restoringTerminate _, _ => true
  | _, _ => false

def ScopeStage.result : ScopeStage → Option CaptureResult
  | .committing result | .reading result => some result
  | .restoringTerminate answer | .restoringInterrupt answer | .left answer =>
    answer.map Prod.fst
  | _ => none

def ScopeStage.signal : ScopeStage → Option UInt64
  | .restoringTerminate answer | .restoringInterrupt answer | .left answer =>
    answer.map Prod.snd
  | _ => none

end Stages

namespace SignalScope

variable {D : Type u} {kills : D → Bool} {zeroed : StopSignal → Disposition D}
  {before : StopSignal → D} {s t : SignalScope D} {a : ScopeAction}

inductive Moves (kills : D → Bool) (s : SignalScope D) : ScopeAction → SignalScope D → Prop
  | dies {signal : StopSignal} {action : D} (haction : s.actions signal = .previous action)
    (hkills : kills action = true) :
    Moves kills s (.deliver signal) { s with stage := .killed signal }
  | ignores {signal : StopSignal} {action : D} (haction : s.actions signal = .previous action) :
    Moves kills s (.deliver signal) s
  | enters {signal : StopSignal} (haction : s.actions signal = .requestStop)
    (hfree : s.handlers signal = none) :
    Moves kills s (.deliver signal) { s with
      handlers := Function.update s.handlers signal (some .comparing)
      delivered := s.delivered ++ [signal] }
  | compares {signal : StopSignal} (hhandler : s.handlers signal = some .comparing)
    (hzero : s.captureSignal = 0) :
    Moves kills s (.handle signal) { s with
      handlers := Function.update s.handlers signal (some .assigning) }
  | keeps {signal : StopSignal} (hhandler : s.handlers signal = some .comparing)
    (hasked : s.captureSignal ≠ 0) :
    Moves kills s (.handle signal) { s with handlers := Function.update s.handlers signal none }
  | assigns {signal : StopSignal} (hhandler : s.handlers signal = some .assigning) :
    Moves kills s (.handle signal) { s with
      captureSignal := signal.number
      handlers := Function.update s.handlers signal none }
  | proceeds {good : Bool} {t : SignalScope D} (hproceed : s.proceed good = some t) :
    Moves kills s (.proceed good) t
  | polls (hstage : s.stage = .capturing) : Moves kills s .poll s.poll
  | finishes {frames reconnects : UInt64} (hstage : s.stage = .capturing) :
    Moves kills s (.finish frames reconnects) { s.poll with
      stage := .committing { frames, reconnects, interrupted := s.captureSignal != 0 } }

theorem Moves.of_deliver {signal : StopSignal} (h : s.deliver kills signal = some t) :
    Moves kills s (.deliver signal) t := by
  unfold deliver at h
  split at h
  · rename_i action haction
    cases hkills : kills action <;> rw [hkills] at h <;> cases h
    · exact .ignores haction
    · exact .dies haction hkills
  · cases h
  · rename_i haction hfree
    cases h
    exact .enters haction hfree

theorem Moves.of_handle {signal : StopSignal} (h : s.handle signal = some t) :
    Moves kills s (.handle signal) t := by
  unfold handle at h
  split at h
  · cases h
  · rename_i hhandler
    by_cases hzero : s.captureSignal = 0
    · rw [if_pos hzero] at h
      cases h
      exact .compares hhandler hzero
    · rw [if_neg hzero] at h
      cases h
      exact .keeps hhandler hzero
  · rename_i hhandler
    cases h
    exact .assigns hhandler

theorem Moves.of_step (h : s.step kills a = some t) : Moves kills s a t := by
  unfold step at h
  split at h
  · cases h
  · cases h
  · exact .of_deliver h
  · exact .of_handle h
  · exact .proceeds h
  · rename_i hstage
    cases h
    exact .polls hstage
  · rename_i hstage
    cases h
    exact .finishes hstage
  · cases h

def Requested (s : SignalScope D) (number : UInt64) : Prop :=
  ∃ signal ∈ s.delivered, number = signal.number

theorem number_ne_zero (signal : StopSignal) : signal.number ≠ 0 := by
  cases signal <;> decide

section Installation

structure Installed (kills : D → Bool) (before : StopSignal → D) (s : SignalScope D) : Prop where
  actions : ∀ signal, (∀ other, s.stage ≠ .killed other) →
    s.actions signal = if s.stage.installed signal then .requestStop else .previous (before signal)
  saved : ∀ signal, s.stage.installed signal = true → s.saved signal = .previous (before signal)
  killed : ∀ signal, s.stage = .killed signal → kills (before signal) = true

theorem installed_start : Installed kills before (start zeroed before) where
  actions signal _ := by cases signal <;> rfl
  saved signal h := by cases signal <;> cases h
  killed signal h := by cases h

theorem Installed.of_eq (h : Installed kills before s) (hactions : t.actions = s.actions)
    (hsaved : t.saved = s.saved) (hstage : t.stage = s.stage) : Installed kills before t where
  actions := by rw [hactions, hstage]; exact h.actions
  saved := by rw [hsaved, hstage]; exact h.saved
  killed := by rw [hstage]; exact h.killed

theorem Installed.at_stage (h : Installed kills before s)
    (hrunning : ∀ signal, s.stage ≠ .killed signal) (hactions : t.actions = s.actions)
    (hsaved : t.saved = s.saved) (hinstalled : t.stage.installed = s.stage.installed)
    (hstage : ∀ signal, t.stage ≠ .killed signal) : Installed kills before t where
  actions signal _ := by rw [hactions, hinstalled]; exact h.actions signal hrunning
  saved := by rw [hsaved, hinstalled]; exact h.saved
  killed signal hkilled := absurd hkilled (hstage signal)

theorem Installed.install (h : Installed kills before s) {signal : StopSignal} {stage : ScopeStage}
    (hrunning : ∀ signal, s.stage ≠ .killed signal) (hstage : ∀ signal, stage ≠ .killed signal)
    (hnew : s.stage.installed signal = false)
    (hinstalled : stage.installed = Function.update s.stage.installed signal true) :
    Installed kills before (s.install signal stage) where
  actions other _ := by
    simp only [SignalScope.install, hinstalled, Function.update_apply]
    split
    · rfl
    · exact h.actions other hrunning
  saved other hother := by
    simp only [SignalScope.install, hinstalled, Function.update_apply] at hother ⊢
    split at hother
    · rename_i heq
      rw [if_pos heq, h.actions signal hrunning, hnew, heq]
      rfl
    · rename_i hne
      rw [if_neg hne]
      exact h.saved other hother
  killed other hkilled := absurd hkilled (hstage other)

theorem Installed.restore (h : Installed kills before s) {signal : StopSignal} {stage : ScopeStage}
    (hrunning : ∀ signal, s.stage ≠ .killed signal) (hstage : ∀ signal, stage ≠ .killed signal)
    (hold : s.stage.installed signal = true)
    (hinstalled : stage.installed = Function.update s.stage.installed signal false) :
    Installed kills before (s.restore signal stage) where
  actions other _ := by
    simp only [SignalScope.restore, hinstalled, Function.update_apply]
    split
    · rename_i heq
      rw [h.saved signal hold, heq]
      rfl
    · exact h.actions other hrunning
  saved other hother := by
    simp only [SignalScope.restore, hinstalled, Function.update_apply] at hother ⊢
    split at hother
    · cases hother
    · exact h.saved other hother
  killed other hkilled := absurd hkilled (hstage other)

theorem Installed.proceed (h : Installed kills before s) {good : Bool}
    (hproceed : s.proceed good = some t) : Installed kills before t := by
  obtain ⟨stage, captureSignal, actions, saved, handlers, delivered, polls⟩ := s
  have hupdate {f g : StopSignal → Bool} (hinterrupt : f .interrupt = g .interrupt)
      (hterminate : f .terminate = g .terminate) : f = g := by
    funext signal
    cases signal
    · exact hinterrupt
    · exact hterminate
  cases stage with
  | resetting =>
    cases hproceed
    exact h.at_stage (by simp) rfl rfl (hupdate rfl rfl) (by simp)
  | installingInterrupt =>
    cases good <;> cases hproceed
    · exact h.at_stage (by simp) rfl rfl (hupdate rfl rfl) (by simp)
    · exact h.install (by simp) (by simp) rfl (hupdate rfl rfl)
  | installingTerminate =>
    cases good <;> cases hproceed
    · exact h.at_stage (by simp) rfl rfl (hupdate rfl rfl) (by simp)
    · exact h.install (by simp) (by simp) rfl (hupdate rfl rfl)
  | undoing =>
    cases hproceed
    exact h.restore (by simp) (by simp) rfl (hupdate rfl rfl)
  | capturing =>
    cases good <;> cases hproceed
    exact h.at_stage (by simp) rfl rfl (hupdate rfl rfl) (by simp)
  | committing result =>
    cases good <;> cases hproceed <;>
      exact h.at_stage (by simp) rfl rfl (hupdate rfl rfl) (by simp)
  | reading result =>
    cases hproceed
    exact h.at_stage (by simp) rfl rfl (hupdate rfl rfl) (by simp)
  | restoringTerminate answer =>
    cases hproceed
    exact h.restore (by simp) (by simp) rfl (hupdate rfl rfl)
  | restoringInterrupt answer =>
    cases hproceed
    exact h.restore (by simp) (by simp) rfl (hupdate rfl rfl)
  | left answer => cases hproceed
  | killed signal => cases hproceed

theorem step_running (h : s.step kills a = some t) :
    (∀ answer, s.stage ≠ .left answer) ∧ ∀ signal, s.stage ≠ .killed signal := by
  constructor
  · intro answer hstage
    simp [SignalScope.step, hstage] at h
  · intro signal hstage
    simp [SignalScope.step, hstage] at h

theorem Installed.step (h : Installed kills before s) (hstep : s.step kills a = some t) :
    Installed kills before t := by
  obtain ⟨-, hrunning⟩ := step_running hstep
  cases Moves.of_step hstep with
  | @dies signal action haction hkills =>
    refine ⟨fun other hother => absurd rfl (hother signal), fun other hother => ?_,
      fun other hother => ?_⟩
    · cases other <;> cases hother
    · cases hother
      rw [h.actions signal hrunning] at haction
      split at haction
      · cases haction
      · cases haction
        exact hkills
  | ignores => exact h
  | enters | compares | keeps | assigns | polls => exact h.of_eq rfl rfl rfl
  | proceeds hproceed => exact h.proceed hproceed
  | finishes hstage =>
    refine h.at_stage hrunning rfl rfl ?_ (by simp)
    funext signal
    rw [hstage]
    rfl

end Installation

section Latch

structure Latched (s : SignalScope D) : Prop where
  value : s.captureSignal = 0 ∨ s.Requested s.captureSignal
  handlers : ∀ signal, s.handlers signal ≠ none → signal ∈ s.delivered
  served : ∀ signal ∈ s.delivered, s.handlers signal = none → s.captureSignal ≠ 0
  quiet : s.stage = .resetting → s.delivered = [] ∧ s.captureSignal = 0

theorem latched_start : Latched (start zeroed before) where
  value := .inl rfl
  handlers _ h := absurd rfl h
  served _ h := absurd h List.not_mem_nil
  quiet _ := ⟨rfl, rfl⟩

theorem Latched.of_eq (h : Latched s) (hvalue : t.captureSignal = s.captureSignal)
    (hhandlers : t.handlers = s.handlers) (hdelivered : t.delivered = s.delivered)
    (hstage : t.stage = .resetting → s.stage = .resetting) : Latched t where
  value := by rw [Requested, hvalue, hdelivered]; exact h.value
  handlers := by rw [hhandlers, hdelivered]; exact h.handlers
  served := by rw [hvalue, hhandlers, hdelivered]; exact h.served
  quiet ht := by rw [hvalue, hdelivered]; exact h.quiet (hstage ht)

structure Proceeds (s t : SignalScope D) : Prop where
  handlers : t.handlers = s.handlers
  delivered : t.delivered = s.delivered
  polls : t.polls = s.polls
  reset : t.stage ≠ .resetting
  value : s.stage ≠ .resetting → t.captureSignal = s.captureSignal
  cleared : s.stage = .resetting → t.captureSignal = 0
  result : ∀ result, t.stage.result = some result → s.stage.result = some result
  signal : ∀ number, t.stage.signal = some number →
    s.stage.signal = some number ∨ s.stage.signal = none ∧ number = s.captureSignal
  kept : ∀ number, s.stage.signal = some number → t.stage.signal = some number

theorem proceeds_of_proceed {good : Bool} (hproceed : s.proceed good = some t) : Proceeds s t := by
  obtain ⟨stage, captureSignal, actions, saved, handlers, delivered, polls⟩ := s
  cases stage with
  | left | killed => cases hproceed
  | restoringTerminate | restoringInterrupt =>
    cases hproceed
    exact ⟨rfl, rfl, rfl, by simp [SignalScope.restore], fun _ => rfl, by simp, fun _ h => h,
      fun _ h => .inl h, fun _ h => h⟩
  | resetting | undoing | reading =>
    cases hproceed
    constructor <;> simp [SignalScope.restore, ScopeStage.result, ScopeStage.signal]
  | installingInterrupt | installingTerminate | capturing | committing =>
    cases good <;> cases hproceed <;> constructor <;>
      simp [SignalScope.install, ScopeStage.result, ScopeStage.signal]

theorem Latched.handlers_update (h : Latched s) {signal : StopSignal} {handler : Option Handler}
    (hsignal : signal ∈ s.delivered) (other : StopSignal)
    (hother : Function.update s.handlers signal handler other ≠ none) : other ∈ s.delivered := by
  by_cases heq : other = signal
  · exact heq ▸ hsignal
  · rw [Function.update_of_ne heq] at hother
    exact h.handlers other hother

theorem of_update_eq_none {signal other : StopSignal} {handler : Handler}
    (h : Function.update s.handlers signal (some handler) other = none) :
    other ≠ signal ∧ s.handlers other = none := by
  by_cases heq : other = signal
  · rw [heq, Function.update_self] at h
    cases h
  · exact ⟨heq, by rwa [Function.update_of_ne heq] at h⟩

theorem Latched.step (h : Latched s) (hinstalled : Installed kills before s)
    (hstep : s.step kills a = some t) : Latched t := by
  obtain ⟨-, hrunning⟩ := step_running hstep
  have hdelivered {signal : StopSignal} {handler : Handler}
      (hhandler : s.handlers signal = some handler) : signal ∈ s.delivered :=
    h.handlers signal (by rw [hhandler]; exact Option.some_ne_none _)
  have hasked {signal : StopSignal} (hsignal : signal ∈ s.delivered) : s.stage ≠ .resetting := by
    intro hstage
    rw [(h.quiet hstage).1] at hsignal
    cases hsignal
  cases Moves.of_step hstep with
  | dies | ignores => exact h.of_eq rfl rfl rfl (by simp)
  | @enters signal haction hfree =>
    refine ⟨h.value.imp_right fun ⟨other, hother, hvalue⟩ =>
      ⟨other, List.mem_append_left _ hother, hvalue⟩, fun other hother => ?_, ?_, ?_⟩
    · by_cases heq : other = signal
      · exact List.mem_append_right _ (List.mem_singleton.2 heq)
      · refine List.mem_append_left _ (h.handlers other fun hfree => hother ?_)
        exact (Function.update_of_ne heq _ _).trans hfree
    · intro other hother hnone
      obtain ⟨hne, hfree⟩ := of_update_eq_none hnone
      refine h.served other ((List.mem_append.1 hother).resolve_right fun heq => ?_) hfree
      exact hne (List.mem_singleton.1 heq)
    · intro hstage
      have hstage : s.stage = .resetting := hstage
      rw [hinstalled.actions signal hrunning, hstage] at haction
      cases haction
  | @compares signal hhandler hzero =>
    have hsignal := hdelivered hhandler
    refine ⟨h.value, h.handlers_update hsignal, fun other hother hnone => ?_,
      fun hstage => absurd hstage (hasked hsignal)⟩
    exact h.served other hother (of_update_eq_none hnone).2
  | @keeps signal hhandler hvalue =>
    have hsignal := hdelivered hhandler
    exact ⟨h.value, h.handlers_update hsignal, fun _ _ _ => hvalue,
      fun hstage => absurd hstage (hasked hsignal)⟩
  | @assigns signal hhandler =>
    have hsignal := hdelivered hhandler
    exact ⟨.inr ⟨signal, hsignal, rfl⟩, h.handlers_update hsignal,
      fun _ _ _ => number_ne_zero signal, fun hstage => absurd hstage (hasked hsignal)⟩
  | proceeds hproceed =>
    have hp := proceeds_of_proceed hproceed
    by_cases hstage : s.stage = .resetting
    · obtain ⟨hnothing, -⟩ := h.quiet hstage
      refine ⟨.inl (hp.cleared hstage), ?_, ?_, fun ht => absurd ht hp.reset⟩
      · rw [hp.handlers, hp.delivered]
        exact h.handlers
      · intro other hother
        rw [hp.delivered, hnothing] at hother
        cases hother
    · exact h.of_eq (hp.value hstage) hp.handlers hp.delivered fun ht => absurd ht hp.reset
  | polls hstage | finishes hstage => exact h.of_eq rfl rfl rfl (by simp [SignalScope.poll])

end Latch

section Polls

structure Polled (s : SignalScope D) : Prop where
  polls : ∃ quiet asked, s.polls = List.replicate quiet false ++ List.replicate asked true
  asked : true ∈ s.polls → s.captureSignal ≠ 0
  quiet : s.stage = .resetting → s.polls = []
  result : ∀ result, s.stage.result = some result → s.polls.getLast? = some result.interrupted
  signal : ∀ number, s.stage.signal = some number →
    (number = 0 ∨ s.Requested number) ∧ (true ∈ s.polls → number ≠ 0)

theorem polled_start : Polled (start zeroed before) where
  polls := ⟨0, 0, rfl⟩
  asked h := absurd h List.not_mem_nil
  quiet _ := rfl
  result _ h := by cases h
  signal _ h := by cases h

theorem Polled.of_le (h : Polled s) (hvalue : s.captureSignal ≠ 0 → t.captureSignal ≠ 0)
    (hpolls : t.polls = s.polls) (hdelivered : s.delivered ⊆ t.delivered)
    (hstage : t.stage = s.stage) : Polled t where
  polls := by rw [hpolls]; exact h.polls
  asked := by rw [hpolls]; exact fun hasked => hvalue (h.asked hasked)
  quiet := by rw [hpolls, hstage]; exact h.quiet
  result := by rw [hpolls, hstage]; exact h.result
  signal number hnumber := by
    rw [hpolls]
    rw [hstage] at hnumber
    obtain ⟨hvalue, hasked⟩ := h.signal number hnumber
    exact ⟨hvalue.imp_right fun ⟨other, hother, heq⟩ => ⟨other, hdelivered hother, heq⟩, hasked⟩

theorem Polled.poll (h : Polled s) :
    (∃ quiet asked, s.poll.polls = List.replicate quiet false ++ List.replicate asked true) ∧
      (true ∈ s.poll.polls → s.captureSignal ≠ 0) ∧
      s.poll.polls.getLast? = some (s.captureSignal != 0) := by
  obtain ⟨quiet, asked, hpolls⟩ := h.polls
  have hlast : s.poll.polls.getLast? = some (s.captureSignal != 0) := by
    simp [SignalScope.poll]
  by_cases hzero : s.captureSignal = 0
  · have hnone : asked = 0 := by
      by_contra hne
      refine h.asked ?_ hzero
      rw [hpolls]
      exact List.mem_append_right _ (List.mem_replicate.2 ⟨hne, rfl⟩)
    refine ⟨⟨quiet + 1, 0, ?_⟩, fun hasked => absurd hzero (h.asked ?_), hlast⟩
    · simp [SignalScope.poll, hpolls, hnone, hzero, List.replicate_succ']
    · simpa [SignalScope.poll, hzero] using hasked
  · refine ⟨⟨quiet, asked + 1, ?_⟩, fun _ => hzero, hlast⟩
    simp [SignalScope.poll, hpolls, hzero, List.replicate_succ']

theorem Polled.step (h : Polled s) (hlatched : Latched s) (hstep : s.step kills a = some t) :
    Polled t := by
  cases Moves.of_step hstep with
  | dies =>
    exact ⟨h.polls, h.asked, (by rintro ⟨⟩), (by rintro _ ⟨⟩), (by rintro _ ⟨⟩)⟩
  | ignores => exact h
  | enters => exact h.of_le id rfl (List.subset_append_left _ _) rfl
  | compares | keeps => exact h.of_le id rfl (List.Subset.refl _) rfl
  | @assigns signal => exact h.of_le (fun _ => number_ne_zero signal) rfl (List.Subset.refl _) rfl
  | proceeds hproceed =>
    have hp := proceeds_of_proceed hproceed
    have hrequested {number : UInt64} : t.Requested number ↔ s.Requested number := by
      rw [Requested, Requested, hp.delivered]
    refine ⟨hp.polls ▸ h.polls, ?_, fun ht => absurd ht hp.reset, ?_, ?_⟩
    · rw [hp.polls]
      intro hasked
      have hstage : s.stage ≠ .resetting := fun hstage => by
        rw [h.quiet hstage] at hasked
        cases hasked
      rw [hp.value hstage]
      exact h.asked hasked
    · intro result hresult
      rw [hp.polls]
      exact h.result result (hp.result result hresult)
    · intro number hnumber
      rw [hp.polls, hrequested]
      rcases hp.signal number hnumber with hsignal | ⟨-, rfl⟩
      · exact h.signal number hsignal
      · exact ⟨hlatched.value, h.asked⟩
  | polls hstage =>
    obtain ⟨hpolls, hasked, -⟩ := h.poll
    have hsame : s.poll.stage = .capturing := hstage
    refine ⟨hpolls, hasked, fun ht => ?_, fun _ hresult => ?_, fun _ hsignal => ?_⟩
    · cases hsame.symm.trans ht
    · rw [hsame] at hresult
      cases hresult
    · rw [hsame] at hsignal
      cases hsignal
  | finishes hstage =>
    obtain ⟨hpolls, hasked, hlast⟩ := h.poll
    refine ⟨hpolls, hasked, (by rintro ⟨⟩), ?_, (by rintro _ ⟨⟩)⟩
    rintro _ ⟨⟩
    exact hlast

end Polls

section Runs

structure Keeps (kills : D → Bool) (before : StopSignal → D) (s : SignalScope D) : Prop where
  installed : Installed kills before s
  latched : Latched s
  polled : Polled s

theorem Keeps.step (h : Keeps kills before s) (hstep : s.step kills a = some t) :
    Keeps kills before t :=
  ⟨h.installed.step hstep, h.latched.step h.installed hstep, h.polled.step h.latched hstep⟩

theorem keeps_of_run {actions : List ScopeAction}
    (hrun : (start zeroed before).run kills actions = some s) : Keeps kills before s :=
  Transition.run_invariant Keeps.step ⟨installed_start, latched_start, polled_start⟩ hrun

theorem signal_step {number : UInt64} (h : s.stage.signal = some number)
    (hstep : s.step kills a = some t) :
    t.stage.signal = some number ∨ ∃ signal, t.stage = .killed signal := by
  cases Moves.of_step hstep with
  | @dies signal => exact .inr ⟨signal, rfl⟩
  | ignores | enters | compares | keeps | assigns => exact .inl h
  | proceeds hproceed => exact .inl ((proceeds_of_proceed hproceed).kept number h)
  | polls hstage | finishes hstage =>
    rw [hstage] at h
    cases h

theorem signal_run {number : UInt64} {actions : List ScopeAction} {answer : CaptureAnswer}
    (h : s.stage.signal = some number) (hrun : s.run kills actions = some t)
    (hleft : t.stage = .left answer) : answer.map Prod.snd = some number := by
  have hkept := Transition.run_invariant
    (I := fun t : SignalScope D => t.stage.signal = some number ∨
      ∃ signal, t.stage = .killed signal)
    (fun h hstep => h.elim (fun h => signal_step h hstep)
      fun hkilled => hkilled.elim fun signal hsignal =>
        absurd hsignal ((step_running hstep).2 signal)) (.inl h) hrun
  rw [hleft] at hkept
  rcases hkept with hsignal | ⟨signal, hsignal⟩
  · exact hsignal
  · cases hsignal

/-- A request is not lost once the handler has returned before the flag is read. -/
theorem read_of_returned {first rest : List ScopeAction} {good : Bool} {result : CaptureResult}
    {answer : CaptureAnswer} (hfirst : (start zeroed before).run kills first = some s)
    (hreading : s.stage = .reading result)
    (hreturned : ∃ signal ∈ s.delivered, s.handlers signal = none)
    (hrest : s.run kills (.proceed good :: rest) = some t) (hleft : t.stage = .left answer) :
    ∃ number, answer.map Prod.snd = some number ∧ number ≠ 0 := by
  obtain ⟨signal, hsignal, hnone⟩ := hreturned
  have hvalue := (keeps_of_run hfirst).latched.served signal hsignal hnone
  obtain ⟨m, hm, hrun⟩ := Transition.run_cons_eq_some hrest
  have hread : m.stage.signal = some s.captureSignal := by
    simp only [SignalScope.step, hreading, SignalScope.proceed, Option.some.injEq] at hm
    rw [← hm]
    rfl
  exact ⟨_, signal_run hread hrun hleft, hvalue⟩

end Runs

end SignalScope

end BengalMarket.Cli
