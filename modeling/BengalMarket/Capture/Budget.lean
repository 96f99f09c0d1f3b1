import BengalMarket.Capture.Publication
import BengalMarket.Library.Streak

namespace BengalMarket.Capture

variable {J : JsonLibrary} {path : String}

section Attempts

variable {deadline : Int}

section History

/-- A frame that was recorded, or a failure; `inTime` is one before the deadline and without a
stop request. -/
inductive Event
  | recorded
  | failed (inTime : Bool)
  deriving DecidableEq

def recordings (writes : List FrameWrite) : List Event :=
  (recorded writes).map fun _ => .recorded

def eventsOf (entry : AttemptLog) : List Event :=
  recordings entry.writes ++
    match entry.exit with
    | .failed _ => [.failed entry.inTime]
    | _ => []

end History

def Event.resets (event : Event) : Bool := event = .recorded

def Event.counts (event : Event) : Bool := event = .failed true

section Counters

structure Counts (s t : Progress) (writes : List FrameWrite) : Prop where
  reconnects : t.result.reconnects = s.result.reconnects
  failures : t.consecutiveFailures = if recorded writes = [] then s.consecutiveFailures else 0

theorem Counts.refl (s : Progress) : Counts s s [] := ⟨rfl, rfl⟩

theorem Counts.trans {s t u : Progress} {writes later : List FrameWrite} (h : Counts s t writes)
    (h' : Counts t u later) : Counts s u (writes ++ later) where
  reconnects := h'.reconnects.trans h.reconnects
  failures := by
    rw [h'.failures, h.failures, recorded_append]
    by_cases hlater : recorded later = []
    · simp [hlater]
    · simp [hlater]

theorem counts_pass (s : Progress) (signal : Signal) : Counts s (s.pass signal) [] := ⟨rfl, rfl⟩

theorem counts_waitSocket (s : Progress) (before after : Signal) (result : WaitResult) :
    Counts s (s.waitSocket before after result).1 [] := by
  unfold Progress.waitSocket
  dsimp only
  split
  · exact ⟨rfl, rfl⟩
  · cases result with
    | unknownSocket | noSocket | pollFailed => exact ⟨rfl, rfl⟩
    | ready =>
      dsimp only
      split <;> exact ⟨rfl, rfl⟩

theorem counts_writeFrame (s : Progress) (message : Bytes) (wallTimeNs : UInt64)
    (results : List WriteResult) :
    Counts s (writeFrame J path s message wallTimeNs results).state
      (writeFrame J path s message wallTimeNs results).writes := by
  unfold writeFrame
  cases hdump : J.dump (frameRecord wallTimeNs s.connectionId message) with
  | error what => exact .refl s
  | ok line =>
    dsimp only
    cases herror : (writeLine path line results).error with
    | some what => exact ⟨rfl, by simp [recorded, herror]⟩
    | none => exact ⟨rfl, by simp [recorded, herror]⟩

theorem counts_receive (s : Progress) (message : Bytes) (r : Receive) :
    Counts s (receive J path s message r).state (receive J path s message r).writes := by
  unfold receive
  cases r.received with
  | again before after result =>
    have hwait := counts_waitSocket s before after result
    rcases hresult : s.waitSocket before after result with ⟨t, _ | exit⟩ <;>
      simpa [hresult] using hwait
  | failed | noMetadata => exact .refl s
  | chunk chunk =>
    dsimp only
    split
    · exact .refl s
    · exact .refl s
    · exact counts_writeFrame s _ r.wallTimeNs r.writes

theorem counts_receiveLoop (s : Progress) (message : Bytes) (receives : List Receive) :
    Counts s (receiveLoop J path deadline s message receives).state
      (receiveLoop J path deadline s message receives).writes := by
  induction receives generalizing s message with
  | nil => exact .refl s
  | cons r rest ih =>
    rw [receiveLoop]
    have hpass := counts_pass s r.signal
    have hstep := @counts_receive J path (s.pass r.signal) message r
    dsimp only
    split
    · exact hpass
    · split
      · exact hpass.trans hstep
      · rename_i next hnext
        exact hpass.trans (hstep.trans (ih _ next))

theorem counts_connect (s : Progress) (a : Attempt) :
    Counts s (connect J path deadline s a).state (connect J path deadline s a).writes := by
  unfold connect
  cases a.connect with
  | connected => exact counts_receiveLoop s [] a.receives
  | stopped => exact ⟨rfl, rfl⟩
  | failed error => exact .refl s

end Counters

section Steps

def gaveUp : String := "capture stopped after repeated failures: "

variable (J path deadline)

abbrev entryOf (s : Progress) (a : Attempt) : AttemptLog :=
  logOf deadline s a (connect J path deadline s a)

inductive Step (s : Progress) (a : Attempt) (rest : List Attempt) (loop : Loop) : Prop
  | ended (t : Progress) (state : t = (connect J path deadline s a).state)
      (stopped : t.running deadline = false)
      (events : eventsOf (entryOf J path deadline s a) =
        recordings (connect J path deadline s a).writes)
      (later : loop = { captureLoop J path deadline t rest with
        log := entryOf J path deadline s a :: (captureLoop J path deadline t rest).log })
  | retried (t : Progress)
      (events : eventsOf (entryOf J path deadline s a) =
        recordings (connect J path deadline s a).writes ++ [.failed true])
      (below : (connect J path deadline s a).state.consecutiveFailures + 1 <
        maximumConsecutiveFailures)
      (connection : t.connectionId = s.connectionId)
      (reconnects : t.result.reconnects = s.result.reconnects + 1)
      (failures : t.consecutiveFailures =
        (connect J path deadline s a).state.consecutiveFailures + 1)
      (later : loop = { captureLoop J path deadline t rest with
        log := entryOf J path deadline s a :: (captureLoop J path deadline t rest).log })
  | left (tail : List Event)
      (events : eventsOf (entryOf J path deadline s a) =
        recordings (connect J path deadline s a).writes ++ tail)
      (uncounted : tail = [] ∨ tail = [.failed false])
      (exits : ∀ what, loop.exit ≠ .threw what)
      (logged : loop.log = [entryOf J path deadline s a])
  | gaveUp (what : String)
      (events : eventsOf (entryOf J path deadline s a) =
        recordings (connect J path deadline s a).writes ++ [.failed true])
      (limit : maximumConsecutiveFailures ≤
        (connect J path deadline s a).state.consecutiveFailures + 1)
      (throws : loop.exit = .threw (gaveUp ++ what))
      (logged : loop.log = [entryOf J path deadline s a])

variable {J path deadline}

end Steps

section Loop

abbrev Exhausts (failures : UInt64) (events : List Event) : Prop :=
  Streak.Reaches Event.resets Event.counts maximumConsecutiveFailures.toNat failures.toNat events

theorem toNat_lt_limit {failures : UInt64} (h : failures < maximumConsecutiveFailures) :
    failures.toNat < maximumConsecutiveFailures.toNat := UInt64.lt_iff_toNat_lt.1 h

theorem exhausts_recordings {s : Progress}
    (h : s.consecutiveFailures < maximumConsecutiveFailures) (a : Attempt) (events : List Event) :
    Exhausts s.consecutiveFailures
        (recordings (connect J path deadline s a).writes ++ events) ↔
      Exhausts (connect J path deadline s a).state.consecutiveFailures events := by
  have hresets : ∀ event ∈ recordings (connect J path deadline s a).writes,
      event.resets = true := by
    intro event hevent
    obtain ⟨w, -, rfl⟩ := List.mem_map.1 hevent
    rfl
  have hnil : recordings (connect J path deadline s a).writes = [] ↔
      recorded (connect J path deadline s a).writes = [] := List.map_eq_nil_iff
  rw [Exhausts, Streak.reaches_append_of_resets hresets (toNat_lt_limit h),
    (counts_connect s a).failures]
  by_cases hempty : recorded (connect J path deadline s a).writes = []
  · rw [if_pos hempty, if_pos (hnil.2 hempty)]
  · rw [if_neg hempty, if_neg (mt hnil.1 hempty)]
    rfl

structure LoopBudget (s : Progress) (loop : Loop) : Prop where
  starts : ∀ entry ∈ loop.log, entry.start.consecutiveFailures < maximumConsecutiveFailures ∧
    entry.connectionId = entry.start.result.reconnects + 1
  throws : (∃ what, loop.exit = .threw what) ↔
    Exhausts s.consecutiveFailures (loop.log.flatMap eventsOf)
  message : ∀ what, loop.exit = .threw what → ∃ last, what = gaveUp ++ last

section Attempt

variable {s u : Progress} {a : Attempt} {tail : List Event} {loop : Loop}
  (hfailures : s.consecutiveFailures = u.consecutiveFailures)
  (hstart : u.consecutiveFailures < maximumConsecutiveFailures ∧
    u.connectionId = u.result.reconnects + 1)
  (hevents : eventsOf (entryOf J path deadline u a) =
    recordings (connect J path deadline u a).writes ++ tail)

include hfailures hstart hevents

theorem LoopBudget.ends (hlog : loop.log = [entryOf J path deadline u a])
    (hexit : (∃ what, loop.exit = .threw what) ↔
      Exhausts (connect J path deadline u a).state.consecutiveFailures tail)
    (hmessage : ∀ what, loop.exit = .threw what → ∃ last, what = gaveUp ++ last) :
    LoopBudget s loop where
  starts := by
    rw [hlog, List.forall_mem_singleton]
    exact hstart
  throws := by
    rw [hexit, hlog, List.flatMap_singleton, hevents, hfailures, exhausts_recordings hstart.1]
  message := hmessage

end Attempt

end Loop

end Attempts

section Texts

end Texts

section Runs

variable (J)

variable {J} (options : CaptureOptions) (script : Script)

end Runs

section Fixture

def refused : Attempt where
  connect := .failed "connect WebSocket: Couldn't connect to server"

end Fixture

end BengalMarket.Capture
