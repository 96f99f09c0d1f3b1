import BengalMarket.Capture.Core
import Mathlib.Algebra.Group.Int.Defs

namespace BengalMarket.Capture

variable {J : JsonLibrary} {path : String}

def bytesOf (writes : List FrameWrite) : Bytes := writes.flatMap (·.written.accepted)

def recorded (writes : List FrameWrite) : List FrameWrite :=
  writes.filter (·.written.error.isNone)

@[simp] theorem bytesOf_append (writes later : List FrameWrite) :
    bytesOf (writes ++ later) = bytesOf writes ++ bytesOf later := by
  simp [bytesOf]

@[simp] theorem recorded_append (writes later : List FrameWrite) :
    recorded (writes ++ later) = recorded writes ++ recorded later := by
  simp [recorded]

@[simp] theorem bytesOf_nil : bytesOf [] = [] := rfl

@[simp] theorem recorded_nil : recorded [] = [] := rfl

structure FrameOf (J : JsonLibrary) (path : String) (connectionId : UInt64) (w : FrameWrite) :
    Prop where
  connection : w.connectionId = connectionId
  dump : J.dump (frameRecord w.receivedNs w.connectionId w.payload) = .ok w.line
  written : ∃ results, w.written = writeLine path w.line results

theorem FrameOf.accepted {connectionId : UInt64} {w : FrameWrite}
    (h : FrameOf J path connectionId w) :
    w.written.accepted <+: w.line ++ [Lines.newline] ∧
      (w.written.error = none ↔ w.written.accepted = w.line ++ [Lines.newline]) := by
  obtain ⟨results, hresults⟩ := h.written
  rw [hresults]
  exact writeLine_spec w.line results

/-- A part of a run on one connection: `writes` is what it adds. -/
structure Extends (J : JsonLibrary) (path : String) (s t : Progress) (writes : List FrameWrite) :
    Prop where
  file : t.file = s.file ++ bytesOf writes
  frames : t.result.frames = s.result.frames + UInt64.ofNat (recorded writes).length
  connection : t.connectionId = s.connectionId
  writes : ∀ w ∈ writes, FrameOf J path s.connectionId w
  now : s.now ≤ t.now
  stop : s.stop = true → t.stop = true

theorem Extends.quiet {s t : Progress} (hfile : t.file = s.file)
    (hframes : t.result.frames = s.result.frames) (hconnection : t.connectionId = s.connectionId)
    (hnow : s.now ≤ t.now) (hstop : s.stop = true → t.stop = true) : Extends J path s t [] :=
  ⟨by simp [hfile], by simp [hframes], hconnection, by simp, hnow, hstop⟩

theorem Extends.refl (s : Progress) : Extends J path s s [] :=
  .quiet rfl rfl rfl (Nat.le_refl _) id

theorem Extends.trans {s t u : Progress} {writes later : List FrameWrite}
    (h : Extends J path s t writes) (h' : Extends J path t u later) :
    Extends J path s u (writes ++ later) where
  file := by rw [h'.file, h.file, bytesOf_append, List.append_assoc]
  frames := by
    rw [h'.frames, h.frames, recorded_append, List.length_append, UInt64.ofNat_add,
      UInt64.add_assoc]
  connection := h'.connection.trans h.connection
  writes w hw := by
    rcases List.mem_append.1 hw with hw | hw
    · exact h.writes w hw
    · exact h.connection ▸ h'.writes w hw
  now := Nat.le_trans h.now h'.now
  stop hs := h'.stop (h.stop hs)

theorem Extends.before {s t u : Progress} {writes : List FrameWrite} (h : Extends J path s t [])
    (h' : Extends J path t u writes) : Extends J path s u writes := h.trans h'

theorem extends_pass (s : Progress) (signal : Signal) : Extends J path s (s.pass signal) [] := by
  refine .quiet rfl rfl rfl (Nat.le_add_right _ _) ?_
  intro hstop
  simp [Progress.pass, hstop]

theorem extends_waitSocket (s : Progress) (before after : Signal) (result : WaitResult) :
    Extends J path s (s.waitSocket before after result).1 [] := by
  have hbefore : Extends J path s (s.pass before) [] := extends_pass s before
  unfold Progress.waitSocket
  dsimp only
  split
  · exact hbefore
  · cases result with
    | unknownSocket | noSocket | pollFailed => exact hbefore
    | ready =>
      dsimp only
      split <;> exact hbefore.trans (extends_pass _ after)

theorem extends_writeFrame (s : Progress) (message : Bytes) (wallTimeNs : UInt64)
    (results : List WriteResult) :
    let step := writeFrame J path s message wallTimeNs results
    Extends J path s step.state step.writes := by
  dsimp only
  unfold writeFrame
  cases hdump : J.dump (frameRecord wallTimeNs s.connectionId message) with
  | error what => exact .refl s
  | ok line =>
    dsimp only
    cases herror : (writeLine path line results).error with
    | some what =>
      refine ⟨by simp [bytesOf], by simp [recorded, herror], rfl, ?_, Nat.le_refl _, id⟩
      intro w hw
      rw [List.mem_singleton] at hw
      subst hw
      exact ⟨rfl, hdump, results, rfl⟩
    | none =>
      refine ⟨by simp [bytesOf], by simp [recorded, herror], rfl, ?_, Nat.le_refl _, id⟩
      intro w hw
      rw [List.mem_singleton] at hw
      subst hw
      exact ⟨rfl, hdump, results, rfl⟩

theorem extends_receive (s : Progress) (message : Bytes) (r : Receive) :
    let step := receive J path s message r
    Extends J path s step.state step.writes := by
  dsimp only
  unfold receive
  cases r.received with
  | again before after result =>
    have hwait : Extends J path s _ [] := extends_waitSocket s before after result
    rcases hresult : s.waitSocket before after result with ⟨t, _ | exit⟩ <;>
      simpa [hresult] using hwait
  | failed | noMetadata => exact .refl s
  | chunk chunk =>
    dsimp only
    split
    · exact .refl s
    · exact .refl s
    · exact extends_writeFrame s _ r.wallTimeNs r.writes

theorem extends_receiveLoop (deadline : Int) (s : Progress) (message : Bytes)
    (receives : List Receive) :
    let connection := receiveLoop J path deadline s message receives
    Extends J path s connection.state connection.writes := by
  dsimp only
  induction receives generalizing s message with
  | nil => exact .refl s
  | cons r rest ih =>
    rw [receiveLoop]
    have hpass : Extends J path s (s.pass r.signal) [] := extends_pass s r.signal
    have hstep := @extends_receive J path (s.pass r.signal) message r
    dsimp only at hstep ⊢
    split
    · exact hpass
    · split
      · exact hpass.trans hstep
      · rename_i next hnext
        exact hpass.trans (hstep.trans (ih _ next))

theorem extends_connect (deadline : Int) (s : Progress) (a : Attempt) :
    let connection := connect J path deadline s a
    Extends J path s connection.state connection.writes := by
  dsimp only
  unfold connect
  cases a.connect with
  | connected => exact extends_receiveLoop deadline s [] a.receives
  | stopped => exact .quiet rfl rfl rfl (Nat.le_refl _) fun _ => rfl
  | failed error => exact .refl s

theorem extends_sleepLoop (n : Nat) (s : Progress) (signals : List Signal) :
    Extends J path s (sleepLoop n s signals) [] := by
  induction n generalizing s signals with
  | zero => exact .refl s
  | succ n ih =>
    rw [sleepLoop]
    have hpass : Extends J path s (s.pass (signals.headD {})) [] := extends_pass s _
    split
    · exact hpass
    · refine hpass.before (Extends.before ?_ (ih _ signals.tail))
      exact .quiet rfl rfl rfl (Nat.le_add_right _ _) id

theorem extends_handle (deadline : Int) (s : Progress) (a : Attempt) (what : String) :
    Extends J path s (handle deadline s a what).1 [] := by
  have hpass : Extends J path s { s.pass a.handler with lastError := what } [] :=
    (extends_pass s a.handler).trans (.quiet rfl rfl rfl (Nat.le_refl _) id)
  unfold handle
  dsimp only
  split
  · exact hpass
  · split
    · exact hpass.before (.quiet rfl rfl rfl (Nat.le_refl _) id)
    · refine hpass.before (Extends.before ?_ (extends_sleepLoop 25 _ a.sleeps))
      exact .quiet rfl rfl rfl (Nat.le_refl _) id

def writesOf (log : List AttemptLog) : List FrameWrite := log.flatMap (·.writes)

structure Continues (J : JsonLibrary) (path : String) (s t : Progress) (log : List AttemptLog) :
    Prop where
  file : t.file = s.file ++ bytesOf (writesOf log)
  frames : t.result.frames = s.result.frames + UInt64.ofNat (recorded (writesOf log)).length
  writes : ∀ entry ∈ log, ∀ w ∈ entry.writes, FrameOf J path entry.connectionId w
  ids : log.map (·.connectionId) =
    (List.range log.length).map fun i => s.connectionId + UInt64.ofNat (i + 1)

theorem Extends.continues {s t : Progress} (h : Extends J path s t []) :
    Continues J path s t [] where
  file := h.file
  frames := h.frames
  writes := by simp
  ids := rfl

theorem Extends.connection_continues {s m t : Progress} {entry : AttemptLog}
    {log : List AttemptLog}
    (h : Extends J path { s with connectionId := s.connectionId + 1 } m entry.writes)
    (hid : entry.connectionId = s.connectionId + 1) (h' : Continues J path m t log) :
    Continues J path s t (entry :: log) where
  file := by
    rw [h'.file, h.file, List.append_assoc, ← bytesOf_append]
    rfl
  frames := by
    rw [h'.frames, h.frames, UInt64.add_assoc, ← UInt64.ofNat_add, ← List.length_append,
      ← recorded_append]
    rfl
  writes first hfirst := by
    rcases List.mem_cons.1 hfirst with rfl | hrest
    · rw [hid]
      exact h.writes
    · exact h'.writes first hrest
  ids := by
    have hconnection : m.connectionId = s.connectionId + 1 := h.connection
    rw [List.map_cons, h'.ids, hconnection, hid, List.length_cons, List.range_succ_eq_map,
      List.map_cons, List.map_map]
    apply congrArg (List.cons _)
    apply List.map_congr_left
    intro i _
    simp only [Function.comp_apply, Nat.succ_eq_add_one]
    rw [UInt64.ofNat_add (i + 1) 1, UInt64.add_assoc, UInt64.add_comm 1]
    rfl

theorem Extends.before_continues {s m t : Progress} {log : List AttemptLog}
    (h : Extends J path s m []) (h' : Continues J path m t log) : Continues J path s t log where
  file := by rw [h'.file, h.file, bytesOf_nil, List.append_nil]
  frames := by rw [h'.frames, h.frames]; simp
  writes := h'.writes
  ids := by rw [h'.ids, h.connection]

theorem continues_captureLoop (deadline : Int) (s : Progress) (attempts : List Attempt) :
    let loop := captureLoop J path deadline s attempts
    Continues J path s loop.state loop.log := by
  dsimp only
  induction attempts generalizing s with
  | nil => exact (Extends.refl s).continues
  | cons a rest ih =>
    rw [captureLoop]
    have hpass : Extends J path s (s.pass a.signal) [] := extends_pass s a.signal
    dsimp only
    split
    · exact hpass.continues
    · have hconnection := @extends_connect J path deadline
        { s.pass a.signal with connectionId := (s.pass a.signal).connectionId + 1 } a
      dsimp only at hconnection
      refine hpass.before_continues ?_
      split
      · exact hconnection.connection_continues rfl (Extends.refl _).continues
      · exact hconnection.connection_continues rfl (Extends.refl _).continues
      · exact hconnection.connection_continues rfl (ih _)
      · rename_i what hexit
        have hhandle := @extends_handle J path deadline
          (connect J path deadline { s.pass a.signal with
            connectionId := (s.pass a.signal).connectionId + 1 } a).state a what
        split
        · rename_i t exit hresult
          rw [hresult] at hhandle
          exact hconnection.connection_continues rfl hhandle.continues
        · rename_i t hresult
          rw [hresult] at hhandle
          exact hconnection.connection_continues rfl (hhandle.before_continues (ih t))

section Deadline

def retryNs : Nat := 250000000

theorem lt_of_running {deadline : Int} {s : Progress} (h : s.running deadline = true) :
    (s.now : Int) < deadline := by
  rw [Progress.running, Bool.and_eq_true] at h
  exact of_decide_eq_true h.1

theorem not_running_of_extends {deadline : Int} {s t : Progress} {writes : List FrameWrite}
    (h : Extends J path s t writes) (hs : s.running deadline = false) :
    t.running deadline = false := by
  have hnow := h.now
  simp only [Progress.running, Bool.and_eq_false_iff, decide_eq_false_iff_not,
    Bool.not_eq_false'] at hs ⊢
  rcases hs with hs | hs
  · exact Or.inl (by omega)
  · exact Or.inr (h.stop hs)

theorem captureLoop_of_not_running {deadline : Int} {s : Progress} (h : s.running deadline = false)
    (attempts : List Attempt) : (captureLoop J path deadline s attempts).log = [] := by
  cases attempts with
  | nil => rfl
  | cons a rest =>
    have hpass := not_running_of_extends (@extends_pass J path s a.signal) h
    rw [captureLoop]
    simp [hpass]

theorem sleepLoop_spec {n : Nat} {s t : Progress} {signals : List Signal}
    (h : sleepLoop n s signals = t) : t.stop = true ∨ s.now + n * 10000000 ≤ t.now := by
  induction n generalizing s signals with
  | zero => cases h; exact Or.inr (by simp [sleepLoop])
  | succ n ih =>
    have hpass : s.now ≤ (s.pass (signals.headD {})).now := Nat.le_add_right _ _
    rw [sleepLoop] at h
    split at h
    · rename_i hstop
      cases h
      exact Or.inl hstop
    · refine (ih h).imp_right fun hle => ?_
      dsimp only at hle
      omega

theorem waitSocket_exit {s t : Progress} {before after : Signal} {result : WaitResult}
    {exit : Exit} (h : s.waitSocket before after result = (t, some exit)) : exit ≠ .finished := by
  unfold Progress.waitSocket at h
  dsimp only at h
  split at h
  · cases h; simp
  · cases result with
    | unknownSocket | noSocket | pollFailed => cases h; simp
    | ready =>
      dsimp only at h
      split at h <;> cases h
      simp

theorem receive_exit {s : Progress} {message : Bytes} {r : Receive} {exit : Exit}
    (h : (receive J path s message r).next = .error exit) : exit ≠ .finished := by
  unfold receive at h
  cases hreceived : r.received with
  | again before after result =>
    rw [hreceived] at h
    dsimp only at h
    split at h
    · rename_i hwait
      cases h
      exact waitSocket_exit hwait
    · cases h
  | failed | noMetadata =>
    rw [hreceived] at h
    cases h
    simp
  | chunk chunk =>
    rw [hreceived] at h
    dsimp only at h
    split at h
    · cases h; simp
    · cases h
    · unfold writeFrame at h
      split at h
      · cases h; simp
      · dsimp only at h
        split at h <;> cases h
        simp

theorem receiveLoop_finished {deadline : Int} {s : Progress} {message : Bytes}
    {receives : List Receive}
    (h : (receiveLoop J path deadline s message receives).exit = .finished) :
    (receiveLoop J path deadline s message receives).state.running deadline = false := by
  induction receives generalizing s message with
  | nil => cases h
  | cons r rest ih =>
    rw [receiveLoop] at h ⊢
    dsimp only at h ⊢
    by_cases hrunning : (!(s.pass r.signal).running deadline) = true
    · rw [if_pos hrunning]
      simpa using hrunning
    · rw [if_neg hrunning] at h ⊢
      cases hnext : (receive J path (s.pass r.signal) message r).next with
      | error exit =>
        rw [hnext] at h
        exact absurd h (receive_exit hnext)
      | ok next =>
        rw [hnext] at h
        exact ih h

theorem connect_finished {deadline : Int} {s : Progress} {a : Attempt}
    (h : (connect J path deadline s a).exit = .finished) :
    (connect J path deadline s a).state.running deadline = false := by
  unfold connect at h ⊢
  cases hconnect : a.connect with
  | stopped | failed => simp [hconnect] at h
  | connected =>
    rw [hconnect] at h
    exact receiveLoop_finished h

theorem handle_spec {deadline : Int} {s t : Progress} {a : Attempt} {what : String}
    (h : handle deadline s a what = (t, none)) :
    t.running deadline = false ∨ s.now + retryNs ≤ t.now := by
  unfold handle at h
  dsimp only at h
  split at h
  · cases h
  · split at h
    · cases h
    · have hpass : s.now ≤ (s.pass a.handler).now := Nat.le_add_right _ _
      rcases sleepLoop_spec (Prod.mk.inj h).1 with hstop | hle
      · simp [Progress.running, hstop]
      · dsimp only at hle
        exact Or.inr (by rw [retryNs]; omega)

theorem captureLoop_time (deadline : Int) (s : Progress) (attempts : List Attempt) :
    let log := (captureLoop J path deadline s attempts).log
    log = [] ∨ (s.now : Int) + (log.length - 1) * retryNs < deadline := by
  dsimp only
  induction attempts generalizing s with
  | nil => exact Or.inl rfl
  | cons a rest ih =>
    rw [captureLoop]
    dsimp only
    by_cases hrunning : (!(s.pass a.signal).running deadline) = true
    · rw [if_pos hrunning]
      exact Or.inl rfl
    · rw [if_neg hrunning]
      have hbefore : (s.now : Int) < deadline := by
        have hpass : s.now ≤ (s.pass a.signal).now := Nat.le_add_right _ _
        have hlt := lt_of_running
          (by simpa using hrunning : (s.pass a.signal).running deadline = true)
        omega
      have hconnection := @extends_connect J path deadline
        { s.pass a.signal with connectionId := (s.pass a.signal).connectionId + 1 } a
      dsimp only at hconnection
      refine Or.inr ?_
      split
      · simpa using hbefore
      · simpa using hbefore
      · rename_i hexit
        rw [captureLoop_of_not_running (connect_finished hexit)]
        simpa using hbefore
      · rename_i what hexit
        split
        · simpa using hbefore
        · rename_i t hresult
          rcases handle_spec hresult with hstopped | hlater
          · rw [captureLoop_of_not_running hstopped]
            simpa using hbefore
          · have hnow : s.now ≤ _ := Nat.le_trans (Nat.le_add_right _ _) hconnection.now
            have hrest := ih t
            rcases hrest with hnil | hlt
            · rw [hnil]
              simpa using hbefore
            · rw [List.length_cons]
              push_cast
              rw [retryNs] at hlt hlater ⊢
              omega

end Deadline

section Runs

structure Recorded (J : JsonLibrary) (options : CaptureOptions) (metadata : Bytes) (run : Run) :
    Prop where
  file : run.file = some (metadata ++ [Lines.newline] ++ bytesOf (writesOf run.log))
  frames : run.result.frames = UInt64.ofNat (recorded (writesOf run.log)).length
  writes : ∀ entry ∈ run.log, ∀ w ∈ entry.writes,
    FrameOf J (temporary options.output) entry.connectionId w
  ids : run.log.map (·.connectionId) =
    (List.range run.log.length).map fun i => UInt64.ofNat (i + 1)
  attempts : run.log.length < 2 ^ 64
  destination : ∀ content, run.destination = some content → run.file = some content
  returned : ∀ result, run.outcome = some (.ok result) →
    run.destination = run.file ∧ result = run.result

theorem deadline_le (startNs : Nat) (durationSeconds : Int64) :
    deadline startNs durationSeconds < 2 ^ 63 := by
  have hlt := @Int.bmod_lt (startNs + durationSeconds.toInt * 1000000000) (2 ^ 64) (by decide)
  rw [deadline]
  omega

theorem log_length_lt {startNs : Nat} {durationSeconds : Int64} {s : Progress}
    {attempts : List Attempt} :
    (captureLoop J path (deadline startNs durationSeconds) s attempts).log.length < 2 ^ 64 := by
  have hdeadline := deadline_le startNs durationSeconds
  rcases @captureLoop_time J path (deadline startNs durationSeconds) s attempts
    with hnil | hlt
  · rw [hnil]
    decide
  · rw [retryNs] at hlt
    omega

theorem finish_log (options : CaptureOptions) (script : Script) (s : Progress)
    (log : List AttemptLog) :
    let run := finish options script s log
    run.log = log ∧ run.file = some s.file ∧ run.result.frames = s.result.frames ∧
      (∀ content, run.destination = some content → content = s.file) ∧
      ∀ result, run.outcome = some (.ok result) →
        run.destination = some s.file ∧ result = run.result := by
  dsimp only
  unfold finish
  dsimp only
  split
  · exact ⟨rfl, rfl, rfl, by simp, by simp⟩
  · have hpublished := @commit_of_published options.output script.commit
    rcases hcommit : commit options.output script.commit with ⟨published, _ | what⟩
    · rw [hcommit] at hpublished
      obtain rfl : published = true := hpublished rfl
      refine ⟨rfl, rfl, rfl, ?_, ?_⟩
      · intro content hcontent
        exact (Option.some.inj hcontent).symm
      · intro result hresult
        exact ⟨rfl, (Except.ok.inj (Option.some.inj hresult)).symm⟩
    · refine ⟨rfl, rfl, rfl, ?_, by simp⟩
      intro content hcontent
      cases published with
      | true => exact (Option.some.inj hcontent).symm
      | false => cases hcontent

theorem recorded_captureFrom (options : CaptureOptions) (script : Script) (metadata : Bytes) :
    Recorded J options metadata
      (captureFrom J options script (metadata ++ [Lines.newline])) := by
  have hloop := @continues_captureLoop J (temporary options.output)
    (deadline script.startNs options.durationSeconds)
    { now := script.startNs, file := metadata ++ [Lines.newline] } script.attempts
  have hattempts := @log_length_lt J (temporary options.output) script.startNs
    options.durationSeconds { now := script.startNs, file := metadata ++ [Lines.newline] }
    script.attempts
  dsimp only at hloop
  unfold captureFrom
  dsimp only
  generalize captureLoop J (temporary options.output)
    (deadline script.startNs options.durationSeconds)
    { now := script.startNs, file := metadata ++ [Lines.newline] } script.attempts = loop at *
  obtain ⟨hfile, hframes, hwrites, hids⟩ := hloop
  dsimp only at hfile hframes hids
  rw [UInt64.zero_add] at hframes
  simp only [UInt64.zero_add] at hids
  split
  · exact ⟨by rw [hfile], hframes, hwrites, hids, hattempts, by simp, by simp⟩
  · exact ⟨by rw [hfile], hframes, hwrites, hids, hattempts, by simp, by simp⟩
  · obtain ⟨hlog, hout, hcount, hdestination, hreturned⟩ :=
      finish_log options script loop.state loop.log
    refine ⟨?_, ?_, ?_, ?_, ?_, ?_, ?_⟩
    · rw [hout, hlog, hfile]
    · rw [hcount, hlog, hframes]
    · rw [hlog]
      exact hwrites
    · rw [hlog, hids]
    · rw [hlog]
      exact hattempts
    · intro content hcontent
      rw [hout, hdestination content hcontent]
    · intro result hresult
      rw [hout]
      exact hreturned result hresult

structure Checked (options : CaptureOptions) : Prop where
  nonempty : options.productIds ≠ []
  products : ∀ product ∈ options.productIds, product ≠ [] ∧ product.length ≤ 20

/-- A run writes a metadata record and goes on, or it writes no frame and publishes nothing. -/
theorem captureLive_cases (options : CaptureOptions) (script : Script) :
    let run := captureLive J options script
    (run.log = [] ∧ run.destination = none ∧ ∀ result, run.outcome ≠ some (.ok result)) ∨
    ∃ metadata, Checked options ∧ J.dump (metadataRecord options) = .ok metadata ∧
      run = captureFrom J options script (metadata ++ [Lines.newline]) := by
  dsimp only
  unfold captureLive
  split
  · exact Or.inl ⟨rfl, rfl, by simp [threw]⟩
  · rename_i hrequired
    split
    · exact Or.inl ⟨rfl, rfl, by simp [threw]⟩
    · rename_i hproducts
      have hchecked : Checked options := by
        simp only [Bool.or_eq_true, not_or, List.isEmpty_iff, List.any_eq_true, not_exists,
          not_and, decide_eq_true_eq] at hrequired hproducts
        exact ⟨hrequired.1.2, fun product hproduct =>
          ⟨(hproducts product hproduct).1, Nat.not_lt.1 (hproducts product hproduct).2⟩⟩
      split
      · exact Or.inl ⟨rfl, rfl, by simp [threw]⟩
      · split
        · exact Or.inl ⟨rfl, rfl, by simp [threw]⟩
        · split
          · exact Or.inl ⟨rfl, rfl, by simp [threw]⟩
          · split
            · exact Or.inl ⟨rfl, rfl, by simp [threw]⟩
            · cases hdump : J.dump (metadataRecord options) with
              | error what => exact Or.inl ⟨rfl, rfl, by simp [threw]⟩
              | ok line =>
                obtain ⟨-, haccepted⟩ :=
                  @writeLine_spec (temporary options.output) line script.metadataWrites
                dsimp only
                split
                · exact Or.inl ⟨rfl, rfl, by simp [threw]⟩
                · rename_i hnone
                  rw [haccepted.1 hnone]
                  exact Or.inr ⟨line, hchecked, rfl, rfl⟩

end Runs

end BengalMarket.Capture
