import BengalMarket.Capture.Messages
import BengalMarket.Capture.Publication
import Mathlib.Data.List.Forall2

namespace BengalMarket.Capture

open JsonText Lines

section Runs

variable {J : JsonLibrary} {path : String}

def frameKeys : List String := ["connection_id", "payload", "received_ns", "type"]

theorem frameKeys_spec : (frameKeys.map ascii).Pairwise (· < ·) ∧
    ∀ key ∈ frameKeys.map ascii, utf8 key = true := by decide +kernel

theorem plain_frameRecord {Double : Type} {parsed : Bool} (receivedNs connectionId : UInt64)
    {payload : Bytes} (h : utf8 payload = true) :
    plain true parsed (frameRecord receivedNs connectionId payload : Json Double) = true := by
  have hframe : utf8 (ascii "frame") = true := by decide +kernel
  rw [frameRecord, plain_object_iff frameKeys_spec rfl]
  simp [plain, h, hframe]

theorem writeFrame_spec (hJ : J.Lawful) {s : Progress} {message : Bytes} {wallTimeNs : UInt64}
    {results : List WriteResult} (hmessage : utf8 message = true)
    (hwrites : ∀ w ∈ (writeFrame J path s message wallTimeNs results).writes,
      w.written.error = none) :
    (writeFrame J path s message wallTimeNs results).next = .ok [] ∧
      (writeFrame J path s message wallTimeNs results).writes.map (·.payload) = [message] := by
  have hdump := hJ.dump _ (plain_frameRecord wallTimeNs s.connectionId hmessage)
  unfold writeFrame at hwrites ⊢
  rw [hdump] at hwrites ⊢
  dsimp only at hwrites ⊢
  split
  · rename_i what herror
    rw [herror] at hwrites
    have hnone := hwrites _ (List.mem_singleton.2 rfl)
    rw [herror] at hnone
    cases hnone
  · exact ⟨rfl, rfl⟩

theorem receive_assembled (hJ : J.Lawful) {s : Progress} {message : Bytes} {r : Receive}
    (hwrites : ∀ w ∈ (receive J path s message r).writes, w.written.error = none)
    (htexts : ∀ chunk payload, r.received = .chunk chunk →
      assemble message chunk = .ok (payload, true) → utf8 payload = true) :
    match (receive J path s message r).next with
    | .error _ => (receive J path s message r).writes = [] ∧ assembled message [r.received] = []
    | .ok next => ∀ rest, assembled message (r.received :: rest) =
        (receive J path s message r).writes.map (·.payload) ++ assembled next rest := by
  unfold receive at hwrites ⊢
  cases hreceived : r.received with
  | again before after result =>
    dsimp only
    rcases hwait : s.waitSocket before after result with ⟨t, _ | exit⟩
    · exact fun rest => rfl
    · exact ⟨rfl, rfl⟩
  | failed | noMetadata => exact ⟨rfl, rfl⟩
  | chunk chunk =>
    rw [hreceived] at hwrites
    dsimp only at hwrites ⊢
    rcases hassemble : assemble message chunk with what | ⟨payload, complete⟩
    · exact ⟨rfl, by rw [assembled, hassemble]⟩
    · cases complete with
      | false =>
        intro rest
        rw [assembled, hassemble]
        rfl
      | true =>
        rw [hassemble] at hwrites
        obtain ⟨hnext, hpayload⟩ :=
          writeFrame_spec hJ (htexts chunk payload hreceived hassemble) hwrites
        dsimp only
        rw [hnext]
        intro rest
        rw [hpayload, assembled, hassemble]
        rfl

theorem receive_unfinished {s : Progress} {message next : Bytes} {r : Receive}
    (hmessage : message.length ≤ maximumMessageSize)
    (h : (receive J path s message r).next = .ok next) : next.length ≤ maximumMessageSize ∧
      ∀ rest, unfinished message (r.received :: rest) = unfinished next rest := by
  unfold receive at h
  cases hreceived : r.received with
  | again before after result =>
    rw [hreceived] at h
    dsimp only at h
    split at h
    · cases h
    · cases h
      exact ⟨hmessage, fun rest => rfl⟩
  | failed | noMetadata =>
    rw [hreceived] at h
    cases h
  | chunk chunk =>
    rw [hreceived] at h
    dsimp only at h
    rcases hassemble : assemble message chunk with what | ⟨payload, _ | _⟩
    · rw [hassemble] at h
      cases h
    · rw [hassemble] at h
      cases h
      exact ⟨length_le_of_assemble hmessage hassemble, fun rest => by rw [unfinished, hassemble]⟩
    · rw [hassemble] at h
      obtain rfl : [] = next := by
        unfold writeFrame at h
        cases hdump : J.dump (frameRecord r.wallTimeNs s.connectionId payload) with
        | error what => simp [hdump] at h
        | ok line =>
          simp only [hdump] at h
          split at h
          · cases h
          · exact Except.ok.inj h
      exact ⟨Nat.zero_le _, fun rest => by rw [unfinished, hassemble]⟩

theorem receive_breaks (hJ : J.Lawful) {s : Progress} {message : Bytes} {r : Receive} {exit : Exit}
    (hmessage : message.length ≤ maximumMessageSize)
    (hwrites : ∀ w ∈ (receive J path s message r).writes, w.written.error = none)
    (htexts : ∀ chunk payload, r.received = .chunk chunk →
      assemble message chunk = .ok (payload, true) → utf8 payload = true)
    (h : (receive J path s message r).next = .error exit) :
    exit = .stopped ∧ (receive J path s message r).state.stop = true ∨
      ∃ what, exit = .failed what ∧ Breaks message r.received := by
  unfold receive at h hwrites ⊢
  cases hreceived : r.received with
  | again before after result =>
    rw [hreceived] at h
    dsimp only at h ⊢
    unfold Progress.waitSocket at h ⊢
    by_cases hbefore : (s.pass before).stop = true
    · simp only [hbefore, if_true, Except.error.injEq] at h ⊢
      exact .inl ⟨h.symm, trivial⟩
    · simp only [if_neg hbefore] at h ⊢
      cases result with
      | unknownSocket | noSocket | pollFailed =>
        cases h
        exact .inr ⟨_, rfl, .waited (by simp)⟩
      | ready =>
        by_cases hafter : ((s.pass before).pass after).stop = true
        · simp only [hafter, if_true, Except.error.injEq] at h ⊢
          exact .inl ⟨h.symm, trivial⟩
        · simp [hafter] at h
  | failed error =>
    rw [hreceived] at h
    cases h
    exact .inr ⟨_, rfl, .failure (.failed error)⟩
  | noMetadata =>
    rw [hreceived] at h
    cases h
    exact .inr ⟨_, rfl, .failure .noMetadata⟩
  | chunk chunk =>
    rw [hreceived] at h hwrites
    dsimp only at h hwrites
    rcases hassemble : assemble message chunk with what | ⟨payload, _ | _⟩
    · rw [hassemble] at h
      cases h
      exact .inr ⟨_, rfl, breaks_of_assemble hmessage hassemble⟩
    · rw [hassemble] at h
      cases h
    · rw [hassemble] at h hwrites
      have hnext := (writeFrame_spec hJ (htexts chunk payload hreceived hassemble) hwrites).1
      cases hnext.symm.trans h

theorem receiveLoop_assembled (hJ : J.Lawful) {deadline : Int} {s : Progress} {message : Bytes}
    {receives : List Receive} {connection : Connection}
    (hconnection : receiveLoop J path deadline s message receives = connection)
    (hwrites : ∀ w ∈ connection.writes, w.written.error = none)
    (htexts : ∀ payload ∈ assembled message connection.received, utf8 payload = true) :
    connection.writes.map (·.payload) = assembled message connection.received := by
  induction receives generalizing s message connection with
  | nil =>
    subst hconnection
    rfl
  | cons r rest ih =>
    rw [receiveLoop] at hconnection
    dsimp only at hconnection
    split at hconnection
    · subst hconnection
      rfl
    · have hstep := @receive_assembled J path hJ (s.pass r.signal) message r
      cases hnext : (receive J path (s.pass r.signal) message r).next with
      | error exit =>
        rw [hnext] at hconnection hstep
        subst hconnection
        obtain ⟨hnil, hnone⟩ := hstep hwrites fun chunk payload hreceived hassemble =>
          htexts payload (by rw [hreceived, assembled, hassemble]; simp)
        rw [hnil, hnone]
        rfl
      | ok next =>
        rw [hnext] at hconnection hstep
        subst hconnection
        dsimp only at hwrites htexts ⊢
        rw [List.forall_mem_append] at hwrites
        have hsplit := hstep hwrites.1 fun chunk payload hreceived hassemble =>
          htexts payload (by rw [hreceived, assembled, hassemble]; simp)
        rw [hsplit] at htexts ⊢
        rw [List.map_append, ih rfl hwrites.2 fun payload hpayload =>
          htexts payload (List.mem_append_right _ hpayload)]

theorem receiveLoop_received (deadline : Int) (s : Progress) (message : Bytes)
    (receives : List Receive) :
    (receiveLoop J path deadline s message receives).received <+: receives.map (·.received) := by
  induction receives generalizing s message with
  | nil => exact List.nil_prefix
  | cons r rest ih =>
    rw [receiveLoop]
    dsimp only
    split
    · exact List.nil_prefix
    · split
      · simp
      · simpa using ih _ _

/-- Why a connection is left of which no record failed: the script ends, the deadline has passed or a
stop was requested, or it fails with what it received last. -/
def LeftBy (deadline : Int) (message : Bytes) (receives received : List Received)
    (finish : Progress) : Exit → Prop
  | .pending => received = receives
  | .finished => finish.running deadline = false
  | .stopped => finish.stop = true
  | .failed _ => ∃ front last, received = front ++ [last] ∧ Breaks (unfinished message front) last

theorem LeftBy.cons {deadline : Int} {message next : Bytes} {receives received : List Received}
    {finish : Progress} {exit : Exit} {r : Received}
    (hnext : ∀ rest, unfinished message (r :: rest) = unfinished next rest)
    (h : LeftBy deadline next receives received finish exit) :
    LeftBy deadline message (r :: receives) (r :: received) finish exit := by
  cases exit with
  | pending => exact congrArg (List.cons r) h
  | finished | stopped => exact h
  | failed what =>
    obtain ⟨front, last, rfl, hbreaks⟩ := h
    exact ⟨r :: front, last, rfl, by rwa [hnext]⟩

theorem receiveLoop_left (hJ : J.Lawful) {deadline : Int} {s : Progress} {message : Bytes}
    {receives : List Receive} {connection : Connection}
    (hmessage : message.length ≤ maximumMessageSize)
    (hconnection : receiveLoop J path deadline s message receives = connection)
    (hwrites : ∀ w ∈ connection.writes, w.written.error = none)
    (htexts : ∀ payload ∈ assembled message connection.received, utf8 payload = true) :
    LeftBy deadline message (receives.map (·.received)) connection.received connection.state
      connection.exit := by
  induction receives generalizing s message connection with
  | nil =>
    subst hconnection
    exact rfl
  | cons r rest ih =>
    rw [receiveLoop] at hconnection
    dsimp only at hconnection
    split at hconnection
    · rename_i hrunning
      subst hconnection
      exact (by simpa using hrunning : (s.pass r.signal).running deadline = false)
    · have hstep := @receive_assembled J path hJ (s.pass r.signal) message r
      cases hnext : (receive J path (s.pass r.signal) message r).next with
      | error exit =>
        rw [hnext] at hconnection
        subst hconnection
        have hbreaks := @receive_breaks J path hJ (s.pass r.signal) message r exit hmessage hwrites
          (fun chunk payload hreceived hassemble =>
            htexts payload (by rw [hreceived, assembled, hassemble]; simp)) hnext
        rcases hbreaks with ⟨rfl, hstop⟩ | ⟨what, rfl, hbreaks⟩
        · exact hstop
        · exact ⟨[], r.received, rfl, hbreaks⟩
      | ok next =>
        rw [hnext] at hconnection hstep
        subst hconnection
        dsimp only at hwrites htexts ⊢
        rw [List.forall_mem_append] at hwrites
        have hsplit := hstep hwrites.1 fun chunk payload hreceived hassemble =>
          htexts payload (by rw [hreceived, assembled, hassemble]; simp)
        obtain ⟨hlength, hunfinished⟩ :=
          @receive_unfinished J path (s.pass r.signal) message next r hmessage hnext
        refine .cons hunfinished (ih hlength rfl hwrites.2 fun payload hpayload => ?_)
        refine htexts payload ?_
        rw [hsplit]
        exact List.mem_append_right _ hpayload

structure Attempt.Logs (deadline : Int) (a : Attempt) (entry : AttemptLog) : Prop where
  received : entry.received <+: a.receives.map (·.received)
  writes : (∀ w ∈ entry.writes, w.written.error = none) →
    (∀ payload ∈ assembled [] entry.received, utf8 payload = true) →
      entry.writes.map (·.payload) = assembled [] entry.received
  left : (∀ w ∈ entry.writes, w.written.error = none) →
    (∀ payload ∈ assembled [] entry.received, utf8 payload = true) → a.connect = .connected →
      LeftBy deadline [] (a.receives.map (·.received)) entry.received entry.finish entry.exit

theorem connect_logs (hJ : J.Lawful) (deadline : Int) (s : Progress) (a : Attempt) :
    a.Logs deadline (logOf deadline s a (connect J path deadline s a)) := by
  cases hconnect : a.connect with
  | stopped | failed =>
    unfold connect
    rw [hconnect]
    exact ⟨List.nil_prefix, fun _ _ => rfl, fun _ _ hconnected =>
      by cases hconnect.symm.trans hconnected⟩
  | connected =>
    unfold connect
    rw [hconnect]
    exact ⟨receiveLoop_received deadline s [] a.receives, receiveLoop_assembled hJ rfl,
      fun hwrites htexts _ => receiveLoop_left hJ (Nat.zero_le _) rfl hwrites htexts⟩

theorem captureLoop_logs (hJ : J.Lawful) (deadline : Int) (s : Progress)
    (attempts : List Attempt) :
    let log := (captureLoop J path deadline s attempts).log
    List.Forall₂ (Attempt.Logs deadline) (attempts.take log.length) log := by
  dsimp only
  induction attempts generalizing s with
  | nil => exact .nil
  | cons a rest ih =>
    rw [captureLoop]
    dsimp only
    split
    · exact .nil
    · have hfirst := @connect_logs J path hJ deadline
        { s.pass a.signal with connectionId := (s.pass a.signal).connectionId + 1 } a
      split
      · exact .cons hfirst .nil
      · exact .cons hfirst .nil
      · exact .cons hfirst (ih _)
      · split
        · exact .cons hfirst .nil
        · exact .cons hfirst (ih _)

theorem captureLive_logs (hJ : J.Lawful) (options : CaptureOptions) (script : Script) :
    let log := (captureLive J options script).log
    List.Forall₂ (Attempt.Logs (deadline script.startNs options.durationSeconds))
      (script.attempts.take log.length) log := by
  dsimp only
  rcases captureLive_cases (J := J) options script with ⟨hnil, -, -⟩ | ⟨metadata, -, -, hrun⟩
  · rw [hnil]
    exact .nil
  · have hlogs := @captureLoop_logs J (temporary options.output) hJ
      (deadline script.startNs options.durationSeconds)
      { now := script.startNs, file := metadata ++ [newline] } script.attempts
    rw [hrun, captureFrom]
    dsimp only
    split
    · exact hlogs
    · exact hlogs
    · rw [(finish_log options script _ _).1]
      exact hlogs

structure Completed (entry : AttemptLog) (ms : List Message) : Prop where
  feed : Feed entry.received ms
  payloads : entry.writes.map (·.payload) = assembled [] entry.received
  texts : ∀ payload ∈ assembled [] entry.received, utf8 payload = true

theorem Attempt.Logs.completed {deadline : Int} {a : Attempt} {entry : AttemptLog}
    {sent : List Message} (h : a.Logs deadline entry) (hsent : Feed (a.receives.map (·.received)) sent)
    (htexts : ∀ payload, .text payload ∈ sent → utf8 payload = true)
    (hwrites : ∀ w ∈ entry.writes, w.written.error = none) :
    ∃ received, received <+: sent ∧ Completed entry received := by
  obtain ⟨received, hreceived, hfeed⟩ := hsent.take h.received
  have hutf8 : ∀ payload ∈ assembled [] entry.received, utf8 payload = true := by
    rw [assembled_feed hfeed]
    exact fun payload hpayload =>
      htexts payload (hreceived.subset (recordedTexts_mem hpayload))
  exact ⟨received, hreceived, hfeed, h.writes hwrites hutf8, hutf8⟩

theorem exists_completed {deadline : Int} {attempts : List Attempt} {log : List AttemptLog}
    {sent : List (List Message)} (hlog : List.Forall₂ (Attempt.Logs deadline) attempts log)
    (hsent : List.Forall₂ (fun a ms => Feed (a.receives.map (·.received)) ms) attempts sent)
    (htexts : ∀ ms ∈ sent, ∀ payload, .text payload ∈ ms → utf8 payload = true)
    (hwrites : ∀ w ∈ writesOf log, w.written.error = none) :
    ∃ received, List.Forall₂ (· <+: ·) received sent ∧ List.Forall₂ Completed log received := by
  induction hlog generalizing sent with
  | nil =>
    cases hsent
    exact ⟨[], .nil, .nil⟩
  | @cons a entry attempts log hentry _ ih =>
    cases hsent with
    | cons hfeed hsent =>
      rw [List.forall_mem_cons] at htexts
      rw [writesOf, List.flatMap_cons, List.forall_mem_append] at hwrites
      obtain ⟨ms, hms, hcompleted⟩ := hentry.completed hfeed htexts.1 hwrites.1
      obtain ⟨received, hreceived, hrest⟩ := ih hsent htexts.2 hwrites.2
      exact ⟨ms :: received, .cons hms hreceived, .cons hcompleted hrest⟩

end Runs

section Writes

variable {J : JsonLibrary} {path : String}

theorem receive_succeeds {s : Progress} {message : Bytes} {r : Receive} (h : Succeeds r.writes) :
    ∀ w ∈ (receive J path s message r).writes, w.written.error = none := by
  unfold receive
  cases r.received with
  | again before after result =>
    rcases hwait : s.waitSocket before after result with ⟨t, _ | exit⟩ <;> simp [hwait]
  | failed | noMetadata => simp
  | chunk chunk =>
    dsimp only
    split
    · simp
    · simp
    · unfold writeFrame
      split
      · simp
      · rename_i line _
        dsimp only
        rw [@writeLine_of_succeeds path line _ h]
        simpa using @writeLine_of_succeeds path line _ h

theorem receiveLoop_succeeds {deadline : Int} {s : Progress} {message : Bytes}
    {receives : List Receive} (h : ∀ r ∈ receives, Succeeds r.writes) :
    ∀ w ∈ (receiveLoop J path deadline s message receives).writes, w.written.error = none := by
  induction receives generalizing s message with
  | nil => simp [receiveLoop]
  | cons r rest ih =>
    rw [List.forall_mem_cons] at h
    rw [receiveLoop]
    dsimp only
    split
    · simp
    · have hfirst := @receive_succeeds J path (s.pass r.signal) message r h.1
      split
      · exact hfirst
      · exact List.forall_mem_append.2 ⟨hfirst, ih h.2⟩

theorem connect_succeeds {deadline : Int} {s : Progress} {a : Attempt}
    (h : ∀ r ∈ a.receives, Succeeds r.writes) :
    ∀ w ∈ (connect J path deadline s a).writes, w.written.error = none := by
  unfold connect
  cases a.connect with
  | stopped | failed => simp
  | connected => exact receiveLoop_succeeds h

theorem captureLoop_succeeds {deadline : Int} {s : Progress} {attempts : List Attempt}
    (h : ∀ a ∈ attempts, ∀ r ∈ a.receives, Succeeds r.writes) :
    ∀ w ∈ writesOf (captureLoop J path deadline s attempts).log, w.written.error = none := by
  induction attempts generalizing s with
  | nil => simp [captureLoop, writesOf]
  | cons a rest ih =>
    rw [List.forall_mem_cons] at h
    rw [captureLoop]
    dsimp only
    split
    · simp [writesOf]
    · have hfirst := @connect_succeeds J path deadline
        { s.pass a.signal with connectionId := (s.pass a.signal).connectionId + 1 } a h.1
      split
      · simpa [writesOf, logOf] using hfirst
      · simpa [writesOf, logOf] using hfirst
      · exact List.forall_mem_append.2 ⟨hfirst, ih h.2⟩
      · split
        · simpa [writesOf, logOf] using hfirst
        · exact List.forall_mem_append.2 ⟨hfirst, ih h.2⟩

theorem captureLive_succeeds {options : CaptureOptions} {script : Script}
    (h : ∀ a ∈ script.attempts, ∀ r ∈ a.receives, Succeeds r.writes) :
    ∀ w ∈ writesOf (captureLive J options script).log, w.written.error = none := by
  rcases captureLive_cases (J := J) options script with ⟨hnil, -, -⟩ | ⟨metadata, -, -, hrun⟩
  · simp [hnil, writesOf]
  · have hloop := @captureLoop_succeeds J (temporary options.output)
      (deadline script.startNs options.durationSeconds)
      { now := script.startNs, file := metadata ++ [newline] } script.attempts h
    rw [hrun, captureFrom]
    dsimp only
    split
    · exact hloop
    · exact hloop
    · rw [(finish_log options script _ _).1]
      exact hloop

end Writes

section Numbers

structure Numbered (log : List AttemptLog) : Prop where
  numbers : log.map (·.connectionId.toNat) = List.range' 1 log.length
  writes : ∀ entry ∈ log, ∀ w ∈ entry.writes, w.connectionId = entry.connectionId

variable {J : JsonLibrary}

theorem Recorded.numbered {options : CaptureOptions} {metadata : Bytes} {run : Run}
    (h : Recorded J options metadata run) : Numbered run.log := by
  refine ⟨?_, fun entry hentry w hw => (h.writes entry hentry w hw).connection⟩
  have hids := congrArg (List.map UInt64.toNat) h.ids
  have hattempts := h.attempts
  rw [List.map_map, List.map_map] at hids
  rw [List.range'_eq_map_range]
  refine hids.trans (List.map_congr_left fun i hi => ?_)
  have hlt := List.mem_range.1 hi
  rw [Function.comp_apply, UInt64.toNat_ofNat_of_lt' (by exact lt_of_le_of_lt hlt hattempts)]
  omega

theorem numbered_captureLive (options : CaptureOptions) (script : Script) :
    Numbered (captureLive J options script).log := by
  rcases captureLive_cases (J := J) options script with ⟨hnil, -, -⟩ | ⟨metadata, -, -, hrun⟩
  · rw [hnil]
    exact ⟨rfl, by simp⟩
  · rw [hrun]
    exact (recorded_captureFrom options script metadata).numbered

theorem Numbered.connectionId {log : List AttemptLog} (h : Numbered log) {i : Nat}
    (hi : i < log.length) : log[i].connectionId.toNat = i + 1 := by
  have hnumber := congrArg (fun numbers => numbers[i]?) h.numbers
  simpa [hi, Nat.add_comm] using hnumber

theorem Numbered.connection_iff {log : List AttemptLog} (h : Numbered log) {i j : Nat}
    (hi : i < log.length) (hj : j < log.length) {w w' : FrameWrite} (hw : w ∈ log[i].writes)
    (hw' : w' ∈ log[j].writes) : w.connectionId = w'.connectionId ↔ i = j := by
  rw [h.writes _ (List.getElem_mem hi) w hw, h.writes _ (List.getElem_mem hj) w' hw',
    ← UInt64.toNat_inj, h.connectionId hi, h.connectionId hj, Nat.add_right_cancel_iff]

theorem Numbered.ordered {log : List AttemptLog} (h : Numbered log) :
    ((writesOf log).map (·.connectionId)).Pairwise (· ≤ ·) := by
  have hnumbers : (log.map (·.connectionId.toNat)).Pairwise (· < ·) :=
    h.numbers ▸ List.pairwise_lt_range'
  rw [List.pairwise_map] at hnumbers ⊢
  rw [writesOf, List.pairwise_flatMap]
  constructor
  · intro entry hentry
    refine List.pairwise_of_forall_mem_list fun w hw w' hw' => ?_
    rw [h.writes entry hentry w hw, h.writes entry hentry w' hw']
    exact UInt64.le_refl _
  · refine List.Pairwise.imp_of_mem ?_ hnumbers
    intro entry entry' hentry hentry' hlt w hw w' hw'
    rw [h.writes entry hentry w hw, h.writes entry' hentry' w' hw']
    exact UInt64.le_iff_toNat_le.2 hlt.le

def recordsOf (log : List AttemptLog) : List (Nat × Bytes) :=
  (writesOf log).map fun w => (w.connectionId.toNat, w.payload)

def numberedTexts (start : Nat) (received : List (List Message)) : List (Nat × Bytes) :=
  (received.zipIdx start).flatMap fun entry =>
    (recordedTexts entry.1).map fun text => (entry.2, text)

theorem recordsOf_eq {log : List AttemptLog} {received : List (List Message)} {start : Nat}
    (h : List.Forall₂ (fun entry ms => entry.writes.map (·.payload) = recordedTexts ms) log
      received)
    (hnumbers : log.map (·.connectionId.toNat) = List.range' start log.length)
    (hwrites : ∀ entry ∈ log, ∀ w ∈ entry.writes, w.connectionId = entry.connectionId) :
    recordsOf log = numberedTexts start received := by
  induction h generalizing start with
  | nil => rfl
  | @cons entry ms log received hentry _ ih =>
    rw [List.map_cons, List.length_cons, List.range'_succ] at hnumbers
    obtain ⟨hstart, hrest⟩ := List.cons.inj hnumbers
    rw [List.forall_mem_cons] at hwrites
    have hfirst : entry.writes.map (fun w => (w.connectionId.toNat, w.payload)) =
        (recordedTexts ms).map fun text => (start, text) := by
      rw [← hentry, List.map_map]
      refine List.map_congr_left fun w hw => ?_
      rw [Function.comp_apply, hwrites.1 w hw, hstart]
    rw [numberedTexts, List.zipIdx_cons, List.flatMap_cons, ← numberedTexts,
      ← ih hrest hwrites.2, ← hfirst]
    simp [recordsOf, writesOf]

end Numbers

section Messages

variable {J : JsonLibrary}

/-- `sent` has the messages of each attempt; the run may leave each connection early. -/
structure RecordsMessages (J : JsonLibrary) (options : CaptureOptions) (script : Script) (run : Run)
    (sent : List (List Message)) : Prop where
  received : ∃ received, List.Forall₂ (· <+: ·) received (sent.take run.log.length) ∧
    List.Forall₂ (fun entry ms => Feed entry.received ms) run.log received
  left : ∀ i (hi : i < run.log.length) a, script.attempts[i]? = some a → a.connect = .connected →
    LeftBy (deadline script.startNs options.durationSeconds) [] (a.receives.map (·.received))
      run.log[i].received run.log[i].finish run.log[i].exit
  records : ∀ received, List.Forall₂ (fun entry ms => Feed entry.received ms) run.log received →
    recordsOf run.log = numberedTexts 1 received
  connections : ∀ i j (hi : i < run.log.length) (hj : j < run.log.length),
    ∀ w ∈ run.log[i].writes, ∀ w' ∈ run.log[j].writes,
      (w.connectionId = w'.connectionId ↔ i = j)
  ordered : ((writesOf run.log).map (·.connectionId)).Pairwise (· ≤ ·)
  lines : ∀ w ∈ writesOf run.log,
    J.parse w.line = some (frameRecord w.receivedNs w.connectionId w.payload)
  file : run.log ≠ [] → ∃ metadata, J.dump (metadataRecord options) = .ok metadata ∧
    run.file = some (terminated (metadata :: (writesOf run.log).map (·.line)))

theorem Completed.utf8_payload {entry : AttemptLog} {ms : List Message} (h : Completed entry ms)
    {w : FrameWrite} (hw : w ∈ entry.writes) : utf8 w.payload = true :=
  h.texts _ (h.payloads ▸ List.mem_map_of_mem hw)

theorem exists_completed_of_mem {log : List AttemptLog} {received : List (List Message)}
    (h : List.Forall₂ Completed log received) {entry : AttemptLog} (hentry : entry ∈ log) :
    ∃ ms, Completed entry ms := by
  induction h with
  | nil => simp at hentry
  | cons hfirst _ ih =>
    rcases List.mem_cons.1 hentry with rfl | hrest
    · exact ⟨_, hfirst⟩
    · exact ih hrest

theorem recordedTexts_of_completed {log : List AttemptLog} {received : List (List Message)}
    (h : ∀ entry ∈ log, ∃ ms, Completed entry ms)
    (hfeed : List.Forall₂ (fun entry ms => Feed entry.received ms) log received) :
    List.Forall₂ (fun entry ms => entry.writes.map (·.payload) = recordedTexts ms) log
      received := by
  induction hfeed with
  | nil => exact .nil
  | cons hfirst _ ih =>
    rw [List.forall_mem_cons] at h
    obtain ⟨ms, hcompleted⟩ := h.1
    exact .cons (hcompleted.payloads.trans (assembled_feed hfirst)) (ih h.2)

/-- A run whose writes succeed records the texts it received: in order, each over its own
connection, and however they were cut. -/
theorem captureLive_records_messages (hJ : J.Lawful) {options : CaptureOptions} {script : Script}
    {sent : List (List Message)}
    (hsent : List.Forall₂ (fun a ms => Feed (a.receives.map (·.received)) ms) script.attempts sent)
    (htexts : ∀ ms ∈ sent, ∀ payload, .text payload ∈ ms → utf8 payload = true)
    (hwrites : ∀ w ∈ writesOf (captureLive J options script).log, w.written.error = none) :
    RecordsMessages J options script (captureLive J options script) sent := by
  have hlogs := captureLive_logs hJ options script
  have hnumbered := @numbered_captureLive J options script
  have hcases := captureLive_cases (J := J) options script
  dsimp only at hlogs hcases
  generalize captureLive J options script = run at *
  obtain ⟨received, hreceived, hcompleted⟩ := exists_completed hlogs
    (List.forall₂_take run.log.length hsent)
    (fun ms hms => htexts ms ((List.take_subset _ _) hms)) hwrites
  have hentries := fun entry => @exists_completed_of_mem _ _ hcompleted entry
  refine ⟨⟨received, hreceived, hcompleted.imp fun _ _ h => h.feed⟩, ?_, ?_, ?_,
    hnumbered.ordered, ?_, ?_⟩
  · intro i hi a ha hconnected
    have hi' : i < (script.attempts.take run.log.length).length := by
      rw [hlogs.length_eq]
      exact hi
    have hlog := hlogs.get hi' hi
    have htake : (script.attempts.take run.log.length).get ⟨i, hi'⟩ = a := by
      rw [List.get_eq_getElem, List.getElem_take]
      exact (List.getElem?_eq_some_iff.1 ha).2
    rw [htake] at hlog
    obtain ⟨ms, hms⟩ := hentries _ (List.getElem_mem hi)
    exact hlog.left (fun w hw => hwrites w (List.mem_flatMap.2 ⟨_, List.getElem_mem hi, hw⟩))
      hms.texts hconnected
  · intro received' hfeed
    exact recordsOf_eq (recordedTexts_of_completed hentries hfeed) hnumbered.numbers
      hnumbered.writes
  · intro i j hi hj w hw w' hw'
    exact hnumbered.connection_iff hi hj hw hw'
  · intro w hw
    rcases hcases with ⟨hnil, -, -⟩ | ⟨metadata, -, -, rfl⟩
    · rw [hnil] at hw
      cases hw
    · obtain ⟨entry, hentry, hw⟩ := List.mem_flatMap.1 hw
      obtain ⟨ms, hms⟩ := hentries entry hentry
      have hframe := (recorded_captureFrom options script metadata).writes entry hentry w hw
      have hline := (dump_eq_ok hJ (doubleFree_frameRecord _ _ _) hframe.dump).2.1
      rw [hline]
      exact hJ.parse _ (plain_frameRecord _ _ (hms.utf8_payload hw))
  · intro hne
    rcases hcases with ⟨hnil, -, -⟩ | ⟨metadata, -, hdump, rfl⟩
    · exact absurd hnil hne
    · have hrecorded := recorded_captureFrom (J := J) options script metadata
      have hall : recorded (writesOf (captureFrom J options script (metadata ++ [newline])).log) =
          writesOf (captureFrom J options script (metadata ++ [newline])).log :=
        recorded_eq_self hwrites
      refine ⟨metadata, hdump, ?_⟩
      have hbytes := @bytesOf_recorded J (temporary options.output)
        (writesOf (captureFrom J options script (metadata ++ [newline])).log) fun w hw => by
          obtain ⟨entry, hentry, hw⟩ := List.mem_flatMap.1 hw
          exact ⟨_, hrecorded.writes entry hentry w hw⟩
      rw [hall] at hbytes
      rw [hrecorded.file, hbytes, terminated, terminated, List.flatMap_cons]

def fixturePart : Received := .chunk ⟨{ text := true, cont := true }, 0, ascii "[", by decide⟩

def fixtureCut : List Received := [
  fixturePart,
  fixtureControl { ping := true },
  .chunk ⟨{ text := true }, 1, ascii "1", by decide⟩,
  .chunk ⟨{ text := true }, 0, ascii "]", by decide⟩]

def fixtureStop : Received := .again { stop := true } {} .ready

def fixtureMessage : Message := .text (ascii "[" ++ (ascii "1" ++ ascii "]"))

def fixtureAttempt (received : List Received) : Attempt where
  connect := .connected
  receives := received.map fun received => { received := received }

def fixtureReconnect : Script where
  attempts := [fixtureAttempt [fixturePart, fixtureClose],
    fixtureAttempt (fixtureCut ++ [fixtureStop])]

theorem cut_fixtureMessage : fixtureMessage.Cut fixtureCut := by
  have hfirst : FragmentCut (fixtureMessage.flags true) [fixturePart] (ascii "[") := .last rfl rfl
  have hsecond : FragmentCut (fixtureMessage.flags false) (fixtureCut.drop 1)
      (ascii "1" ++ ascii "]") :=
    .noise (.control rfl rfl) (.more rfl (by decide) (.last rfl rfl))
  exact @MessageCut.cont (fun cont => fixtureMessage.flags cont) _ _ _ _ hfirst (.final hsecond)

theorem captureLive_records_messages_reconnect :
    let run := captureLive .reference fixtureOptions fixtureReconnect
    recordsOf run.log = [(2, ascii "[1]")] ∧
      RecordsMessages .reference fixtureOptions fixtureReconnect run [[], [fixtureMessage]] := by
  have hopen : Incomplete [fixturePart] :=
    ⟨fixtureMessage, fixtureCut.drop 1, cut_fixtureMessage, by simp [fixtureCut]⟩
  have hclose : Failure fixtureClose := .close rfl
  have hstop : Incomplete [fixtureStop] :=
    ⟨.text [], [fixtureControl { text := true }],
      .final (.noise (.again _ _ _) (.last rfl rfl)), by simp⟩
  refine ⟨by decide +kernel,
    captureLive_records_messages JsonLibrary.reference_lawful ?_ ?_ ?_⟩
  · exact .cons (.fails hopen hclose []) (.cons (.message cut_fixtureMessage (.ends hstop)) .nil)
  · intro ms hms payload hpayload
    simp only [List.mem_cons, List.not_mem_nil, or_false] at hms
    rcases hms with rfl | rfl
    · cases hpayload
    · cases List.mem_singleton.1 hpayload
      decide +kernel
  · decide +kernel

end Messages

end BengalMarket.Capture
