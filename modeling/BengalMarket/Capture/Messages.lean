import BengalMarket.Capture.Core

namespace BengalMarket.Capture

inductive Message
  | text (payload : Bytes)
  | binary (payload : Bytes)

namespace Message

def payload : Message → Bytes
  | text payload | binary payload => payload

def flags (cont : Bool) : Message → Flags
  | text _ => { text := true, cont := cont }
  | binary _ => { binary := true, cont := cont }

def fits : Message → Bool
  | text payload => payload.length ≤ maximumMessageSize
  | binary _ => true

def text? : Message → Option Bytes
  | text payload => some payload
  | binary _ => none

end Message

section Cut

inductive Noise : Received → Prop
  | again (before after : Signal) (result : WaitResult) : Noise (.again before after result)
  | control {chunk : Chunk} (hclose : chunk.flags.close = false)
      (hcontrol : (chunk.flags.ping || chunk.flags.pong) = true) : Noise (.chunk chunk)

inductive Failure : Received → Prop
  | failed (error : String) : Failure (.failed error)
  | noMetadata : Failure .noMetadata
  | close {chunk : Chunk} (hclose : chunk.flags.close = true) : Failure (.chunk chunk)

/-- The chunks of one fragment: nothing is left of it after the last one only. -/
inductive FragmentCut (flags : Flags) : List Received → Bytes → Prop
  | last {chunk : Chunk} (hflags : chunk.flags = flags) (hleft : chunk.bytesLeft = 0) :
      FragmentCut flags [.chunk chunk] chunk.data
  | more {chunk : Chunk} {rest : List Received} {data : Bytes} (hflags : chunk.flags = flags)
      (hleft : chunk.bytesLeft ≠ 0) (hrest : FragmentCut flags rest data) :
      FragmentCut flags (.chunk chunk :: rest) (chunk.data ++ data)
  | noise {r : Received} {rest : List Received} {data : Bytes} (hnoise : Noise r)
      (hrest : FragmentCut flags rest data) : FragmentCut flags (r :: rest) data

/-- The fragments of one message; `flags` are those of a chunk by whether another follows. -/
inductive MessageCut (flags : Bool → Flags) : List Received → Bytes → Prop
  | final {rs : List Received} {data : Bytes} (h : FragmentCut (flags false) rs data) :
      MessageCut flags rs data
  | cont {first rest : List Received} {data later : Bytes}
      (hfirst : FragmentCut (flags true) first data) (hrest : MessageCut flags rest later) :
      MessageCut flags (first ++ rest) (data ++ later)

def Message.Cut (m : Message) (rs : List Received) : Prop :=
  MessageCut (fun cont => m.flags cont) rs m.payload

def Incomplete (rs : List Received) : Prop :=
  ∃ (m : Message) (later : List Received), m.Cut (rs ++ later) ∧ later ≠ []

/-- What is received on a connection, and the messages that are complete.  After a failure
nothing more is read. -/
inductive Feed : List Received → List Message → Prop
  | message {m : Message} {rs rest : List Received} {ms : List Message} (hcut : m.Cut rs)
      (hrest : Feed rest ms) : Feed (rs ++ rest) (m :: ms)
  | ends {rs : List Received} (h : Incomplete rs) : Feed rs []
  | fails {rs : List Received} {r : Received} (h : Incomplete rs) (hr : Failure r)
      (rest : List Received) : Feed (rs ++ r :: rest) []

end Cut

theorem Incomplete.take {rs later : List Received} (h : Incomplete (rs ++ later)) :
    Incomplete rs := by
  obtain ⟨m, more, hcut, hmore⟩ := h
  rw [List.append_assoc] at hcut
  exact ⟨m, later ++ more, hcut, by simp [hmore]⟩

theorem Feed.take {rs : List Received} {ms : List Message} (h : Feed rs ms) {front : List Received}
    (hfront : front <+: rs) : ∃ received, received <+: ms ∧ Feed front received := by
  induction h generalizing front with
  | @message m rs rest ms hcut hrest ih =>
    obtain ⟨later, hlater⟩ := hfront
    rcases List.append_eq_append_iff.1 hlater with ⟨more, rfl, hmore⟩ | ⟨more, rfl, hmore⟩
    · by_cases hnil : more = []
      · subst hnil
        rw [List.append_nil] at hcut
        obtain ⟨received, hreceived, hfeed⟩ := ih (List.nil_prefix)
        refine ⟨m :: received, by simpa using hreceived, ?_⟩
        simpa using Feed.message hcut hfeed
      · exact ⟨[], List.nil_prefix, .ends ⟨m, more, hcut, hnil⟩⟩
    · obtain ⟨received, hreceived, hfeed⟩ := ih ⟨later, hmore.symm⟩
      exact ⟨m :: received, by simpa using hreceived, .message hcut hfeed⟩
  | ends hincomplete =>
    obtain ⟨later, rfl⟩ := hfront
    exact ⟨[], List.nil_prefix, .ends hincomplete.take⟩
  | @fails rs r hincomplete hr rest =>
    obtain ⟨later, hlater⟩ := hfront
    rcases List.append_eq_append_iff.1 hlater with ⟨more, rfl, -⟩ | ⟨more, rfl, hmore⟩
    · exact ⟨[], List.nil_prefix, .ends hincomplete.take⟩
    · cases more with
      | nil => exact ⟨[], List.nil_prefix, .ends (by simpa using hincomplete)⟩
      | cons next more =>
        obtain ⟨rfl, -⟩ := List.cons.inj hmore
        exact ⟨[], List.nil_prefix, .fails hincomplete hr more⟩

def assembled (message : Bytes) : List Received → List Bytes
  | [] => []
  | .again .. :: rest => assembled message rest
  | .failed _ :: _ => []
  | .noMetadata :: _ => []
  | .chunk chunk :: rest =>
    match assemble message chunk with
    | .error _ => []
    | .ok (message, false) => assembled message rest
    | .ok (message, true) => message :: assembled [] rest

def unfinished (message : Bytes) : List Received → Bytes
  | [] => message
  | .again .. :: rest => unfinished message rest
  | .failed _ :: _ => message
  | .noMetadata :: _ => message
  | .chunk chunk :: rest =>
    match assemble message chunk with
    | .error _ => message
    | .ok (message, false) => unfinished message rest
    | .ok (_, true) => unfinished [] rest

/-- A connection on which so much of a message was received fails with this result. -/
inductive Breaks (message : Bytes) : Received → Prop
  | waited {before after : Signal} {result : WaitResult} (h : result ≠ .ready) :
      Breaks message (.again before after result)
  | failure {r : Received} (h : Failure r) : Breaks message r
  | oversized {chunk : Chunk} (htext : chunk.flags.text = true)
      (hlong : maximumMessageSize < message.length + chunk.data.length) :
      Breaks message (.chunk chunk)

section Assemble

variable {message : Bytes} {rest : List Received}

theorem assembled_noise {r : Received} (h : Noise r) :
    assembled message (r :: rest) = assembled message rest := by
  cases h with
  | again => rfl
  | control hclose hcontrol => simp [assembled, assemble, hclose, hcontrol]

theorem assembled_failure {r : Received} (h : Failure r) : assembled message (r :: rest) = [] := by
  cases h with
  | failed | noMetadata => rfl
  | close hclose => simp [assembled, assemble, hclose]

/-- The subtraction does not wrap around, since the message before the chunk fits. -/
theorem exceedsLimit_iff {received : Nat} (hmessage : message.length ≤ maximumMessageSize)
    (hreceived : received ≤ bufferSize) :
    exceedsLimit received message = true ↔ maximumMessageSize < message.length + received := by
  simp only [maximumMessageSize, bufferSize] at hmessage hreceived ⊢
  simp only [exceedsLimit, maximumMessageSize, gt_iff_lt, decide_eq_true_eq, UInt64.lt_iff_toNat_lt]
  rw [UInt64.toNat_sub_of_le]
  · simp only [UInt64.toNat_ofNat']
    omega
  · simp only [UInt64.le_iff_toNat_le, UInt64.toNat_ofNat']
    omega

theorem breaks_of_assemble {chunk : Chunk} {what : String}
    (hmessage : message.length ≤ maximumMessageSize)
    (h : assemble message chunk = .error what) : Breaks message (.chunk chunk) := by
  unfold assemble at h
  split at h
  · rename_i hclose
    exact .failure (.close hclose)
  · split at h
    · cases h
    · split at h
      · cases h
      · split at h
        · cases h
        · rename_i htext
          split at h
          · rename_i hlong
            exact .oversized (by simpa using htext) ((exceedsLimit_iff hmessage chunk.fits).1 hlong)
          · cases h

theorem length_le_of_assemble {chunk : Chunk} {next : Bytes} {complete : Bool}
    (hmessage : message.length ≤ maximumMessageSize)
    (h : assemble message chunk = .ok (next, complete)) : next.length ≤ maximumMessageSize := by
  unfold assemble at h
  split at h
  · cases h
  · split at h
    · cases h
      exact hmessage
    · split at h
      · cases h
        exact Nat.zero_le _
      · split at h
        · cases h
          exact hmessage
        · split at h
          · cases h
          · rename_i hlong
            cases h
            rw [exceedsLimit_iff hmessage chunk.fits] at hlong
            rw [List.length_append]
            exact Nat.le_of_not_lt hlong

theorem assembled_text {cont : Bool} {chunk : Chunk}
    (hflags : chunk.flags = { text := true, cont := cont })
    (hmessage : message.length ≤ maximumMessageSize) :
    assembled message (.chunk chunk :: rest) =
      if maximumMessageSize < message.length + chunk.data.length then []
      else if chunk.bytesLeft = 0 ∧ cont = false then
        (message ++ chunk.data) :: assembled [] rest
      else assembled (message ++ chunk.data) rest := by
  rw [assembled, assemble, hflags]
  simp only [Bool.false_eq_true, if_false, Bool.or_false, Bool.not_true,
    exceedsLimit_iff hmessage chunk.fits]
  by_cases hlong : maximumMessageSize < message.length + chunk.data.length
  · simp [hlong]
  · rw [if_neg hlong, if_neg hlong]
    by_cases hlast : chunk.bytesLeft = 0 ∧ cont = false
    · simp [hlast]
    · rw [if_neg hlast]
      have hnot : (chunk.bytesLeft == 0 && !cont) = false := by
        simpa [Bool.and_eq_false_iff] using hlast
      simp [hnot]

theorem assembled_binary {cont : Bool} {chunk : Chunk}
    (hflags : chunk.flags = { binary := true, cont := cont }) :
    assembled message (.chunk chunk :: rest) = assembled [] rest := by
  simp [assembled, assemble, hflags]

theorem assembled_text_fragment {cont : Bool} {rs : List Received} {data : Bytes}
    (h : FragmentCut { text := true, cont := cont } rs data)
    (hmessage : message.length ≤ maximumMessageSize) :
    assembled message (rs ++ rest) =
      if maximumMessageSize < message.length + data.length then []
      else if cont = false then (message ++ data) :: assembled [] rest
      else assembled (message ++ data) rest := by
  induction h generalizing message with
  | last hflags hleft =>
    rw [List.singleton_append, assembled_text hflags hmessage]
    simp [hleft]
  | @more chunk rs data hflags hleft hrs ih =>
    rw [List.cons_append, assembled_text hflags hmessage, List.length_append]
    by_cases hlong : maximumMessageSize < message.length + chunk.data.length
    · rw [if_pos hlong, if_pos (by omega)]
    · rw [if_neg hlong, if_neg (by simp [hleft]), ih (by simpa using hlong), List.length_append,
        Nat.add_assoc, List.append_assoc]
  | noise hnoise _ ih => rw [List.cons_append, assembled_noise hnoise, ih hmessage]

theorem assembled_binary_fragment {cont : Bool} {rs : List Received} {data : Bytes}
    (h : FragmentCut { binary := true, cont := cont } rs data) :
    assembled [] (rs ++ rest) = assembled [] rest := by
  induction h with
  | last hflags _ => exact assembled_binary hflags
  | more hflags _ _ ih => rw [List.cons_append, assembled_binary hflags, ih]
  | noise hnoise _ ih => rw [List.cons_append, assembled_noise hnoise, ih]

theorem assembled_text_cut {rs : List Received} {data payload : Bytes}
    (h : MessageCut (fun cont => (Message.text payload).flags cont) rs data)
    (hmessage : message.length ≤ maximumMessageSize) :
    assembled message (rs ++ rest) =
      if maximumMessageSize < message.length + data.length then []
      else (message ++ data) :: assembled [] rest := by
  induction h generalizing message with
  | final hfragment => rw [assembled_text_fragment hfragment hmessage, if_pos rfl]
  | @cont first rs data later hfirst _ ih =>
    rw [List.append_assoc, assembled_text_fragment hfirst hmessage, List.length_append]
    by_cases hlong : maximumMessageSize < message.length + data.length
    · rw [if_pos hlong, if_pos (by omega)]
    · rw [if_neg hlong, if_neg (by simp), ih (by simpa using hlong), List.length_append,
        Nat.add_assoc, List.append_assoc]

theorem assembled_binary_cut {rs : List Received} {data payload : Bytes}
    (h : MessageCut (fun cont => (Message.binary payload).flags cont) rs data) :
    assembled [] (rs ++ rest) = assembled [] rest := by
  induction h with
  | final hfragment => exact assembled_binary_fragment hfragment
  | cont hfirst _ ih => rw [List.append_assoc, assembled_binary_fragment hfirst, ih]

section Incomplete

theorem assembled_open {m : Message} {cont : Bool} {chunk : Chunk}
    (hflags : chunk.flags = m.flags cont) (hopen : chunk.bytesLeft ≠ 0 ∨ cont = true)
    (hrest : ∀ message, assembled message rest = []) :
    assembled message (.chunk chunk :: rest) = [] := by
  cases m with
  | binary payload => rw [assembled_binary hflags, hrest]
  | text payload =>
    have hlast : (chunk.bytesLeft == 0 && !cont) = false := by
      rcases hopen with hleft | rfl <;> simp [*]
    rw [assembled, assemble, hflags]
    simp only [Message.flags, hlast]
    by_cases hlong : exceedsLimit chunk.data.length message = true <;> simp [hlong, hrest]

theorem assembled_open_fragment {m : Message} {rs : List Received} {data : Bytes}
    (h : FragmentCut (m.flags true) rs data) (hrest : ∀ message, assembled message rest = []) :
    assembled message (rs ++ rest) = [] := by
  induction h generalizing message with
  | last hflags _ => exact assembled_open hflags (.inr rfl) hrest
  | more hflags _ _ ih => exact assembled_open hflags (.inr rfl) fun message => ih
  | noise hnoise _ ih => rw [List.cons_append, assembled_noise hnoise, ih]

theorem assembled_of_fragment_append {m : Message} {cont : Bool} {rs later : List Received}
    {data : Bytes} (h : FragmentCut (m.flags cont) (rs ++ later) data) (hlater : later ≠ [])
    (hrest : ∀ message, assembled message rest = []) : assembled message (rs ++ rest) = [] := by
  generalize hwhole : rs ++ later = whole at h
  induction h generalizing message rs with
  | last _ _ =>
    cases rs with
    | nil => exact hrest message
    | cons r rs =>
      obtain ⟨-, hnil⟩ := List.cons.inj hwhole
      exact absurd (List.append_eq_nil_iff.1 hnil).2 hlater
  | more hflags hleft _ ih =>
    cases rs with
    | nil => exact hrest message
    | cons r rs =>
      obtain ⟨rfl, htail⟩ := List.cons.inj hwhole
      exact assembled_open hflags (.inl hleft) fun message => ih htail
  | noise hnoise _ ih =>
    cases rs with
    | nil => exact hrest message
    | cons r rs =>
      obtain ⟨rfl, htail⟩ := List.cons.inj hwhole
      rw [List.cons_append, assembled_noise hnoise, ih htail]

theorem assembled_of_cut_append {m : Message} {rs later : List Received} {data : Bytes}
    (h : MessageCut (fun cont => m.flags cont) (rs ++ later) data) (hlater : later ≠ [])
    (hrest : ∀ message, assembled message rest = []) : assembled message (rs ++ rest) = [] := by
  generalize hwhole : rs ++ later = whole at h
  induction h generalizing message rs with
  | final hfragment => exact assembled_of_fragment_append (hwhole ▸ hfragment) hlater hrest
  | @cont first second data more hfirst hsecond ih =>
    rcases List.append_eq_append_iff.1 hwhole with ⟨front, rfl, hfront⟩ | ⟨back, rfl, hback⟩
    · by_cases hnil : front = []
      · subst hnil
        rw [List.append_nil] at hfirst
        exact assembled_open_fragment hfirst hrest
      · exact assembled_of_fragment_append hfirst hnil hrest
    · rw [List.append_assoc]
      exact assembled_open_fragment hfirst fun message => ih hback.symm

theorem assembled_incomplete {rs : List Received} (h : Incomplete rs)
    (hrest : ∀ message, assembled message rest = []) : assembled message (rs ++ rest) = [] := by
  obtain ⟨m, later, hcut, hlater⟩ := h
  exact assembled_of_cut_append hcut hlater hrest

end Incomplete

/-- The texts that are recorded: those before the first message that does not fit. -/
def recordedTexts (ms : List Message) : List Bytes :=
  (ms.takeWhile Message.fits).filterMap Message.text?

@[simp] theorem recordedTexts_nil : recordedTexts [] = [] := rfl

@[simp] theorem recordedTexts_binary (payload : Bytes) (ms : List Message) :
    recordedTexts (.binary payload :: ms) = recordedTexts ms := by
  have hfits : (Message.binary payload).fits = true := rfl
  rw [recordedTexts, List.takeWhile_cons, if_pos hfits]
  rfl

@[simp] theorem recordedTexts_text (payload : Bytes) (ms : List Message) :
    recordedTexts (.text payload :: ms) =
      if maximumMessageSize < payload.length then [] else payload :: recordedTexts ms := by
  by_cases hlong : maximumMessageSize < payload.length
  · have hfits : ¬ (Message.text payload).fits = true := by simpa [Message.fits] using hlong
    rw [recordedTexts, List.takeWhile_cons, if_neg hfits, if_pos hlong]
    rfl
  · have hfits : (Message.text payload).fits = true := by simpa [Message.fits] using hlong
    rw [recordedTexts, List.takeWhile_cons, if_pos hfits, if_neg hlong]
    rfl

theorem recordedTexts_mem {payload : Bytes} {ms : List Message} (h : payload ∈ recordedTexts ms) :
    .text payload ∈ ms := by
  obtain ⟨m, hm, htext⟩ := List.mem_filterMap.1 h
  cases m with
  | text payload => cases htext; exact (List.takeWhile_sublist _).subset hm
  | binary payload => cases htext

theorem assembled_feed {rs : List Received} {ms : List Message} (h : Feed rs ms) :
    assembled [] rs = recordedTexts ms := by
  induction h with
  | @message m rs rest ms hcut _ ih =>
    cases m with
    | text payload =>
      rw [assembled_text_cut hcut (Nat.zero_le _), ih, recordedTexts_text, Message.payload]
      simp
    | binary payload => rw [assembled_binary_cut hcut, ih, recordedTexts_binary]
  | @ends rs h =>
    have hnil := @assembled_incomplete [] [] rs h fun _ => rfl
    simpa using hnil
  | fails h hr rest => exact assembled_incomplete h fun _ => assembled_failure hr

end Assemble

end BengalMarket.Capture
