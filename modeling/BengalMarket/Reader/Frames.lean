import BengalMarket.Reader.Grammar
import BengalMarket.Reader.Sequence

namespace BengalMarket.Reader

variable (J : JsonLibrary)

def observation? (record : J.Value) : Option Observation := do
  let type ← text? record "type"
  if type = ascii "frame" then
    let _ ← number? J record "received_ns"
    let connectionId ← number? J record "connection_id"
    let text ← text? record "payload"
    let payload ← J.parse text
    let _ ← text? payload "channel"
    let sequence ← number? J payload "sequence_num"
    some (connectionId, sequence)
  else none

def Admits (t : SequenceTracker) (record : J.Value) : Prop :=
  ∀ entry, observation? J record = some entry → ∃ next, t.track entry.1 entry.2 = .ok next

def handedOver (t : SequenceTracker) (record : J.Value) : List Trade :=
  match readEnvelope J record with
  | .error _ => []
  | .ok envelope =>
    match envelope.sequence with
    | none => []
    | some sequence =>
      match t.track envelope.connectionId sequence with
      | .error _ => []
      | .ok _ => leading envelope.visits

variable {J}

theorem observation?_eq_some_iff {record : J.Value} (htype : IsFrame record) {c q : UInt64} :
    observation? J record = some (c, q) ↔
      ∃ envelope, ValidEnvelope J record envelope ∧ envelope.connectionId = c ∧
        envelope.sequence = some q := by
  simp only [observation?, IsFrame] at htype ⊢
  rw [htype]
  simp only [bind, Option.bind_some, if_true, Option.bind_eq_some_iff, Option.some.injEq,
    Prod.mk.injEq]
  constructor
  · rintro ⟨received, hreceived, connectionId, hconnection, text, htext, payload, hpayload,
      channel, hchannel, sequence, hsequence, rfl, rfl⟩
    exact ⟨⟨connectionId, payload, channel, some sequence⟩,
      ⟨⟨received, hreceived⟩, hconnection, ⟨text, htext, hpayload⟩, hchannel, hsequence⟩, rfl, rfl⟩
  · rintro ⟨⟨connectionId, payload, channel, sequence⟩,
      ⟨⟨received, hreceived⟩, hconnection, ⟨text, htext, hpayload⟩, hchannel, hsequence⟩, rfl, rfl⟩
    exact ⟨received, hreceived, connectionId, hconnection, text, htext, payload, hpayload,
      channel, hchannel, q, hsequence, rfl, rfl⟩

theorem isFrame_of_observation? {record : J.Value} {entry : Observation}
    (h : observation? J record = some entry) : IsFrame record := by
  simp only [observation?, bind, Option.bind_eq_some_iff] at h
  obtain ⟨type, htype, h⟩ := h
  split at h
  · rename_i heq
    rwa [heq] at htype
  · cases h

theorem observation?_eq_none_of_error {record : J.Value} {error : ReadError}
    (h : readEnvelope J record = .error error) : observation? J record = none := by
  rw [Option.eq_none_iff_forall_ne_some]
  rintro ⟨c, q⟩ hentry
  obtain ⟨envelope, henvelope, -⟩ :=
    (observation?_eq_some_iff (isFrame_of_observation? hentry)).1 hentry
  rw [readEnvelope_eq_ok_iff.2 henvelope] at h
  cases h

theorem observation?_of_envelope {record : J.Value} (htype : IsFrame record)
    {envelope : Envelope J} (h : ValidEnvelope J record envelope) :
    observation? J record = envelope.sequence.map fun q => (envelope.connectionId, q) := by
  cases hsequence : envelope.sequence with
  | some q => exact (observation?_eq_some_iff htype).2 ⟨envelope, h, rfl, hsequence⟩
  | none =>
    rw [Option.map_none, Option.eq_none_iff_forall_ne_some]
    rintro ⟨c, q⟩ hentry
    obtain ⟨other, hother, -, hsome⟩ := (observation?_eq_some_iff htype).1 hentry
    rw [hother.unique h, hsequence] at hsome
    cases hsome

/-- A frame is counted, observed and handed over whether or not it is accepted; it is
accepted if it is valid and its connection is admitted. -/
theorem readFrame_spec {s : ReaderState} {record : J.Value} (htype : IsFrame record) :
    (readFrame J s record).1 = { s with
        frames := s.frames + 1
        tracker := (observation? J record).elim s.tracker s.tracker.observe
        delivered := s.delivered ++ handedOver J s.tracker record } ∧
      ((readFrame J s record).2 = none ↔ ValidFrame J record ∧ Admits J s.tracker record) := by
  unfold readFrame handedOver
  cases hread : readEnvelope J record with
  | error error =>
    have hnot : ¬ ValidFrame J record := fun hvalid => by
      obtain ⟨envelope, henvelope, -⟩ := hvalid.envelope
      rw [readEnvelope_eq_ok_iff.2 henvelope] at hread
      cases hread
    simp [observation?_eq_none_of_error hread, hnot]
  | ok envelope =>
    have henvelope := readEnvelope_eq_ok_iff.1 hread
    have hobserved := observation?_of_envelope htype henvelope
    have hframe : ValidFrame J record ↔ (envelope.sequence.isSome → none ∉ envelope.visits) := by
      rw [Envelope.not_mem_visits_iff]
      constructor
      · rintro ⟨-, other, hother, hevents⟩
        rw [henvelope.unique hother]
        exact hevents
      · intro hevents
        exact ⟨htype, envelope, henvelope, hevents⟩
    cases hsequence : envelope.sequence with
    | none => simp [hframe, Admits, hobserved, hsequence]
    | some q =>
      cases htrack : s.tracker.track envelope.connectionId q with
      | error error =>
        simp [Admits, hobserved, hsequence, SequenceTracker.observe, htrack]
      | ok next =>
        obtain ⟨hvalues, hnone⟩ := readPayload_spec envelope
        simp [hframe, Admits, hobserved, hsequence, SequenceTracker.observe, htrack, hvalues, hnone]

section Lines

variable (J)

/-- The line is not counted as a parse error. -/
def accepts (s : ReaderState) (line : Bytes) : Bool := (readLine J s line).2.isNone

def IsMetadataLine (line : Bytes) : Prop :=
  ∃ record, record? J line = some record ∧ ValidMetadata J record

def IsFrameLine (line : Bytes) : Prop := ∃ record ∈ record? J line, IsFrame record

def lineObservation? (line : Bytes) : Option Observation :=
  (record? J line).bind (observation? J)

def lineHandedOver (t : SequenceTracker) (line : Bytes) : List Trade :=
  match record? J line with
  | none => []
  | some record => if text? record "type" = some (ascii "frame") then handedOver J t record else []

def AcceptsFrame (t : SequenceTracker) (line : Bytes) : Prop :=
  ∃ record, record? J line = some record ∧ ValidFrame J record ∧ Admits J t record

variable {J}

theorem step_nil (s : ReaderState) : step J s [] = s := rfl

theorem readLine_of_record? {s : ReaderState} {line : Bytes} {record : J.Value}
    (h : record? J line = some record) : readLine J s line = readRecord J s record := by
  unfold record? at h
  split at h
  · cases h
  · rw [readLine, h]

theorem ne_nil_of_record? {line : Bytes} {record : J.Value} (h : record? J line = some record) :
    line ≠ [] := by
  rintro rfl
  simp [record?] at h

theorem parse_eq_none {line : Bytes} (hne : line ≠ []) (h : record? J line = none) :
    J.parse line = none := by
  rwa [record?, if_neg hne] at h

theorem step_eq {s : ReaderState} {line : Bytes} (hne : line ≠ []) :
    step J s line = { (readLine J s line).1 with
      parseErrors := (readLine J s line).1.parseErrors + if accepts J s line then 0 else 1 } := by
  rw [step, if_neg hne, accepts]
  rcases readLine J s line with ⟨t, _ | error⟩ <;> simp [countError]

theorem memberString_type {record : J.Value} {type : Bytes} (h : text? record "type" = some type) :
    memberString J record "type" = .ok type := memberString_eq_ok_iff.2 h

theorem frame_ne_metadata : ascii "frame" ≠ ascii "metadata" := by decide

theorem readRecord_of_frame {s : ReaderState} (hs : s.metadataSeen = true) {record : J.Value}
    (htype : IsFrame record) : readRecord J s record = readFrame J s record := by
  simp [readRecord, memberString_type htype, frame_ne_metadata, hs]

theorem readRecord_of_not_frame {s : ReaderState} (hs : s.metadataSeen = true) {record : J.Value}
    (htype : ¬ IsFrame record) : ∃ error, readRecord J s record = (s, some error) := by
  unfold readRecord
  cases hread : memberString J record "type" with
  | error error => exact ⟨error, rfl⟩
  | ok type =>
    have hframe : type ≠ ascii "frame" := by
      rintro rfl
      exact htype (memberString_eq_ok_iff.1 hread)
    by_cases hmetadata : type = ascii "metadata"
    · exact ⟨.unsupportedMetadata, by simp [hmetadata, hs, readMetadata_of_seen]⟩
    · exact ⟨.unknownType, by simp [hmetadata, hframe]⟩

theorem readRecord_of_unseen {s : ReaderState} (hs : s.metadataSeen = false) (record : J.Value) :
    (ValidMetadata J record ∧
      readRecord J s record = ({ s with metadataSeen := true }, none)) ∨
    (¬ ValidMetadata J record ∧ ∃ error, readRecord J s record = (s, some error)) := by
  unfold readRecord
  cases hread : memberString J record "type" with
  | error error =>
    refine Or.inr ⟨fun hvalid => ?_, error, rfl⟩
    rw [memberString_type hvalid.type] at hread
    cases hread
  | ok type =>
    have htype := memberString_eq_ok_iff.1 hread
    by_cases hmetadata : type = ascii "metadata"
    · subst hmetadata
      cases hvalid : readMetadata J false record with
      | ok u => exact Or.inl ⟨(readMetadata_eq_ok_iff htype).1 hvalid, by simp [hs, hvalid]⟩
      | error error =>
        refine Or.inr ⟨fun hmeta => ?_, error, by simp [hs, hvalid]⟩
        rw [(readMetadata_eq_ok_iff htype).2 hmeta] at hvalid
        cases hvalid
    · refine Or.inr ⟨fun hvalid => ?_, ?_⟩
      · have hsame := hvalid.type
        rw [htype] at hsame
        exact hmetadata (Option.some.inj hsame)
      · by_cases hframe : type = ascii "frame"
        · exact ⟨.metadataNotFirst, by simp [hframe, frame_ne_metadata, hs]⟩
        · exact ⟨.unknownType, by simp [hmetadata, hframe]⟩

theorem step_of_metadata {s : ReaderState} (hs : s.metadataSeen = false) {line : Bytes}
    (h : IsMetadataLine J line) : step J s line = { s with metadataSeen := true } := by
  obtain ⟨record, hrecord, hvalid⟩ := h
  rw [step_eq (ne_nil_of_record? hrecord), accepts, readLine_of_record? hrecord]
  rcases readRecord_of_unseen hs record with ⟨-, hread⟩ | ⟨hnot, -⟩
  · simp [hread]
  · exact absurd hvalid hnot

theorem step_of_not_metadata {s : ReaderState} (hs : s.metadataSeen = false) {line : Bytes}
    (hne : line ≠ []) (h : ¬ IsMetadataLine J line) :
    step J s line = { s with parseErrors := s.parseErrors + 1 } := by
  rw [step_eq hne, accepts]
  cases hrecord : record? J line with
  | none => simp [readLine, parse_eq_none hne hrecord]
  | some record =>
    rw [readLine_of_record? hrecord]
    rcases readRecord_of_unseen hs record with ⟨hvalid, -⟩ | ⟨-, error, hread⟩
    · exact absurd ⟨record, hrecord, hvalid⟩ h
    · simp [hread]

theorem step_of_seen {s : ReaderState} (hs : s.metadataSeen = true) {line : Bytes}
    (hne : line ≠ []) :
    (accepts J s line = true ↔ AcceptsFrame J s.tracker line) ∧
      ∃ frame : Bool, (frame = true ↔ IsFrameLine J line) ∧
        step J s line = { s with
          frames := s.frames + if frame then 1 else 0
          parseErrors := s.parseErrors + if accepts J s line then 0 else 1
          tracker := (lineObservation? J line).elim s.tracker s.tracker.observe
          delivered := s.delivered ++ lineHandedOver J s.tracker line } := by
  rw [step_eq hne]
  cases hrecord : record? J line with
  | none =>
    have hread : readLine J s line = (s, some .json) := by
      simp [readLine, parse_eq_none hne hrecord]
    refine ⟨by simp [accepts, hread, AcceptsFrame, hrecord], false, ?_, ?_⟩
    · simp [IsFrameLine, hrecord]
    · simp [accepts, hread, lineObservation?, lineHandedOver, hrecord]
  | some record =>
    rw [accepts, readLine_of_record? hrecord]
    by_cases htype : IsFrame record
    · obtain ⟨hstate, hnone⟩ := readFrame_spec (s := s) htype
      rw [readRecord_of_frame hs htype]
      refine ⟨?_, true, ?_, ?_⟩
      · rw [Option.isNone_iff_eq_none, hnone]
        simp [AcceptsFrame, hrecord]
      · simp [IsFrameLine, hrecord, htype]
      · rw [hstate]
        have htext : text? record "type" = some (ascii "frame") := htype
        simp [lineObservation?, lineHandedOver, hrecord, htext]
    · obtain ⟨error, hread⟩ := readRecord_of_not_frame hs htype
      have hnot : observation? J record = none := by
        rw [Option.eq_none_iff_forall_ne_some]
        intro entry hentry
        exact htype (isFrame_of_observation? hentry)
      have htext : text? record "type" ≠ some (ascii "frame") := htype
      rw [hread]
      refine ⟨?_, false, ?_, ?_⟩
      · have hinvalid : ¬ ValidFrame J record := fun hvalid => htype hvalid.type
        simp [AcceptsFrame, hrecord, hinvalid]
      · simp [IsFrameLine, hrecord, htype]
      · simp [lineObservation?, lineHandedOver, hrecord, hnot, htext]

end Lines

end BengalMarket.Reader
