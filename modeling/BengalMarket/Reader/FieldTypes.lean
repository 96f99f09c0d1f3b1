import BengalMarket.Reader.Recording

namespace BengalMarket.Reader

open Lines

/-- A JSON integer that a 64-bit unsigned number holds. -/
def IsUnsigned {Double : Type} : Json Double → Prop
  | .unsigned _ => True
  | .integer value => 0 ≤ value
  | _ => False

variable (J : JsonLibrary)

structure WellTyped (record : J.Value) : Prop where
  received : ∃ found, record.at? (ascii "received_ns") = some found ∧ IsUnsigned found
  connection : ∃ found, record.at? (ascii "connection_id") = some found ∧ IsUnsigned found
  sequence : ∀ text payload found, text? record "payload" = some text → J.parse text = some payload →
    payload.at? (ascii "sequence_num") = some found → IsUnsigned found
  events : ∀ text payload, text? record "payload" = some text → J.parse text = some payload →
    text? payload "channel" = some (ascii "market_trades") →
    ∃ events, payload.at? (ascii "events") = some (.array events) ∧
      ∀ event ∈ events, ∃ trades, event.at? (ascii "trades") = some (.array trades)

/-- A frame with a field of another type is a parse error and leaves the sequence state;
so a frame that is accepted has the documented types. -/
def EnforcesTypes (s : ReaderState) (line : Bytes) : Prop :=
  ∀ record, record? J line = some record → IsFrame record → ¬ WellTyped J record →
    (step J s line).parseErrors = s.parseErrors + 1 ∧ (step J s line).tracker = s.tracker

def FieldTypesEnforced (stream : Bytes) : Prop :=
  ∀ s line, Visits J stream s line → EnforcesTypes J s line

def AccountedWellTyped (s : ReaderState) (line : Bytes) : Prop :=
  ∀ record envelope, s.metadataSeen = true → record? J line = some record → IsFrame record →
    ValidEnvelope J record envelope → Admits J s.tracker record → WellTyped J record

variable {J}

theorem lookup_setLast_self {table : List Observation} {c q v : UInt64}
    (h : table.lookup c = some v) : (SequenceTracker.setLast table c q).lookup c = some q := by
  rw [SequenceTracker.lookup_setLast, if_pos rfl, h, Option.map_some]

theorem track_ne {t next : SequenceTracker} {c q : UInt64} (h : t.track c q = .ok next) :
    next ≠ t := by
  rintro rfl
  unfold SequenceTracker.track at h
  split at h
  · split at h
    · cases h
    · have hlength := congrArg (fun t => t.lastSequences.length) (Except.ok.inj h)
      simp at hlength
  · rename_i previous hlookup
    have hadvance := Except.ok.inj h
    by_cases hlt : q > previous
    · have htable := congrArg SequenceTracker.lastSequences hadvance
      simp only [SequenceTracker.advance, if_pos hlt] at htable
      have hself := lookup_setLast_self (q := q) hlookup
      rw [htable, hlookup] at hself
      cases hself
      exact absurd hlt (UInt64.lt_irrefl _)
    · have hcount := congrArg SequenceTracker.outOfOrder hadvance
      simp [SequenceTracker.advance, UInt64.not_lt.1 hlt] at hcount

theorem step_frame_of_unseen {s : ReaderState} (hs : s.metadataSeen = false) {line : Bytes}
    {record : J.Value} (hrecord : record? J line = some record) (htype : IsFrame record) :
    step J s line = { s with parseErrors := s.parseErrors + 1 } := by
  apply step_of_not_metadata hs (ne_nil_of_record? hrecord)
  rintro ⟨record', hrecord', hvalid⟩
  cases hrecord.symm.trans hrecord'
  exact frame_ne_metadata (Option.some.inj (htype.symm.trans hvalid.type))

theorem lineObservation?_of_record {line : Bytes} {record : J.Value}
    (hrecord : record? J line = some record) :
    lineObservation? J line = observation? J record := by
  rw [lineObservation?, hrecord, Option.bind_some]

theorem step_of_not_accounted {s : ReaderState} {line : Bytes} {record : J.Value}
    (hs : s.metadataSeen = true) (hrecord : record? J line = some record) (htype : IsFrame record)
    (hnot : ¬ ((∃ envelope, ValidEnvelope J record envelope) ∧ Admits J s.tracker record)) :
    (step J s line).parseErrors = s.parseErrors + 1 ∧ (step J s line).tracker = s.tracker := by
  obtain ⟨haccepts, frame, -, hstep⟩ := step_of_seen hs (ne_nil_of_record? hrecord)
  have hrejected : accepts J s line = false := by
    rw [← Bool.not_eq_true, haccepts]
    rintro ⟨record', hrecord', hvalid, hadmits⟩
    cases hrecord.symm.trans hrecord'
    obtain ⟨envelope, henvelope, -⟩ := hvalid.envelope
    exact hnot ⟨⟨envelope, henvelope⟩, hadmits⟩
  rw [hstep, lineObservation?_of_record hrecord]
  refine ⟨by simp [hrejected], ?_⟩
  cases hobserved : observation? J record with
  | none => rfl
  | some entry =>
    obtain ⟨envelope, henvelope, -⟩ := (observation?_eq_some_iff htype).1 hobserved
    have hrefused : ¬ ∃ next, s.tracker.track entry.1 entry.2 = .ok next := by
      rintro ⟨next, hnext⟩
      refine hnot ⟨⟨envelope, henvelope⟩, fun other hother => ?_⟩
      cases hobserved.symm.trans hother
      exact ⟨next, hnext⟩
    change s.tracker.observe entry = s.tracker
    rw [SequenceTracker.observe]
    cases htrack : s.tracker.track entry.1 entry.2 with
    | error error => rfl
    | ok next => exact absurd ⟨next, htrack⟩ hrefused

theorem step_of_accounted {s : ReaderState} {line : Bytes} {record : J.Value}
    {envelope : Envelope J} (hs : s.metadataSeen = true) (hrecord : record? J line = some record)
    (htype : IsFrame record) (henvelope : ValidEnvelope J record envelope)
    (hadmits : Admits J s.tracker record) :
    (step J s line).parseErrors ≠ s.parseErrors + 1 ∨ (step J s line).tracker ≠ s.tracker := by
  obtain ⟨haccepts, frame, -, hstep⟩ := step_of_seen hs (ne_nil_of_record? hrecord)
  have hobserved := observation?_of_envelope htype henvelope
  cases hsequence : envelope.sequence with
  | none =>
    have hvalid : ValidFrame J record :=
      ⟨htype, envelope, henvelope, by simp [hsequence]⟩
    have haccepted : accepts J s line = true := haccepts.2 ⟨record, hrecord, hvalid, hadmits⟩
    refine Or.inl ?_
    rw [hstep]
    simp [haccepted]
  | some q =>
    rw [hsequence, Option.map_some] at hobserved
    obtain ⟨next, hnext⟩ := hadmits _ hobserved
    refine Or.inr ?_
    rw [hstep, lineObservation?_of_record hrecord, hobserved]
    change s.tracker.observe (envelope.connectionId, q) ≠ s.tracker
    rw [SequenceTracker.observe, hnext]
    exact track_ne hnext

theorem enforcesTypes_iff (s : ReaderState) (line : Bytes) :
    EnforcesTypes J s line ↔ AccountedWellTyped J s line := by
  constructor
  · intro h record envelope hs hrecord htype henvelope hadmits
    by_contra hill
    obtain ⟨herrors, htracker⟩ := h record hrecord htype hill
    rcases step_of_accounted hs hrecord htype henvelope hadmits with hne | hne
    · exact hne herrors
    · exact hne htracker
  · intro h record hrecord htype hill
    cases hs : s.metadataSeen with
    | false =>
      rw [step_frame_of_unseen hs hrecord htype]
      exact ⟨rfl, rfl⟩
    | true =>
      apply step_of_not_accounted hs hrecord htype
      rintro ⟨⟨envelope, henvelope⟩, hadmits⟩
      exact hill (h record envelope hs hrecord htype henvelope hadmits)

/-- The documented types are enforced on the captures whose accounted frames have them. -/
theorem fieldTypesEnforced_iff (stream : Bytes) :
    FieldTypesEnforced J stream ↔
      ∀ s line, Visits J stream s line → AccountedWellTyped J s line :=
  forall₂_congr fun s line => imp_congr_right fun _ => enforcesTypes_iff s line

section Fixture

open JsonText

def fixtureNegative : Plain := fixtureFrame (fixtureHeartbeat (.integer (-1)))

def fixtureNegativeFile : Bytes := fixtureFile [fixtureMetadata, fixtureNegative]

theorem pieces_fixtureNegativeFile :
    pieces fixtureNegativeFile = [compact fixtureMetadata] ++ compact fixtureNegative :: [] := by
  rw [fixtureNegativeFile, fixtureFile, pieces_terminated (by decide +kernel)]
  simp only [List.map_cons, List.map_nil, List.singleton_append]

theorem visits_fixtureNegative :
    Visits .reference fixtureNegativeFile
      ([compact fixtureMetadata].foldl (step .reference) {}) (compact fixtureNegative) :=
  ⟨[compact fixtureMetadata], [], pieces_fixtureNegativeFile, by decide +kernel, rfl⟩

theorem not_wellTyped_fixtureNegative : ¬ WellTyped .reference fixtureNegative := by
  intro h
  have hparse : JsonLibrary.reference.parse (compact (fixtureHeartbeat (.integer (-1)))) =
      some (fixtureHeartbeat (.integer (-1))) :=
    JsonLibrary.reference_lawful.parse _ (by decide +kernel)
  have hunsigned : (0 : Int64) ≤ -1 := h.sequence _ _ (.integer (-1)) rfl hparse rfl
  exact absurd hunsigned (by decide)

/-- A heartbeat with the sequence number -1 is accepted and recorded. -/
theorem negative_sequence_accepted :
    ∃ s line, Visits .reference fixtureNegativeFile s line ∧
      record? .reference line = some fixtureNegative ∧ accepts .reference s line = true ∧
      (step .reference s line).tracker ≠ s.tracker ∧
      ¬ FieldTypesEnforced .reference fixtureNegativeFile := by
  have hrecord : record? .reference (compact fixtureNegative) = some fixtureNegative :=
    record?_compact JsonLibrary.reference_lawful (by decide +kernel) (by decide +kernel)
  obtain ⟨haccepts, htracker⟩ : accepts .reference
      ([compact fixtureMetadata].foldl (step .reference) {}) (compact fixtureNegative) = true ∧
    (step .reference ([compact fixtureMetadata].foldl (step .reference) {})
      (compact fixtureNegative)).tracker ≠
        ([compact fixtureMetadata].foldl (step .reference) {}).tracker := by decide +kernel
  refine ⟨_, _, visits_fixtureNegative, hrecord, haccepts, htracker, fun h => ?_⟩
  exact htracker (h _ _ visits_fixtureNegative fixtureNegative hrecord rfl
    not_wellTyped_fixtureNegative).2

end Fixture

end BengalMarket.Reader
