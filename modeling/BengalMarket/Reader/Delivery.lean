import BengalMarket.Reader.Recording
import Mathlib.Data.List.ReduceOption

namespace BengalMarket.Reader

open Lines

variable (J : JsonLibrary)

def lineTrades (line : Bytes) : List Trade :=
  match record? J line with
  | none => []
  | some record =>
    if text? record "type" = some (ascii "frame") then
      match readEnvelope J record with
      | .error _ => []
      | .ok envelope => envelope.visits.reduceOption
    else []

def acceptedTrades (s : ReaderState) : List Bytes → List Trade
  | [] => []
  | line :: lines =>
    (if accepts J s line then lineTrades J line else []) ++ acceptedTrades (step J s line) lines

/-- Accepted frames contribute all of their trades and rejected ones none. -/
structure PayloadsAtomic (path : String) (stream : Bytes) : Prop where
  concatenation : (readCapture J path (some stream)).delivered = acceptedTrades J {} (pieces stream)
  rejected : ∀ s line, Visits J stream s line → accepts J s line = false →
    (step J s line).delivered = s.delivered

/-- The line is a frame after the metadata record whose sequence number is recorded. -/
structure ReachesTrades (s : ReaderState) (line : Bytes) (envelope : Envelope J) : Prop where
  seen : s.metadataSeen = true
  sequence : envelope.sequence.isSome
  record : ∃ record, record? J line = some record ∧ IsFrame record ∧
    ValidEnvelope J record envelope ∧ Admits J s.tracker record

def FailsFirst (visits : List (Option Trade)) : Prop := none ∈ visits → visits.head? = some none

/-- No frame whose trades the loop over a stream reaches fails after a trade. -/
def FramesFailFirst (stream : Bytes) : Prop :=
  ∀ s line envelope, Visits J stream s line → ReachesTrades J s line envelope →
    FailsFirst envelope.visits

variable {J}

theorem leading_eq_nil_iff {visits : List (Option Trade)} :
    leading visits = [] ↔ visits = [] ∨ visits.head? = some none := by
  rcases visits with _ | ⟨_ | value, rest⟩ <;> simp [leading]

theorem leading_of_all {visits : List (Option Trade)} (h : none ∉ visits) :
    leading visits = visits.reduceOption := by
  induction visits with
  | nil => rfl
  | cons visit rest ih =>
    cases visit with
    | none => simp at h
    | some value => simp [leading, ih (by simpa using h)]

theorem delivered_of_unseen {s : ReaderState} (hs : s.metadataSeen = false) (line : Bytes) :
    (step J s line).delivered = s.delivered := by
  by_cases hne : line = []
  · rw [hne, step_nil]
  · by_cases hmetadata : IsMetadataLine J line
    · rw [step_of_metadata hs hmetadata]
    · rw [step_of_not_metadata hs hne hmetadata]

theorem delivered_of_seen {s : ReaderState} (hs : s.metadataSeen = true) (line : Bytes) :
    (step J s line).delivered = s.delivered ++ lineHandedOver J s.tracker line := by
  by_cases hne : line = []
  · subst hne
    simp [step_nil, lineHandedOver, record?]
  · obtain ⟨-, frame, -, hstep⟩ := step_of_seen hs hne
    rw [hstep]

theorem lineHandedOver_cases (s : ReaderState) (hs : s.metadataSeen = true) (line : Bytes) :
    (lineHandedOver J s.tracker line = [] ∧ ∀ envelope, ¬ ReachesTrades J s line envelope) ∨
    ∃ envelope, ReachesTrades J s line envelope ∧
      lineHandedOver J s.tracker line = leading envelope.visits := by
  unfold lineHandedOver handedOver
  cases hrecord : record? J line with
  | none =>
    refine Or.inl ⟨rfl, fun envelope h => ?_⟩
    obtain ⟨record, hsome, -⟩ := h.record
    simp [hrecord] at hsome
  | some record =>
    by_cases htype : IsFrame record
    · simp only [show text? record "type" = some (ascii "frame") from htype, if_true]
      cases hread : readEnvelope J record with
      | error error =>
        refine Or.inl ⟨rfl, fun envelope h => ?_⟩
        obtain ⟨record', hsome, -, henvelope, -⟩ := h.record
        cases hrecord.symm.trans hsome
        rw [readEnvelope_eq_ok_iff.2 henvelope] at hread
        cases hread
      | ok envelope =>
        have henvelope := readEnvelope_eq_ok_iff.1 hread
        have hobserved := observation?_of_envelope htype henvelope
        cases hsequence : envelope.sequence with
        | none =>
          refine Or.inl ⟨by simp [hsequence], fun other h => ?_⟩
          obtain ⟨record', hsome, -, hother, -⟩ := h.record
          cases hrecord.symm.trans hsome
          have hsequence' := h.sequence
          rw [hother.unique henvelope, hsequence] at hsequence'
          cases hsequence'
        | some q =>
          cases htrack : s.tracker.track envelope.connectionId q with
          | error error =>
            refine Or.inl ⟨by simp [hsequence, htrack], fun other h => ?_⟩
            obtain ⟨record', hsome, -, -, hadmits⟩ := h.record
            cases hrecord.symm.trans hsome
            obtain ⟨next, hnext⟩ :=
              hadmits (envelope.connectionId, q) (by simp [hobserved, hsequence])
            simp [htrack] at hnext
          | ok next =>
            refine Or.inr ⟨envelope,
              ⟨hs, by simp [hsequence], record, hrecord, htype, henvelope, ?_⟩,
              by simp [hsequence, htrack]⟩
            intro entry hentry
            rw [hobserved, hsequence] at hentry
            cases hentry
            exact ⟨next, htrack⟩
    · refine Or.inl ⟨by simp [show text? record "type" ≠ some (ascii "frame") from htype],
        fun envelope h => ?_⟩
      obtain ⟨record', hsome, hframe, -⟩ := h.record
      cases hrecord.symm.trans hsome
      exact htype hframe

theorem ReachesTrades.accepts_iff {s : ReaderState} {line : Bytes} {envelope : Envelope J}
    (h : ReachesTrades J s line envelope) : accepts J s line = true ↔ none ∉ envelope.visits := by
  obtain ⟨hs, hsequence, record, hrecord, htype, henvelope, hadmits⟩ := h
  rw [(step_of_seen hs (ne_nil_of_record? hrecord)).1, Envelope.not_mem_visits_iff]
  constructor
  · rintro ⟨record', hrecord', hvalid, -⟩
    cases hrecord.symm.trans hrecord'
    obtain ⟨other, hother, hevents⟩ := hvalid.envelope
    cases henvelope.unique hother
    exact hevents hsequence
  · intro hevents
    exact ⟨record, hrecord, ⟨htype, envelope, henvelope, fun _ => hevents⟩, hadmits⟩

theorem ReachesTrades.unique {s : ReaderState} {line : Bytes} {e f : Envelope J}
    (he : ReachesTrades J s line e) (hf : ReachesTrades J s line f) : e = f := by
  obtain ⟨record, hrecord, -, henvelope, -⟩ := he.record
  obtain ⟨record', hrecord', -, henvelope', -⟩ := hf.record
  cases hrecord.symm.trans hrecord'
  exact henvelope.unique henvelope'

theorem ReachesTrades.lineTrades_eq {s : ReaderState} {line : Bytes} {envelope : Envelope J}
    (h : ReachesTrades J s line envelope) : lineTrades J line = envelope.visits.reduceOption := by
  obtain ⟨record, hrecord, htype, henvelope, -⟩ := h.record
  have htext : text? record "type" = some (ascii "frame") := htype
  simp [lineTrades, hrecord, htext, readEnvelope_eq_ok_iff.2 henvelope]

theorem not_accepts_frame_of_unseen {s : ReaderState} (hs : s.metadataSeen = false)
    {line : Bytes} {record : J.Value} (hrecord : record? J line = some record)
    (htype : IsFrame record) : accepts J s line = false := by
  rw [accepts, readLine_of_record? hrecord]
  rcases readRecord_of_unseen hs record with ⟨hvalid, -⟩ | ⟨-, error, hread⟩
  · exact absurd (Option.some.inj (htype.symm.trans hvalid.type)) frame_ne_metadata
  · rw [hread]
    rfl

theorem Envelope.visits_eq_nil {envelope : Envelope J} {record : J.Value}
    (h : ValidEnvelope J record envelope) (hsequence : envelope.sequence = none) :
    envelope.visits = [] := by
  have hnot := h.sequence
  rw [hsequence] at hnot
  rw [Envelope.visits, if_neg hnot.2.1]

theorem lineTrades_eq_nil {s : ReaderState} {line : Bytes}
    (hnot : ∀ envelope, ¬ ReachesTrades J s line envelope) (haccepts : accepts J s line = true) :
    lineTrades J line = [] := by
  unfold lineTrades
  cases hrecord : record? J line with
  | none => rfl
  | some record =>
    by_cases htype : IsFrame record
    · simp only [show text? record "type" = some (ascii "frame") from htype, if_true]
      cases hread : readEnvelope J record with
      | error error => rfl
      | ok envelope =>
        have henvelope := readEnvelope_eq_ok_iff.1 hread
        cases hs : s.metadataSeen with
        | false => simp [not_accepts_frame_of_unseen hs hrecord htype] at haccepts
        | true =>
          obtain ⟨record', hrecord', -, hadmits⟩ :=
            (step_of_seen hs (ne_nil_of_record? hrecord)).1.1 haccepts
          cases hrecord.symm.trans hrecord'
          cases hsequence : envelope.sequence with
          | none => simp [Envelope.visits_eq_nil henvelope hsequence]
          | some q =>
            exact absurd ⟨hs, by simp [hsequence], record, hrecord, htype, henvelope, hadmits⟩
              (hnot envelope)
    · simp [show text? record "type" ≠ some (ascii "frame") from htype]

theorem delivered_of_accepts {s : ReaderState} {line : Bytes} (h : accepts J s line = true) :
    (step J s line).delivered = s.delivered ++ lineTrades J line := by
  cases hs : s.metadataSeen with
  | false =>
    have hnot : ∀ envelope, ¬ ReachesTrades J s line envelope := fun envelope hreaches => by
      simp [hreaches.seen] at hs
    rw [delivered_of_unseen hs, lineTrades_eq_nil hnot h, List.append_nil]
  | true =>
    rw [delivered_of_seen hs]
    rcases lineHandedOver_cases (J := J) s hs line with ⟨hnil, hnot⟩ | ⟨envelope, hreaches, hover⟩
    · rw [hnil, lineTrades_eq_nil hnot h]
    · rw [hover, hreaches.lineTrades_eq, leading_of_all (hreaches.accepts_iff.1 h)]

theorem rejected_delivers_nothing_iff (s : ReaderState) (line : Bytes) :
    (accepts J s line = false → (step J s line).delivered = s.delivered) ↔
      ∀ envelope, ReachesTrades J s line envelope → FailsFirst envelope.visits := by
  cases hs : s.metadataSeen with
  | false =>
    have hnot : ∀ envelope, ¬ ReachesTrades J s line envelope := fun envelope h => by
      simp [h.seen] at hs
    simp [delivered_of_unseen hs, hnot]
  | true =>
    rw [delivered_of_seen hs]
    rcases lineHandedOver_cases (J := J) s hs line with ⟨hnil, hnot⟩ | ⟨envelope, hreaches, hover⟩
    · simp [hnil, hnot]
    · have haccepts := hreaches.accepts_iff
      rw [← Bool.not_eq_true, haccepts, not_not, hover, List.append_right_eq_self,
        leading_eq_nil_iff]
      constructor
      · intro h other hother hmem
        cases hreaches.unique hother
        exact (h hmem).resolve_left (List.ne_nil_of_mem hmem)
      · intro h hmem
        exact Or.inr (h envelope hreaches hmem)

theorem foldl_delivered {s : ReaderState} {lines : List Bytes}
    (h : ∀ before line after, lines = before ++ line :: after →
      accepts J (before.foldl (step J) s) line = false →
      (step J (before.foldl (step J) s) line).delivered = (before.foldl (step J) s).delivered) :
    (lines.foldl (step J) s).delivered = s.delivered ++ acceptedTrades J s lines := by
  induction lines generalizing s with
  | nil => simp [acceptedTrades]
  | cons line lines ih =>
    have hline : (step J s line).delivered =
        s.delivered ++ if accepts J s line then lineTrades J line else [] := by
      cases haccepts : accepts J s line with
      | true => simpa using delivered_of_accepts haccepts
      | false => simpa using h [] line lines rfl haccepts
    rw [List.foldl_cons, ih, hline, acceptedTrades, List.append_assoc]
    intro before next after hsplit
    exact h (line :: before) next after (by rw [hsplit, List.cons_append])

/-- Delivery is atomic exactly on the captures in which no frame fails after a trade. -/
theorem payloadsAtomic_iff {path : String} {stream : Bytes} {metrics : ParseMetrics}
    (hok : (readCapture J path (some stream)).outcome = .ok metrics) :
    PayloadsAtomic J path stream ↔ FramesFailFirst J stream := by
  obtain ⟨hbounded, -, hdelivered, -⟩ := (readCapture_eq_ok_iff rfl).1 hok
  constructor
  · intro h s line envelope hvisit
    exact (rejected_delivers_nothing_iff s line).1 (h.rejected s line hvisit) envelope
  · intro h
    have hrejected : ∀ s line, Visits J stream s line → accepts J s line = false →
        (step J s line).delivered = s.delivered := fun s line hvisit =>
      (rejected_delivers_nothing_iff s line).2 fun envelope => h s line envelope hvisit
    refine ⟨?_, hrejected⟩
    rw [hdelivered, finalState, foldl_delivered, List.nil_append]
    intro before line after hsplit
    refine hrejected _ line ⟨before, after, hsplit, ?_, rfl⟩
    intro l hl
    apply hbounded
    rw [hsplit, List.append_cons]
    exact List.mem_append_left _ hl

section Fixture

open JsonText

def fixtureTradeValue (price : Plain) : Plain := .object [
  (ascii "price", price),
  (ascii "product_id", .string (ascii "BTC-USD")),
  (ascii "side", .string (ascii "BUY")),
  (ascii "size", .string (ascii "0.001")),
  (ascii "time", .string (ascii "2026-01-01T00:00:00Z")),
  (ascii "trade_id", .string (ascii "1"))]

def fixtureTrades (trades : List Plain) : Plain := .object [
  (ascii "channel", .string (ascii "market_trades")),
  (ascii "events", .array [.object [(ascii "trades", .array trades)]]),
  (ascii "sequence_num", .unsigned 1)]

def fixtureTorn : Bytes := fixtureFile [fixtureMetadata, fixtureFrame (fixtureTrades
  [fixtureTradeValue (.string (ascii "30000")), fixtureTradeValue .null])]

theorem fixtureTorn_state : Bounded (pieces fixtureTorn) ∧
    (finalState .reference fixtureTorn).metadataSeen = true ∧
    (finalState .reference fixtureTorn).metrics.parseErrors = 1 ∧
    (finalState .reference fixtureTorn).delivered.length = 1 ∧
    acceptedTrades .reference {} (pieces fixtureTorn) = [] := by decide +kernel

theorem readCapture_fixtureTorn : readCapture .reference "fixture" (some fixtureTorn) =
    ⟨(finalState .reference fixtureTorn).delivered,
      .ok (finalState .reference fixtureTorn).metrics⟩ :=
  readCapture_of_seen fixtureTorn_state.1 fixtureTorn_state.2.1

theorem payloadsAtomic_iff_torn :
    ∃ metrics, (readCapture .reference "fixture" (some fixtureTorn)).outcome = .ok metrics ∧
      (PayloadsAtomic .reference "fixture" fixtureTorn ↔ FramesFailFirst .reference fixtureTorn) := by
  have hok : (readCapture .reference "fixture" (some fixtureTorn)).outcome =
      .ok (finalState .reference fixtureTorn).metrics := by rw [readCapture_fixtureTorn]
  exact ⟨_, hok, payloadsAtomic_iff hok⟩

/-- The first trade of the rejected frame is handed over. -/
theorem rejected_frame_delivers :
    ∃ metrics, (readCapture .reference "fixture" (some fixtureTorn)).outcome = .ok metrics ∧
      metrics.parseErrors = 1 ∧
      (readCapture .reference "fixture" (some fixtureTorn)).delivered.length = 1 ∧
      ¬ PayloadsAtomic .reference "fixture" fixtureTorn := by
  obtain ⟨-, -, herrors, hone, hnone⟩ := fixtureTorn_state
  have hdelivered : (readCapture .reference "fixture" (some fixtureTorn)).delivered =
      (finalState .reference fixtureTorn).delivered := by rw [readCapture_fixtureTorn]
  refine ⟨(finalState .reference fixtureTorn).metrics, ?_, herrors, ?_, fun h => ?_⟩
  · rw [readCapture_fixtureTorn]
  · rw [hdelivered, hone]
  · rw [← hdelivered, h.concatenation, hnone] at hone
    cases hone

end Fixture

end BengalMarket.Reader
