import BengalMarket.Library.JsonParser
import BengalMarket.Reader.Frames
import BengalMarket.Reader.Lines
import Mathlib.Data.Nat.ModEq

namespace BengalMarket.Reader

open Lines SequenceTracker

section Count

open Classical in
noncomputable def countOf (P : Bytes → Prop) (lines : List Bytes) : Nat :=
  lines.countP fun line => decide (P line)

variable {P : Bytes → Prop}

@[simp] theorem countOf_nil : countOf P [] = 0 := rfl

theorem countOf_concat_of {line : Bytes} (h : P line) (lines : List Bytes) :
    countOf P (lines ++ [line]) = countOf P lines + 1 := by
  simp [countOf, h]

theorem countOf_concat_of_not {line : Bytes} (h : ¬ P line) (lines : List Bytes) :
    countOf P (lines ++ [line]) = countOf P lines := by
  simp [countOf, h]

theorem countOf_le_length (lines : List Bytes) : countOf P lines ≤ lines.length :=
  List.countP_le_length

theorem countOf_eq_length {lines : List Bytes} (h : ∀ line ∈ lines, P line) :
    countOf P lines = lines.length := by
  rw [countOf, List.countP_eq_length]
  simpa using h

end Count

variable (J : JsonLibrary)

def observations (lines : List Bytes) : List Observation := lines.filterMap (lineObservation? J)

structure FirstMetadata (lines before : List Bytes) (line : Bytes) (after : List Bytes) : Prop where
  split : lines = before ++ line :: after
  metadata : IsMetadataLine J line
  first : ∀ earlier ∈ before, ¬ IsMetadataLine J earlier

/-- A valid frame among the lines after the metadata record: if it takes part in sequence
accounting, its connection is one of the first that do. -/
def ValidFrameLine (after : List Bytes) (line : Bytes) : Prop :=
  ∃ record, record? J line = some record ∧ ValidFrame J record ∧
    ∀ entry, observation? J record = some entry → entry.1 ∈ connections (observations J after)

def Rejected (after : List Bytes) (line : Bytes) : Prop :=
  line ≠ [] ∧ ¬ ValidFrameLine J after line

noncomputable def rejectedCount (before after : List Bytes) : Nat :=
  countOf (· ≠ []) before + countOf (Rejected J after) after

variable {J}

@[simp] theorem lineObservation?_nil : lineObservation? J [] = none := rfl

theorem observations_concat (lines : List Bytes) (line : Bytes) :
    observations J (lines ++ [line]) =
      observations J lines ++ (lineObservation? J line).toList := by
  simp only [observations, List.filterMap_append]
  cases h : lineObservation? J line <;> simp [h]

theorem exists_firstMetadata {lines : List Bytes} (h : ∃ line ∈ lines, IsMetadataLine J line) :
    ∃ before line after, FirstMetadata J lines before line after := by
  induction lines with
  | nil => simp at h
  | cons first lines ih =>
    by_cases hfirst : IsMetadataLine J first
    · exact ⟨[], first, lines, rfl, hfirst, by simp⟩
    · obtain ⟨before, line, after, hsplit, hmetadata, hbefore⟩ := ih (by simpa [hfirst] using h)
      exact ⟨first :: before, line, after, by rw [hsplit]; rfl, hmetadata,
        by simpa [hfirst] using hbefore⟩

theorem foldl_step_of_not_metadata {s : ReaderState} (hs : s.metadataSeen = false)
    {lines : List Bytes} (h : ∀ line ∈ lines, ¬ IsMetadataLine J line) :
    lines.foldl (step J) s =
      { s with parseErrors := s.parseErrors + UInt64.ofNat (countOf (· ≠ []) lines) } := by
  induction lines using List.reverseRecOn with
  | nil => simp
  | append_singleton lines line ih =>
    rw [List.foldl_append, ih fun l hl => h l (by simp [hl])]
    by_cases hne : line = []
    · subst hne
      rw [countOf_concat_of_not (by simp)]
      rfl
    · rw [countOf_concat_of hne, UInt64.ofNat_add, List.foldl_cons, List.foldl_nil,
        step_of_not_metadata (by exact hs) hne (h line (by simp)), UInt64.add_assoc]
      rfl

/-- The state after the lines `done` of the lines `after` the metadata record. -/
structure Accounted (start : ReaderState) (after done : List Bytes) (s : ReaderState) : Prop where
  seen : s.metadataSeen = true
  tracks : Tracks (observations J done) s.tracker
  frames : s.frames = start.frames + UInt64.ofNat (countOf (IsFrameLine J) done)
  parseErrors : s.parseErrors =
    start.parseErrors + UInt64.ofNat (countOf (Rejected J after) done)

theorem Tracks.elim {stream : List Observation} {t : SequenceTracker} (h : Tracks stream t)
    (entry : Option Observation) : Tracks (stream ++ entry.toList) (entry.elim t t.observe) := by
  cases entry with
  | none => simpa using h
  | some entry => exact h.observe entry

/-- Acceptance in the state of the reader is membership in the grammar. -/
theorem acceptsFrame_iff {done : List Bytes} {line : Bytes} {t : SequenceTracker}
    (h : Tracks (observations J done) t) (later : List Bytes) :
    AcceptsFrame J t line ↔ ValidFrameLine J (done ++ line :: later) line := by
  unfold AcceptsFrame ValidFrameLine
  apply exists_congr
  intro record
  apply and_congr_right
  intro hrecord
  apply and_congr_right
  intro _
  apply forall₂_congr
  rintro ⟨c, q⟩ hentry
  have hline : lineObservation? J line = some (c, q) := by
    rw [lineObservation?, hrecord, Option.bind_some, hentry]
  have hsplit : observations J (done ++ line :: later) =
      observations J done ++ (c, q) :: observations J later := by
    simp [observations, hline]
  rw [hsplit, ← not_iff_not, ← h.track_error_iff c q (observations J later)]
  cases t.track c q <;> simp

theorem Accounted.step {start : ReaderState} {done later : List Bytes} {line : Bytes}
    {s : ReaderState} (h : Accounted (J := J) start (done ++ line :: later) done s) :
    Accounted (J := J) start (done ++ line :: later) (done ++ [line]) (step J s line) := by
  have htracks := Tracks.elim h.tracks (lineObservation? J line)
  rw [← observations_concat] at htracks
  by_cases hne : line = []
  · subst hne
    refine ⟨h.seen, htracks, ?_, ?_⟩
    · rw [countOf_concat_of_not (by simp [IsFrameLine, record?])]
      exact h.frames
    · rw [countOf_concat_of_not (by simp [Rejected])]
      exact h.parseErrors
  · obtain ⟨haccepts, frame, hframe, hstep⟩ := step_of_seen h.seen hne
    rw [acceptsFrame_iff h.tracks later] at haccepts
    rw [hstep]
    refine ⟨h.seen, htracks, ?_, ?_⟩
    · cases frame with
      | true =>
        rw [countOf_concat_of (hframe.1 rfl), UInt64.ofNat_add, ← UInt64.add_assoc, ← h.frames]
        rfl
      | false =>
        rw [countOf_concat_of_not (by simpa using hframe), ← h.frames]
        exact UInt64.add_zero _
    · cases hline : accepts J s line with
      | true =>
        have hnot : ¬ Rejected J (done ++ line :: later) line := fun hrejected =>
          hrejected.2 (haccepts.1 hline)
        rw [countOf_concat_of_not hnot, ← h.parseErrors]
        exact UInt64.add_zero _
      | false =>
        have hrejected : Rejected J (done ++ line :: later) line :=
          ⟨hne, fun hvalid => by simp [haccepts.2 hvalid] at hline⟩
        rw [countOf_concat_of hrejected, UInt64.ofNat_add, ← UInt64.add_assoc, ← h.parseErrors]
        rfl

theorem Accounted.foldl {start s : ReaderState} {done later : List Bytes}
    (h : Accounted (J := J) start (done ++ later) done s) :
    Accounted (J := J) start (done ++ later) (done ++ later) (later.foldl (Reader.step J) s) := by
  induction later generalizing done s with
  | nil => rwa [List.append_nil] at h ⊢
  | cons line later ih =>
    have hnext := h.step
    rw [List.append_cons done line later] at hnext ⊢
    exact ih hnext

def errorsBefore (before : List Bytes) : ReaderState :=
  { parseErrors := UInt64.ofNat (before.countP (· ≠ [])) }

theorem foldl_before {lines before after : List Bytes} {line : Bytes}
    (h : FirstMetadata J lines before line after) :
    before.foldl (step J) {} = errorsBefore before := by
  rw [foldl_step_of_not_metadata rfl h.first, errorsBefore, countOf]
  simp

theorem accounted_finalState {stream : Bytes} {before after : List Bytes} {line : Bytes}
    (h : FirstMetadata J (pieces stream) before line after) :
    Accounted (J := J) (errorsBefore before) after after (finalState J stream) := by
  rw [finalState, h.split, List.foldl_append, foldl_before h, List.foldl_cons,
    step_of_metadata rfl h.metadata]
  refine @Accounted.foldl J _ _ [] _ ⟨rfl, Tracks.nil, ?_, ?_⟩ <;> simp [errorsBefore]

theorem metadataSeen_finalState_iff {stream : Bytes} :
    (finalState J stream).metadataSeen = true ↔ ∃ line ∈ pieces stream, IsMetadataLine J line := by
  constructor
  · intro hseen
    by_contra hnone
    rw [finalState, foldl_step_of_not_metadata rfl fun line hline hmetadata =>
      hnone ⟨line, hline, hmetadata⟩] at hseen
    cases hseen
  · intro h
    obtain ⟨before, line, after, hfirst⟩ := exists_firstMetadata h
    exact (accounted_finalState hfirst).seen

theorem rejectedCount_le {stream : Bytes} {before after : List Bytes} {line : Bytes}
    (h : FirstMetadata J (pieces stream) before line after) :
    rejectedCount J before after < stream.length := by
  have hbefore := @countOf_le_length (· ≠ []) before
  have hafter := @countOf_le_length (Rejected J after) after
  have hpieces := length_pieces_le stream
  rw [h.split, List.length_append, List.length_cons] at hpieces
  rw [rejectedCount]
  omega

/-- The reader decides the grammar: which files it returns from, and what it counts. -/
structure DecidesGrammar (J : JsonLibrary) (path : String) (stream : Bytes) : Prop where
  returns : (∃ metrics, (readCapture J path (some stream)).outcome = .ok metrics) ↔
    ∃ line ∈ pieces stream, IsMetadataLine J line
  counts : ∀ before line after metrics, FirstMetadata J (pieces stream) before line after →
    (readCapture J path (some stream)).outcome = .ok metrics →
      metrics.frames = UInt64.ofNat (countOf (IsFrameLine J) after) ∧
      metrics.parseErrors = UInt64.ofNat (rejectedCount J before after) ∧
      (stream.length < 2 ^ 64 → metrics.parseErrors.toNat = rejectedCount J before after)

theorem readCapture_decides_grammar {path : String} {stream : Bytes}
    (hbounded : Bounded (pieces stream)) : DecidesGrammar J path stream := by
  refine ⟨?_, ?_⟩
  · rw [← metadataSeen_finalState_iff]
    constructor
    · rintro ⟨metrics, hmetrics⟩
      exact ((readCapture_eq_ok_iff rfl).1 hmetrics).2.1
    · intro hseen
      rw [readCapture_of_bounded hbounded, if_pos hseen]
      exact ⟨_, rfl⟩
  · intro before line after metrics hfirst hok
    obtain ⟨-, -, -, rfl⟩ := (readCapture_eq_ok_iff rfl).1 hok
    have haccounted := accounted_finalState hfirst
    have herrors : (finalState J stream).metrics.parseErrors =
        UInt64.ofNat (rejectedCount J before after) := by
      rw [ReaderState.metrics, haccounted.parseErrors, rejectedCount, UInt64.ofNat_add]
      simp [errorsBefore, countOf]
    refine ⟨?_, herrors, ?_⟩
    · rw [ReaderState.metrics, haccounted.frames]
      simp [errorsBefore]
    · intro hshort
      rw [herrors, UInt64.toNat_ofNat_of_lt' ((rejectedCount_le hfirst).trans hshort)]

theorem record?_compact (hJ : J.Lawful) {value : J.Value} (h : JsonText.canonical value = true)
    (hne : JsonText.compact value ≠ []) : record? J (JsonText.compact value) = some value := by
  rw [record?, if_neg hne]
  exact hJ.parse value h

section Fixture

open JsonText

def fixtureMetadata : Plain := .object [
  (ascii "format", .string (ascii "bengal-market-capture")),
  (ascii "product_ids", .array [.string (ascii "BTC-USD")]),
  (ascii "source", .string (ascii "fixture")),
  (ascii "type", .string (ascii "metadata")),
  (ascii "version", .unsigned 1)]

def fixtureFrame (payload : Plain) : Plain := .object [
  (ascii "connection_id", .unsigned 1),
  (ascii "payload", .string (compact payload)),
  (ascii "received_ns", .unsigned 10),
  (ascii "type", .string (ascii "frame"))]

def fixtureHeartbeat (sequence : Plain) : Plain := .object [
  (ascii "channel", .string (ascii "heartbeats")),
  (ascii "sequence_num", sequence)]

def fixtureFile (records : List Plain) : Bytes := terminated (records.map compact)

/-- A frame before the metadata record, then a jump from 7 to 9. -/
def fixtureJump : Bytes := fixtureFile [
  fixtureFrame (fixtureHeartbeat (.unsigned 5)), fixtureMetadata,
  fixtureFrame (fixtureHeartbeat (.unsigned 7)), fixtureFrame (fixtureHeartbeat (.unsigned 9))]

instance (lines : List Bytes) : Decidable (Bounded lines) :=
  inferInstanceAs (Decidable (∀ line ∈ lines, line.length ≤ maximumRecordSize))

theorem bounded_fixtureJump : Bounded (pieces fixtureJump) := by decide +kernel

theorem readCapture_decides_grammar_jump :
    Bounded (pieces fixtureJump) ∧ DecidesGrammar .reference "fixture" fixtureJump :=
  ⟨bounded_fixtureJump, readCapture_decides_grammar bounded_fixtureJump⟩

end Fixture

theorem exists_tracks_foldl (lines : List Bytes) :
    ∃ stream, Tracks stream (lines.foldl (step J) {}).tracker := by
  induction lines using List.reverseRecOn with
  | nil => exact ⟨[], Tracks.nil⟩
  | append_singleton lines line ih =>
    obtain ⟨stream, htracks⟩ := ih
    rw [List.foldl_append, List.foldl_cons, List.foldl_nil]
    by_cases hne : line = []
    · exact ⟨stream, by rwa [hne, step_nil]⟩
    · cases hseen : (lines.foldl (step J) {}).metadataSeen with
      | true =>
        obtain ⟨-, frame, -, hstep⟩ := step_of_seen hseen hne
        rw [hstep]
        exact ⟨_, Tracks.elim htracks (lineObservation? J line)⟩
      | false =>
        by_cases hmetadata : IsMetadataLine J line
        · exact ⟨stream, by rwa [step_of_metadata hseen hmetadata]⟩
        · exact ⟨stream, by rwa [step_of_not_metadata hseen hne hmetadata]⟩

theorem length_observations_le {stream : Bytes} {before after : List Bytes} {line : Bytes}
    (h : FirstMetadata J (pieces stream) before line after) :
    (observations J after).length < stream.length := by
  have hafter : (observations J after).length ≤ after.length := List.length_filterMap_le _ _
  have hpieces := length_pieces_le stream
  rw [h.split, List.length_append, List.length_cons] at hpieces
  omega

theorem counters_of_ok {path : String} {stream : Bytes} {metrics : ParseMetrics}
    {before after : List Bytes} {line : Bytes}
    (hok : (readCapture J path (some stream)).outcome = .ok metrics)
    (hfirst : FirstMetadata J (pieces stream) before line after) :
    metrics.sequenceGaps = UInt64.ofNat (total Observations.missing (observations J after)) ∧
      metrics.outOfOrder = UInt64.ofNat (total Observations.late (observations J after)) := by
  obtain ⟨-, -, -, rfl⟩ := (readCapture_eq_ok_iff rfl).1 hok
  have htracks := (accounted_finalState hfirst).tracks
  exact ⟨htracks.gaps, htracks.late⟩

/-- The counters of a capture against what each connection never advanced to: they are
those of every capture with the same subsequences.  The bound on the stream table holds in
every state the loop visits. -/
structure AccountsSequences (J : JsonLibrary) (stream : Bytes) (after : List Bytes)
    (metrics : ParseMetrics) : Prop where
  gaps : metrics.sequenceGaps.toNat ≡ total Observations.missing (observations J after) [MOD 2 ^ 64]
  late : metrics.outOfOrder = UInt64.ofNat (total Observations.late (observations J after))
  late_toNat : stream.length < 2 ^ 64 →
    metrics.outOfOrder.toNat = total Observations.late (observations J after)
  table : ∀ read, read <+: pieces stream →
    (read.foldl (step J) {}).tracker.lastSequences.length ≤ maximumSequenceStreams
  interleaving : ∀ path other metrics' before line after',
    (readCapture J path (some other)).outcome = .ok metrics' →
    FirstMetadata J (pieces other) before line after' →
    (∀ c, c ∈ connections (observations J after') ↔ c ∈ connections (observations J after)) →
    (∀ c ∈ connections (observations J after),
      sequencesOf c (observations J after') = sequencesOf c (observations J after)) →
    metrics'.sequenceGaps = metrics.sequenceGaps ∧ metrics'.outOfOrder = metrics.outOfOrder

theorem readCapture_accounts_sequences {path : String} {stream : Bytes} {metrics : ParseMetrics}
    (hok : (readCapture J path (some stream)).outcome = .ok metrics) :
    ∃ before line after, FirstMetadata J (pieces stream) before line after ∧
      AccountsSequences J stream after metrics := by
  obtain ⟨-, hseen, -, -⟩ := (readCapture_eq_ok_iff rfl).1 hok
  obtain ⟨before, line, after, hfirst⟩ :=
    exists_firstMetadata (metadataSeen_finalState_iff.1 hseen)
  obtain ⟨hgaps, hlate⟩ := counters_of_ok hok hfirst
  refine ⟨before, line, after, hfirst, ?_, hlate, ?_, ?_, ?_⟩
  · rw [hgaps, UInt64.toNat_ofNat']
    exact Nat.mod_modEq _ _
  · intro hshort
    have hlt := (total_late_le _).trans_lt ((length_observations_le hfirst).trans hshort)
    rw [hlate, UInt64.toNat_ofNat_of_lt' hlt]
  · intro read _
    obtain ⟨observed, hobserved⟩ := exists_tracks_foldl (J := J) read
    rw [hobserved.length_eq]
    exact Observations.length_firstKeys_le _ _
  · intro path' other metrics' before' line' after' hok' hfirst' hkeys hsame
    obtain ⟨hgaps', hlate'⟩ := counters_of_ok hok' hfirst'
    rw [hgaps, hlate, hgaps', hlate', total_congr _ hkeys hsame, total_congr _ hkeys hsame]
    exact ⟨rfl, rfl⟩

theorem readCapture_accounts_sequences_jump :
    ∃ metrics, (readCapture .reference "fixture" (some fixtureJump)).outcome = .ok metrics ∧
      ∃ before line after, FirstMetadata .reference (pieces fixtureJump) before line after ∧
        AccountsSequences .reference fixtureJump after metrics := by
  have hok : (readCapture .reference "fixture" (some fixtureJump)).outcome =
      .ok (finalState .reference fixtureJump).metrics := by
    rw [readCapture_of_seen bounded_fixtureJump (by decide +kernel)]
  exact ⟨_, hok, readCapture_accounts_sequences hok⟩

end BengalMarket.Reader
