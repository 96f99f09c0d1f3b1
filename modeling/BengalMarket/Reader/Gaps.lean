import BengalMarket.Reader.Recording

namespace BengalMarket.Reader

open Lines Observations SequenceTracker

/-- The numbers that a frame jumps over, if its connection is tracked. -/
def jumpOf (before : List Observation) (entry : Observation) : Nat :=
  if entry.1 ∈ connections before then jump (sequencesOf entry.1 before) entry.2.toNat else 0

def jumped (before : List Observation) : List Observation → Nat
  | [] => 0
  | entry :: stream => jumpOf before entry + jumped (before ++ [entry]) stream

def Jumps (stream : List Observation) : Prop :=
  ∃ before c q later, stream = before ++ (c, q) :: later ∧ c ∈ connections before ∧
    largest (sequencesOf c before) + 1 < q.toNat

theorem jumped_concat (before stream : List Observation) (entry : Observation) :
    jumped before (stream ++ [entry]) = jumped before stream + jumpOf (before ++ stream) entry := by
  induction stream generalizing before with
  | nil => simp [jumped]
  | cons first stream ih =>
    rw [List.cons_append, jumped, jumped, ih, List.append_assoc, Nat.add_assoc]
    rfl

theorem total_missing_concat (stream : List Observation) (entry : Observation) :
    total missing (stream ++ [entry]) = total missing stream + jumpOf stream entry := by
  obtain ⟨c, q⟩ := entry
  unfold jumpOf
  by_cases hmem : c ∈ connections stream
  · rw [if_pos hmem]
    exact total_concat_of_mem hmem _ (missing_concat _ _)
  · rw [if_neg hmem, Nat.add_zero]
    by_cases hfull : (connections stream).length = maximumSequenceStreams
    · apply total_concat_of_connections_eq _ hmem
      rw [connections, List.map_append]
      exact firstKeys_concat_of_full c hfull
    · apply total_concat_of_new (not_mem_of_not_mem_firstKeys hmem hfull) _ (missing_singleton _)
      rw [connections, List.map_append]
      exact firstKeys_concat_of_not_mem hmem hfull

theorem jumped_eq_total_missing (stream : List Observation) :
    jumped [] stream = total missing stream := by
  induction stream using List.reverseRecOn with
  | nil => rfl
  | append_singleton stream entry ih =>
    rw [jumped_concat, ih, List.nil_append, total_missing_concat]

theorem jumpOf_pos_iff {before : List Observation} {c q : UInt64} :
    0 < jumpOf before (c, q) ↔
      c ∈ connections before ∧ largest (sequencesOf c before) + 1 < q.toNat := by
  unfold jumpOf
  by_cases hmem : c ∈ connections before
  · simp only [hmem, if_true, true_and, jump, sequencesOf_ne_nil hmem, if_false]
    omega
  · simp [hmem]

theorem jumped_pos_iff (stream : List Observation) : 0 < jumped [] stream ↔ Jumps stream := by
  induction stream using List.reverseRecOn with
  | nil => simp [jumped, Jumps]
  | append_singleton stream entry ih =>
    rw [jumped_concat, List.nil_append, Nat.add_pos_iff_pos_or_pos, ih]
    constructor
    · rintro (⟨before, c, q, later, rfl, hmem, hlt⟩ | hlast)
      · exact ⟨before, c, q, later ++ [entry], by simp, hmem, hlt⟩
      · obtain ⟨hmem, hlt⟩ := jumpOf_pos_iff.1 hlast
        exact ⟨stream, entry.1, entry.2, [], rfl, hmem, hlt⟩
    · rintro ⟨before, c, q, later, hsplit, hmem, hlt⟩
      rcases List.eq_nil_or_concat later with rfl | ⟨later, last, rfl⟩
      · obtain ⟨rfl, hlast⟩ := List.append_inj' hsplit rfl
        cases hlast
        exact Or.inr (jumpOf_pos_iff.2 ⟨hmem, hlt⟩)
      · rw [List.concat_eq_append, ← List.cons_append, ← List.append_assoc] at hsplit
        obtain ⟨rfl, -⟩ := List.append_inj' hsplit rfl
        exact Or.inl ⟨before, c, q, later, rfl, hmem, hlt⟩

structure NeverFalselyClean (J : JsonLibrary) (after : List Bytes) (metrics : ParseMetrics) :
    Prop where
  clean : metrics.sequenceGaps = 0 ↔ ¬ Jumps (observations J after)
  total : metrics.sequenceGaps.toNat = jumped [] (observations J after)

variable {J : JsonLibrary}

theorem neverFalselyClean_iff {after : List Bytes} {metrics : ParseMetrics}
    (h : metrics.sequenceGaps = UInt64.ofNat (total missing (observations J after))) :
    NeverFalselyClean J after metrics ↔ total missing (observations J after) < 2 ^ 64 := by
  constructor
  · rintro ⟨-, htotal⟩
    rw [← jumped_eq_total_missing, ← htotal]
    exact metrics.sequenceGaps.toNat_lt
  · intro hlt
    have htotal : metrics.sequenceGaps.toNat = jumped [] (observations J after) := by
      rw [h, UInt64.toNat_ofNat_of_lt' hlt, jumped_eq_total_missing]
    refine ⟨?_, htotal⟩
    rw [← jumped_pos_iff, ← htotal, ← UInt64.toNat_inj]
    simp

theorem readCapture_never_falsely_clean_iff {path : String} {stream : Bytes}
    {metrics : ParseMetrics}
    (hok : (readCapture J path (some stream)).outcome = .ok metrics) :
    ∃ before line after, FirstMetadata J (pieces stream) before line after ∧
      (NeverFalselyClean J after metrics ↔ total missing (observations J after) < 2 ^ 64) := by
  obtain ⟨-, hseen, -, -⟩ := (readCapture_eq_ok_iff rfl).1 hok
  obtain ⟨before, line, after, hfirst⟩ :=
    exists_firstMetadata (metadataSeen_finalState_iff.1 hseen)
  exact ⟨before, line, after, hfirst, neverFalselyClean_iff (counters_of_ok hok hfirst).1⟩

section Fixture

open JsonText

def fixtureFrameOn (connectionId sequence : UInt64) : Plain := .object [
  (ascii "connection_id", .unsigned connectionId),
  (ascii "payload", .string (compact (fixtureHeartbeat (.unsigned sequence)))),
  (ascii "received_ns", .unsigned 10),
  (ascii "type", .string (ascii "frame"))]

/-- On each of two connections a jump over `2 ^ 63` numbers. -/
def fixtureWrap : List Plain := [
  fixtureFrameOn 1 0, fixtureFrameOn 1 9223372036854775809,
  fixtureFrameOn 2 0, fixtureFrameOn 2 9223372036854775809]

def fixtureWrapFile : Bytes := fixtureFile (fixtureMetadata :: fixtureWrap)

theorem fixtureWrapFile_state : Bounded (pieces fixtureWrapFile) ∧
    (finalState .reference fixtureWrapFile).metadataSeen = true ∧
    (finalState .reference fixtureWrapFile).metrics.sequenceGaps = 0 := by decide +kernel

theorem readCapture_fixtureWrapFile :
    readCapture .reference "fixture" (some fixtureWrapFile) =
      ⟨(finalState .reference fixtureWrapFile).delivered,
        .ok (finalState .reference fixtureWrapFile).metrics⟩ :=
  readCapture_of_seen fixtureWrapFile_state.1 fixtureWrapFile_state.2.1

theorem readCapture_never_falsely_clean_iff_wrap :
    ∃ metrics, (readCapture .reference "fixture" (some fixtureWrapFile)).outcome = .ok metrics ∧
      ∃ before line after, FirstMetadata .reference (pieces fixtureWrapFile) before line after ∧
        (NeverFalselyClean .reference after metrics ↔
          total missing (observations .reference after) < 2 ^ 64) := by
  have hok : (readCapture .reference "fixture" (some fixtureWrapFile)).outcome =
      .ok (finalState .reference fixtureWrapFile).metrics := by rw [readCapture_fixtureWrapFile]
  exact ⟨_, hok, readCapture_never_falsely_clean_iff hok⟩

theorem isMetadataLine_fixtureMetadata : IsMetadataLine .reference (compact fixtureMetadata) :=
  ⟨fixtureMetadata,
    record?_compact JsonLibrary.reference_lawful (by decide +kernel) (by decide +kernel),
    (readMetadata_eq_ok_iff rfl).1 (by decide +kernel)⟩

theorem firstMetadata_fixtureWrapFile : FirstMetadata .reference (pieces fixtureWrapFile)
    [] (compact fixtureMetadata) (fixtureWrap.map compact) where
  split := by
    rw [fixtureWrapFile, fixtureFile, pieces_terminated (by decide +kernel)]
    rfl
  metadata := isMetadataLine_fixtureMetadata
  first := by simp

/-- The two jumps add up to nothing. -/
theorem gap_report_falsely_clean :
    ∃ metrics before line after,
      (readCapture .reference "fixture" (some fixtureWrapFile)).outcome = .ok metrics ∧
      FirstMetadata .reference (pieces fixtureWrapFile) before line after ∧
      metrics.sequenceGaps = 0 ∧ Jumps (observations .reference after) ∧
      ¬ NeverFalselyClean .reference after metrics := by
  obtain ⟨-, -, hgaps⟩ := fixtureWrapFile_state
  have hobserved : observations .reference (fixtureWrap.map compact) =
      [(1, 0), (1, 9223372036854775809), (2, 0), (2, 9223372036854775809)] := by decide +kernel
  have hjumps : Jumps (observations .reference (fixtureWrap.map compact)) :=
    ⟨[(1, 0)], 1, 9223372036854775809, [(2, 0), (2, 9223372036854775809)], hobserved,
      by decide, by decide⟩
  refine ⟨_, _, _, _, by rw [readCapture_fixtureWrapFile], firstMetadata_fixtureWrapFile, hgaps,
    hjumps, fun hclean => ?_⟩
  exact hclean.clean.1 hgaps hjumps

end Fixture

end BengalMarket.Reader
