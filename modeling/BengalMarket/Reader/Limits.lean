import BengalMarket.Reader.Recording

namespace BengalMarket.Reader

open Lines Observations SequenceTracker

section Errors

variable {α β : Type}

def LimitFree (x : Except ReadError α) : Prop := x ≠ .error .streamLimit

theorem LimitFree.bind {x : Except ReadError α} {f : α → Except ReadError β} (hx : LimitFree x)
    (hf : ∀ a, LimitFree (f a)) : LimitFree (x >>= f) := by
  cases x with
  | error error => exact fun h => hx (by cases h; rfl)
  | ok a => exact hf a

theorem limitFree_accessor (value : Option α) : LimitFree (accessor value) := by
  cases value <;> simp [LimitFree, accessor, ReadError.streamLimit]

theorem limitFree_parsed (value : Option α) : LimitFree (parsed value) := by
  cases value <;> simp [LimitFree, parsed, ReadError.invalidTrade, ReadError.streamLimit]

theorem limitFree_ok (a : α) : LimitFree (.ok a) := by simp [LimitFree]

variable {J : JsonLibrary}

theorem limitFree_member (value : J.Value) (key : String) : LimitFree (member J value key) :=
  limitFree_accessor _

theorem limitFree_memberString (value : J.Value) (key : String) :
    LimitFree (memberString J value key) :=
  (limitFree_member _ _).bind fun _ => limitFree_accessor _

theorem limitFree_memberUInt64 (value : J.Value) (key : String) :
    LimitFree (memberUInt64 J value key) :=
  (limitFree_member _ _).bind fun _ => limitFree_accessor _

theorem limitFree_readSequence (payload : J.Value) (channel : Bytes) :
    LimitFree (readSequence J payload channel) := by
  unfold readSequence
  split
  · refine LimitFree.bind ?_ fun _ => limitFree_ok _
    cases (!isDataChannel channel) <;>
      simp [LimitFree, require, ReadError.noSequenceNumber, ReadError.streamLimit]
  · exact (limitFree_memberUInt64 _ _).bind fun _ => limitFree_ok _

theorem limitFree_readEnvelope (record : J.Value) : LimitFree (readEnvelope J record) :=
  (limitFree_memberUInt64 _ _).bind fun _ => (limitFree_memberUInt64 _ _).bind fun _ =>
    (limitFree_memberString _ _).bind fun _ => (limitFree_accessor _).bind fun _ =>
      (limitFree_memberString _ _).bind fun _ => (limitFree_readSequence _ _).bind fun _ =>
        limitFree_ok _

theorem limitFree_readSide (side : Bytes) : LimitFree (readSide side) := by
  unfold readSide
  split
  · exact limitFree_ok _
  · split
    · exact limitFree_ok _
    · simp [LimitFree, ReadError.invalidTrade, ReadError.streamLimit]

theorem limitFree_readTrade (input : J.Value) : LimitFree (readTrade J input) :=
  (limitFree_memberString _ _).bind fun _ => (limitFree_memberString _ _).bind fun _ =>
    (limitFree_memberString _ _).bind fun _ => (limitFree_memberString _ _).bind fun _ =>
      (limitFree_parsed _).bind fun _ => (limitFree_parsed _).bind fun _ =>
        (limitFree_parsed _).bind fun _ => (limitFree_memberString _ _).bind fun _ =>
          (limitFree_parsed _).bind fun _ => (limitFree_memberString _ _).bind fun _ =>
            (limitFree_parsed _).bind fun _ => (limitFree_readSide _).bind fun _ => limitFree_ok _

theorem readTrades_ne_limit (inputs : List J.Value) :
    (readTrades J inputs).2 ≠ some .streamLimit := by
  induction inputs with
  | nil => simp [readTrades]
  | cons input rest ih =>
    rw [readTrades]
    have hfree := limitFree_readTrade input
    cases hread : readTrade J input with
    | error error =>
      intro h
      rw [hread] at hfree
      exact hfree (by rw [Option.some.inj h])
    | ok value => exact ih

theorem readEvents_ne_limit (events : List J.Value) :
    (readEvents J events).2 ≠ some .streamLimit := by
  induction events with
  | nil => simp [readEvents]
  | cons event rest ih =>
    rw [readEvents]
    have hfree := limitFree_member event "trades"
    cases hread : member J event "trades" with
    | error error =>
      intro h
      rw [hread] at hfree
      exact hfree (by rw [Option.some.inj h])
    | ok trades =>
      have htrades := readTrades_ne_limit trades.children
      rcases hvalues : readTrades J trades.children with ⟨values, _ | error⟩
      · simpa [hvalues] using ih
      · rw [hvalues] at htrades
        simpa [hvalues] using htrades

theorem readPayload_ne_limit (envelope : Envelope J) :
    (readPayload J envelope).2 ≠ some .streamLimit := by
  unfold readPayload
  split
  · simp
  · have hfree := limitFree_member envelope.payload "events"
    cases hread : member J envelope.payload "events" with
    | error error =>
      intro h
      rw [hread] at hfree
      exact hfree (by rw [Option.some.inj h])
    | ok events => exact readEvents_ne_limit events.children

end Errors

variable {J : JsonLibrary}

def Refuses (t : SequenceTracker) (entry : Observation) : Prop :=
  ∃ error, t.track entry.1 entry.2 = .error error

theorem track_error {t : SequenceTracker} {c q : UInt64} {error : ReadError}
    (h : t.track c q = .error error) : error = .streamLimit := by
  unfold track at h
  split at h
  · split at h <;> cases h
    rfl
  · cases h

theorem readFrame_limit_iff {s : ReaderState} {record : J.Value} (htype : IsFrame record) :
    (readFrame J s record).2 = some .streamLimit ↔
      ∃ entry, observation? J record = some entry ∧ Refuses s.tracker entry := by
  unfold readFrame
  have hfree := limitFree_readEnvelope record
  cases hread : readEnvelope J record with
  | error error =>
    rw [hread] at hfree
    have hne : error ≠ .streamLimit := fun heq => hfree (by rw [heq])
    simp [observation?_eq_none_of_error hread, hne]
  | ok envelope =>
    have hobserved := observation?_of_envelope htype (readEnvelope_eq_ok_iff.1 hread)
    cases hsequence : envelope.sequence with
    | none => simp [hobserved, hsequence]
    | some q =>
      rw [hsequence, Option.map_some] at hobserved
      cases htrack : s.tracker.track envelope.connectionId q with
      | error error => simp [hobserved, hsequence, Refuses, htrack, track_error htrack]
      | ok next => simp [hobserved, hsequence, Refuses, htrack, readPayload_ne_limit envelope]

theorem readLine_limit_iff {s : ReaderState} (hs : s.metadataSeen = true) {line : Bytes}
    (hframe : IsFrameLine J line) :
    (readLine J s line).2 = some .streamLimit ↔
      ∃ entry, lineObservation? J line = some entry ∧ Refuses s.tracker entry := by
  obtain ⟨record, hrecord, htype⟩ := hframe
  rw [readLine_of_record? hrecord, readRecord_of_frame hs htype, lineObservation?, hrecord,
    Option.bind_some, readFrame_limit_iff htype]

def AdmitsStreams (J : JsonLibrary) (stream : Bytes) : Prop :=
  ∀ s line, Visits J stream s line → (readLine J s line).2 ≠ some .streamLimit

theorem accounted_foldl {metadata : Bytes} (hmetadata : IsMetadataLine J metadata)
    (done later : List Bytes) :
    Accounted (J := J) (errorsBefore []) (done ++ later) done
      ((metadata :: done).foldl (step J) {}) := by
  rw [List.foldl_cons, step_of_metadata rfl hmetadata]
  induction done using List.reverseRecOn generalizing later with
  | nil => exact ⟨rfl, Tracks.nil, by simp [errorsBefore], by simp [errorsBefore]⟩
  | append_singleton done line ih =>
    rw [List.foldl_append]
    have hbefore := ih (line :: later)
    rw [← List.append_cons]
    exact hbefore.step

theorem readLine_of_metadata {metadata : Bytes} (h : IsMetadataLine J metadata) :
    (readLine J {} metadata).2 = none := by
  obtain ⟨record, hrecord, hvalid⟩ := h
  have hunseen : ({} : ReaderState).metadataSeen = false := rfl
  rw [readLine_of_record? hrecord]
  rcases readRecord_of_unseen hunseen record with ⟨-, hread⟩ | ⟨hnot, -⟩
  · rw [hread]
  · exact absurd hvalid hnot

theorem admitsStreams_iff {stream metadata : Bytes} {lines : List Bytes}
    (hpieces : pieces stream = metadata :: lines) (hbounded : Bounded (pieces stream))
    (hmetadata : IsMetadataLine J metadata) (hframes : ∀ line ∈ lines, IsFrameLine J line) :
    AdmitsStreams J stream ↔
      ((observations J lines).map Prod.fst).eraseDups.length ≤ maximumSequenceStreams := by
  rw [← mem_firstKeys_iff_length_le, List.forall_mem_map]
  have hrefuses : ∀ done line later entry, lines = done ++ line :: later →
      lineObservation? J line = some entry →
      (Refuses ((metadata :: done).foldl (step J) {}).tracker entry ↔
        entry.1 ∉ connections (observations J lines)) := by
    rintro done line later entry rfl hentry
    have htracks := (accounted_foldl hmetadata done (line :: later)).tracks
    have hsplit : observations J (done ++ line :: later) =
        observations J done ++ entry :: observations J later := by
      simp [observations, hentry]
    rw [hsplit, Refuses, htracks.track_error_iff entry.1 entry.2 (observations J later)]
  constructor
  · intro hadmits entry hentry
    obtain ⟨line, hline, hobserved⟩ := List.mem_filterMap.1 hentry
    obtain ⟨done, later, hsplit⟩ := List.append_of_mem hline
    have hvisits : Visits J stream ((metadata :: done).foldl (step J) {}) line := by
      refine ⟨metadata :: done, later, by rw [hpieces, hsplit]; rfl, fun l hl => ?_, rfl⟩
      refine hbounded l ?_
      rw [hpieces, hsplit]
      simp only [List.mem_cons, List.mem_append, List.not_mem_nil, or_false] at hl ⊢
      tauto
    have hseen := (accounted_foldl hmetadata done (line :: later)).seen
    by_contra hnot
    exact hadmits _ _ hvisits ((readLine_limit_iff hseen (hframes line hline)).2
      ⟨entry, hobserved, (hrefuses done line later entry hsplit hobserved).2 hnot⟩)
  · rintro hconnections s line ⟨before, after, hsplit, -, rfl⟩ hlimit
    rw [hpieces] at hsplit
    cases before with
    | nil =>
      obtain ⟨rfl, -⟩ := List.cons.inj hsplit
      simp [readLine_of_metadata hmetadata] at hlimit
    | cons first done =>
      obtain ⟨rfl, hlines⟩ := List.cons.inj hsplit
      have hline : line ∈ lines := by simp [hlines]
      have hseen := (accounted_foldl hmetadata done (line :: after)).seen
      obtain ⟨entry, hobserved, hrefused⟩ :=
        (readLine_limit_iff hseen (hframes line hline)).1 hlimit
      exact (hrefuses done line after entry hlines hobserved).1 hrefused
        (hconnections entry (List.mem_filterMap.2 ⟨line, hline, hobserved⟩))

end BengalMarket.Reader
