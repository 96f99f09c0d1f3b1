import BengalMarket.Reader.Recording

namespace BengalMarket

def ReaderState.charge (s : ReaderState) (frames parseErrors : UInt64) : ReaderState :=
  { s with frames := s.frames + frames, parseErrors := s.parseErrors + parseErrors }

namespace Reader

open Lines

variable (J : JsonLibrary)

inductive RejectedEarly (s : ReaderState) (line : Bytes) : ReadError → Prop
  | malformed (parsed : J.parse line = none) : RejectedEarly s line .json
  | typeless {record : J.Value} {error : ReadError} (parsed : J.parse line = some record)
      (typed : memberString J record "type" = .error error) : RejectedEarly s line error
  | metadata {record : J.Value} {error : ReadError} (parsed : J.parse line = some record)
      (typed : memberString J record "type" = .ok (ascii "metadata"))
      (invalid : readMetadata J s.metadataSeen record = .error error) : RejectedEarly s line error
  | unknownType {record : J.Value} {type : Bytes} (parsed : J.parse line = some record)
      (typed : memberString J record "type" = .ok type)
      (unknown : type ≠ ascii "metadata" ∧ type ≠ ascii "frame") :
      RejectedEarly s line .unknownType
  | notFirst {record : J.Value} (parsed : J.parse line = some record)
      (typed : memberString J record "type" = .ok (ascii "frame"))
      (unseen : s.metadataSeen = false) : RejectedEarly s line .metadataNotFirst
  | envelope {record : J.Value} {error : ReadError} (parsed : J.parse line = some record)
      (typed : memberString J record "type" = .ok (ascii "frame"))
      (seen : s.metadataSeen = true)
      (invalid : readEnvelope J record = .error error) : RejectedEarly s line error
  | streamLimit {record : J.Value} {envelope : Envelope J} {sequence : UInt64} {error : ReadError}
      (parsed : J.parse line = some record)
      (typed : memberString J record "type" = .ok (ascii "frame"))
      (seen : s.metadataSeen = true)
      (valid : readEnvelope J record = .ok envelope)
      (numbered : envelope.sequence = some sequence)
      (full : s.tracker.track envelope.connectionId sequence = .error error) :
      RejectedEarly s line error

def decision (s : ReaderState) (line : Bytes) : Option ReadError :=
  if line = [] then none else (readLine J s line).2

def decisions (s : ReaderState) : List Bytes → List (Option ReadError)
  | [] => []
  | line :: lines => decision J s line :: decisions (step J s line) lines

structure Insertion (stream : Bytes) (before : List Bytes) (line : Bytes) (after : List Bytes)
    (inserted : Bytes) : Prop where
  original : pieces stream = before ++ after
  extended : pieces inserted = before ++ line :: after

theorem insertion_of_boundary {head line : Bytes} (hhead : Boundary head)
    (hline : newline ∉ line) (tail : Bytes) :
    Insertion (head ++ tail) (pieces head) line (pieces tail) (head ++ (line ++ newline :: tail)) :=
  ⟨pieces_append hhead tail, by rw [pieces_append hhead, pieces_append_newline hline]⟩

variable {J}

section Charge

theorem count_add (count more : UInt64) : count + more + 1 = count + 1 + more := by
  rw [UInt64.add_assoc, UInt64.add_comm more, ← UInt64.add_assoc]

variable (s : ReaderState) (frames errors : UInt64)

theorem readFrame_charge (record : J.Value) :
    readFrame J (s.charge frames errors) record =
      ((readFrame J s record).1.charge frames errors, (readFrame J s record).2) := by
  unfold readFrame
  cases readEnvelope J record with
  | error error => simp only [ReaderState.charge, count_add]
  | ok envelope =>
    cases hsequence : envelope.sequence with
    | none => simp only [ReaderState.charge, hsequence, count_add]
    | some sequence =>
      have htrack : (s.charge frames errors).tracker = s.tracker := rfl
      cases htracker : s.tracker.track envelope.connectionId sequence <;>
        simp only [ReaderState.charge, hsequence, htracker, count_add]

theorem readLine_charge (line : Bytes) :
    readLine J (s.charge frames errors) line =
      ((readLine J s line).1.charge frames errors, (readLine J s line).2) := by
  have hseen : (s.charge frames errors).metadataSeen = s.metadataSeen := rfl
  unfold readLine
  cases J.parse line with
  | none => rfl
  | some record =>
    simp only [readRecord, hseen, readFrame_charge]
    cases memberString J record "type" with
    | error error => rfl
    | ok type =>
      by_cases hmetadata : type = ascii "metadata"
      · simp only [hmetadata, if_true]
        cases readMetadata J s.metadataSeen record <;> rfl
      · simp only [hmetadata, if_false]
        split
        · rfl
        · split <;> rfl

theorem decision_charge (line : Bytes) :
    decision J (s.charge frames errors) line = decision J s line := by
  rw [decision, decision, readLine_charge]

theorem step_charge (line : Bytes) :
    step J (s.charge frames errors) line = (step J s line).charge frames errors := by
  unfold step
  split
  · rfl
  · rw [readLine_charge]
    rcases readLine J s line with ⟨t, _ | error⟩
    · rfl
    · simp only [countError, ReaderState.charge, count_add]

theorem foldl_charge (lines : List Bytes) :
    lines.foldl (step J) (s.charge frames errors) =
      (lines.foldl (step J) s).charge frames errors := by
  induction lines generalizing s with
  | nil => rfl
  | cons line lines ih => rw [List.foldl_cons, step_charge, ih, List.foldl_cons]

theorem decisions_charge (lines : List Bytes) :
    decisions J (s.charge frames errors) lines = decisions J s lines := by
  induction lines generalizing s with
  | nil => rfl
  | cons line lines ih => rw [decisions, decisions, decision_charge, step_charge, ih]

end Charge

theorem length_decisions (s : ReaderState) (lines : List Bytes) :
    (decisions J s lines).length = lines.length := by
  induction lines generalizing s with
  | nil => rfl
  | cons line lines ih => rw [decisions, List.length_cons, ih, List.length_cons]

theorem decisions_append (s : ReaderState) (before after : List Bytes) :
    decisions J s (before ++ after) =
      decisions J s before ++ decisions J (before.foldl (step J) s) after := by
  induction before generalizing s with
  | nil => rfl
  | cons line before ih => rw [List.cons_append, decisions, ih]; rfl

theorem RejectedEarly.readLine_eq {s : ReaderState} {line : Bytes} {error : ReadError}
    (h : RejectedEarly J s line error) :
    ∃ frames : UInt64, (frames = 0 ∨ frames = 1) ∧
      readLine J s line = (s.charge frames 0, some error) := by
  have hunread : s.charge 0 0 = s := by simp [ReaderState.charge]
  have hframe : { s with frames := s.frames + 1 } = s.charge 1 0 := by simp [ReaderState.charge]
  have hnot : ascii "frame" ≠ ascii "metadata" := frame_ne_metadata
  cases h with
  | malformed parsed => exact ⟨0, Or.inl rfl, by rw [readLine, parsed, hunread]⟩
  | typeless parsed typed =>
    exact ⟨0, Or.inl rfl, by simp only [readLine, parsed, readRecord, typed, hunread]⟩
  | metadata parsed typed invalid =>
    exact ⟨0, Or.inl rfl, by
      simp only [readLine, parsed, readRecord, typed, if_true, invalid, hunread]⟩
  | unknownType parsed typed unknown =>
    exact ⟨0, Or.inl rfl, by
      simp only [readLine, parsed, readRecord, typed, if_neg unknown.1, if_pos unknown.2, hunread]⟩
  | notFirst parsed typed unseen =>
    exact ⟨0, Or.inl rfl, by simp [readLine, parsed, readRecord, typed, hnot, unseen, hunread]⟩
  | envelope parsed typed seen invalid =>
    exact ⟨1, Or.inr rfl, by
      simp [readLine, parsed, readRecord, typed, hnot, seen, readFrame, invalid, ← hframe]⟩
  | streamLimit parsed typed seen valid numbered full =>
    exact ⟨1, Or.inr rfl, by
      simp [readLine, parsed, readRecord, typed, hnot, seen, readFrame, valid, numbered, full,
        ← hframe]⟩

theorem toNat_count_le (count : UInt64) (more : Bool) :
    (count + if more then 1 else 0).toNat ≤ count.toNat + 1 := by
  cases more with
  | false => simp
  | true =>
    rw [if_pos rfl, UInt64.toNat_add]
    exact Nat.mod_le _ _

theorem step_counters (s : ReaderState) (line : Bytes) :
    (step J s line).frames.toNat ≤ s.frames.toNat + 1 ∧
      (step J s line).parseErrors.toNat ≤ s.parseErrors.toNat + 1 := by
  by_cases hne : line = []
  · rw [hne, step_nil]
    exact ⟨Nat.le_succ _, Nat.le_succ _⟩
  cases hs : s.metadataSeen with
  | true =>
    obtain ⟨-, frame, -, hstep⟩ := step_of_seen (J := J) hs hne
    have hflip : (if accepts J s line then 0 else 1 : UInt64) =
        if !accepts J s line then 1 else 0 := by
      cases accepts J s line <;> rfl
    rw [hstep, hflip]
    exact ⟨toNat_count_le _ _, toNat_count_le _ _⟩
  | false =>
    by_cases hmetadata : IsMetadataLine J line
    · rw [step_of_metadata hs hmetadata]
      exact ⟨Nat.le_succ _, Nat.le_succ _⟩
    · rw [step_of_not_metadata hs hne hmetadata]
      exact ⟨Nat.le_succ _, toNat_count_le s.parseErrors true⟩

/-- The counters are below the number of lines, so they do not wrap on a real file. -/
theorem counters_le_length (lines : List Bytes) :
    (lines.foldl (step J) {}).frames.toNat ≤ lines.length ∧
      (lines.foldl (step J) {}).parseErrors.toNat ≤ lines.length := by
  induction lines using List.reverseRecOn with
  | nil => exact ⟨Nat.le_refl _, Nat.le_refl _⟩
  | append_singleton lines line ih =>
    have hstep := step_counters (J := J) (lines.foldl (step J) {}) line
    rw [List.foldl_append, List.length_append]
    exact ⟨hstep.1.trans (Nat.succ_le_succ ih.1), hstep.2.trans (Nat.succ_le_succ ih.2)⟩

theorem RejectedEarly.step_eq {s : ReaderState} {line : Bytes} {error : ReadError}
    (h : RejectedEarly J s line error) (hne : line ≠ []) :
    ∃ frames : UInt64, (frames = 0 ∨ frames = 1) ∧ step J s line = s.charge frames 1 := by
  obtain ⟨frames, hframes, hread⟩ := h.readLine_eq
  refine ⟨frames, hframes, ?_⟩
  rw [step, if_neg hne, hread]
  simp [countError, ReaderState.charge]

variable (J)

/-- The reading of a capture with one line more, next to that of the capture: the decisions
on the other lines, what is delivered and the gaps stay, the errors count the line. -/
structure Undisturbed (path : String) (stream inserted : Bytes) (position : Nat)
    (metrics extended : ParseMetrics) : Prop where
  returns : (readCapture J path (some inserted)).outcome = .ok extended
  delivered : (readCapture J path (some inserted)).delivered =
    (readCapture J path (some stream)).delivered
  sequenceGaps : extended.sequenceGaps = metrics.sequenceGaps
  outOfOrder : extended.outOfOrder = metrics.outOfOrder
  rejected : ∃ error, (decisions J {} (pieces inserted))[position]? = some (some error)
  others : (decisions J {} (pieces inserted)).eraseIdx position = decisions J {} (pieces stream)
  parseErrors : extended.parseErrors = metrics.parseErrors + 1
  frames : extended.frames = metrics.frames ∨ extended.frames = metrics.frames + 1
  exact : inserted.length < 2 ^ 64 →
    extended.parseErrors.toNat = metrics.parseErrors.toNat + 1 ∧
      metrics.frames.toNat ≤ extended.frames.toNat ∧
      extended.frames.toNat ≤ metrics.frames.toNat + 1

variable {J}

theorem Insertion.finalState_eq {stream inserted line : Bytes} {before after : List Bytes}
    {error : ReadError} (hinsert : Insertion stream before line after inserted) (hne : line ≠ [])
    (hreject : RejectedEarly J (before.foldl (step J) {}) line error) :
    ∃ frames : UInt64, (frames = 0 ∨ frames = 1) ∧
      finalState J inserted = (finalState J stream).charge frames 1 := by
  obtain ⟨frames, hframes, hstep⟩ := hreject.step_eq hne
  refine ⟨frames, hframes, ?_⟩
  calc
    finalState J inserted = after.foldl (step J) (step J (before.foldl (step J) {}) line) := by
      rw [finalState, hinsert.extended, List.foldl_append, List.foldl_cons]
    _ = (after.foldl (step J) (before.foldl (step J) {})).charge frames 1 := by
      rw [hstep, foldl_charge]
    _ = (finalState J stream).charge frames 1 := by
      rw [finalState, hinsert.original, List.foldl_append]

theorem Insertion.decisions_eq {stream inserted line : Bytes} {before after : List Bytes}
    {error : ReadError} (hinsert : Insertion stream before line after inserted) (hne : line ≠ [])
    (hreject : RejectedEarly J (before.foldl (step J) {}) line error) :
    (decisions J {} (pieces inserted))[before.length]? = some (some error) ∧
      (decisions J {} (pieces inserted)).eraseIdx before.length =
        decisions J {} (pieces stream) := by
  obtain ⟨frames, -, hstep⟩ := hreject.step_eq hne
  obtain ⟨_, -, hread⟩ := hreject.readLine_eq
  have hdecision : decision J (before.foldl (step J) {}) line = some error := by
    rw [decision, if_neg hne, hread]
  have hlength := length_decisions (J := J) {} before
  have hsplit : decisions J {} (pieces inserted) = decisions J {} before ++
      some error :: decisions J (before.foldl (step J) {}) after := by
    rw [hinsert.extended, decisions_append, decisions, hdecision, hstep, decisions_charge]
  rw [hsplit, hinsert.original, decisions_append, ← hlength]
  exact ⟨by simp, by simp [List.eraseIdx_append_of_length_le]⟩

/-- Bad lines do not disturb good ones. -/
theorem readCapture_undisturbed {path : String} {stream inserted line : Bytes}
    {before after : List Bytes} {metrics : ParseMetrics} {error : ReadError}
    (hok : (readCapture J path (some stream)).outcome = .ok metrics)
    (hinsert : Insertion stream before line after inserted)
    (hne : line ≠ []) (hshort : line.length ≤ maximumRecordSize)
    (hreject : RejectedEarly J (before.foldl (step J) {}) line error) :
    ∃ extended, Undisturbed J path stream inserted before.length metrics extended := by
  obtain ⟨hbounded, hseen, hdelivered, rfl⟩ := (readCapture_eq_ok_iff rfl).1 hok
  obtain ⟨frames, hframes, hfinal⟩ := hinsert.finalState_eq hne hreject
  obtain ⟨hrejected, hothers⟩ := hinsert.decisions_eq hne hreject
  have hlong : Bounded (pieces inserted) := by
    rw [hinsert.original] at hbounded
    rw [hinsert.extended]
    intro l hl
    rcases List.mem_append.1 hl with hl | hl
    · exact hbounded l (List.mem_append_left _ hl)
    · rcases List.mem_cons.1 hl with rfl | hl
      · exact hshort
      · exact hbounded l (List.mem_append_right _ hl)
  have hlate : (finalState J inserted).metadataSeen = true := by
    rw [hfinal]
    exact hseen
  have hcapture := @readCapture_of_seen J path inserted hlong hlate
  have hparse : (finalState J inserted).parseErrors = (finalState J stream).parseErrors + 1 := by
    rw [hfinal]; rfl
  have hframe : (finalState J inserted).frames = (finalState J stream).frames + frames := by
    rw [hfinal]; rfl
  refine ⟨(finalState J inserted).metrics, by rw [hcapture], ?_, by rw [hfinal]; rfl,
    by rw [hfinal]; rfl, ⟨error, hrejected⟩, hothers, hparse, ?_, fun hlength => ?_⟩
  · rw [hcapture, hdelivered, hfinal]
    rfl
  · rcases hframes with rfl | rfl
    · exact Or.inl (by rw [ReaderState.metrics, hframe]; exact UInt64.add_zero _)
    · exact Or.inr hframe
  · -- One counter value is left below the number of lines of the longer capture.
    have hcounters := counters_le_length (J := J) (pieces stream)
    have hlines : (pieces stream).length + 1 = (pieces inserted).length := by
      rw [hinsert.original, hinsert.extended]
      simp only [List.length_append, List.length_cons]
      omega
    have hbytes := length_pieces_le inserted
    change (finalState J stream).frames.toNat ≤ _ ∧
      (finalState J stream).parseErrors.toNat ≤ _ at hcounters
    simp only [ReaderState.metrics, hparse, hframe, UInt64.toNat_add]
    rcases hframes with rfl | rfl
    · simp only [UInt64.toNat_one, UInt64.toNat_zero]
      omega
    · simp only [UInt64.toNat_one]
      omega

section Fixture

open JsonText

def fixtureHead : Bytes := fixtureFile [
  fixtureFrame (fixtureHeartbeat (.unsigned 5)), fixtureMetadata,
  fixtureFrame (fixtureHeartbeat (.unsigned 7))]

def fixtureTail : Bytes := fixtureFile [fixtureFrame (fixtureHeartbeat (.unsigned 9))]

def fixtureRepeated : Bytes := fixtureHead ++ (compact fixtureMetadata ++ newline :: fixtureTail)

theorem fixtureJump_eq : fixtureJump = fixtureHead ++ fixtureTail := by
  simp [fixtureJump, fixtureHead, fixtureTail, fixtureFile, terminated]

theorem newline_not_mem_fixtureMetadata : newline ∉ compact fixtureMetadata := by decide

theorem insertion_fixtureRepeated :
    Insertion fixtureJump (pieces fixtureHead) (compact fixtureMetadata) (pieces fixtureTail)
      fixtureRepeated := by
  rw [fixtureJump_eq]
  exact insertion_of_boundary (Or.inr (getLast?_terminated (by simp)))
    newline_not_mem_fixtureMetadata _

theorem metadataSeen_fixtureHead :
    ((pieces fixtureHead).foldl (step .reference) {}).metadataSeen = true := by decide +kernel

theorem rejectedEarly_fixtureMetadata :
    RejectedEarly .reference ((pieces fixtureHead).foldl (step .reference) {})
      (compact fixtureMetadata) .unsupportedMetadata := by
  have hparsed : JsonLibrary.reference.parse (compact fixtureMetadata) = some fixtureMetadata :=
    JsonLibrary.reference_lawful.parse _ (by decide +kernel)
  have htyped : memberString .reference fixtureMetadata "type" = .ok (ascii "metadata") :=
    memberString_type rfl
  refine .metadata hparsed htyped ?_
  rw [metadataSeen_fixtureHead]
  rfl

theorem readCapture_undisturbed_repeated :
    ∃ metrics, (readCapture .reference "fixture" (some fixtureJump)).outcome = .ok metrics ∧
      ∃ extended, Undisturbed .reference "fixture" fixtureJump fixtureRepeated
        (pieces fixtureHead).length metrics extended := by
  have hseen : (finalState .reference fixtureJump).metadataSeen = true := by
    rw [finalState, insertion_fixtureRepeated.original, List.foldl_append]
    decide +kernel
  have hok : (readCapture .reference "fixture" (some fixtureJump)).outcome =
      .ok (finalState .reference fixtureJump).metrics := by
    rw [readCapture_of_seen bounded_fixtureJump hseen]
  exact ⟨_, hok, readCapture_undisturbed hok insertion_fixtureRepeated (by decide) (by decide)
    rejectedEarly_fixtureMetadata⟩

end Fixture

end Reader

end BengalMarket
