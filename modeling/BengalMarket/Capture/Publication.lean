import BengalMarket.Capture.Log
import BengalMarket.Library.JsonParser

namespace BengalMarket.Capture

open JsonText Lines

variable {J : JsonLibrary}

/-- The write of a frame record failed after the kernel took some of its bytes. -/
def Torn (w : FrameWrite) : Prop := w.written.error ≠ none ∧ w.written.accepted ≠ []

def frameLines (run : Run) : List Bytes := (recorded (writesOf run.log)).map (·.line)

/-- The metadata line and `result.frames` frame lines, each a whole JSON record. -/
structure WholeRecords (J : JsonLibrary) (options : CaptureOptions) (run : Run) (content : Bytes) :
    Prop where
  bytes : ∃ metadata, J.dump (metadataRecord options) = .ok metadata ∧ newline ∉ metadata ∧
    content = terminated (metadata :: frameLines run)
  frames : run.result.frames = UInt64.ofNat (frameLines run).length
  frames_toNat : content.length < 2 ^ 64 → run.result.frames.toNat = (frameLines run).length
  records : ∀ line ∈ frameLines run, newline ∉ line ∧
    ∃ receivedNs connectionId payload,
      J.dump (frameRecord receivedNs connectionId payload) = .ok line

section Lines

theorem plainElements_strings {Double : Type} {checked parsed : Bool} (texts : List Bytes) :
    plainElements checked parsed (texts.map Json.string : List (Json Double)) = true ↔
      ∀ text ∈ texts, (!checked || utf8 text) = true := by
  rw [plainElements_iff, List.forall_mem_map]
  rfl

theorem doubleFree_metadataRecord {Double : Type} (options : CaptureOptions) :
    doubleFree (metadataRecord options : Json Double) = true := by
  simp [metadataRecord, plain, plainMembers, plainElements_strings]

theorem doubleFree_frameRecord {Double : Type} (receivedNs connectionId : UInt64)
    (payload : Bytes) :
    doubleFree (frameRecord receivedNs connectionId payload : Json Double) = true := by
  simp [frameRecord, plain, plainMembers]

theorem dump_eq_ok {record : J.Value} (h : J.Lawful) (hfree : doubleFree record = true)
    {line : Bytes} (hdump : J.dump record = .ok line) :
    printable record = true ∧ line = compact record ∧ newline ∉ line := by
  have hprintable : printable record = true := by
    by_contra hnot
    obtain ⟨what, hwhat⟩ := h.refuse record hfree (by simpa using hnot)
    rw [hwhat] at hdump
    cases hdump
  have hline : line = compact record := by
    rw [h.dump record hprintable] at hdump
    exact (Except.ok.inj hdump).symm
  refine ⟨hprintable, hline, fun hmem => ?_⟩
  rw [hline] at hmem
  exact absurd (le_of_mem_render _ hprintable hmem) (by decide)

end Lines

variable {path : String}

theorem bytesOf_recorded {writes : List FrameWrite}
    (h : ∀ w ∈ writes, ∃ connectionId, FrameOf J path connectionId w) :
    bytesOf (recorded writes) = terminated ((recorded writes).map (·.line)) := by
  rw [bytesOf, terminated, List.flatMap_map]
  apply List.flatMap_congr
  intro w hw
  obtain ⟨hw, herror⟩ := List.mem_filter.1 hw
  obtain ⟨connectionId, hframe⟩ := h w hw
  exact hframe.accepted.2.1 (by simpa using herror)

theorem recorded_eq_self {writes : List FrameWrite} (h : ∀ w ∈ writes, w.written.error = none) :
    recorded writes = writes := by
  rw [recorded, List.filter_eq_self]
  intro w hw
  rw [h w hw]
  rfl

theorem bytesOf_cons (w : FrameWrite) (writes : List FrameWrite) :
    bytesOf (w :: writes) = w.written.accepted ++ bytesOf writes := by
  simp [bytesOf]

theorem length_bytesOf_recorded_le (writes : List FrameWrite) :
    (bytesOf (recorded writes)).length ≤ (bytesOf writes).length := by
  induction writes with
  | nil => exact Nat.le_refl _
  | cons w writes ih =>
    rw [recorded, List.filter_cons, ← recorded]
    split
    · simp only [bytesOf_cons, List.length_append]
      omega
    · rw [bytesOf_cons, List.length_append]
      omega

/-- The bytes of the failed writes are all that is not a whole record. -/
theorem bytesOf_eq_recorded_iff (writes : List FrameWrite) :
    bytesOf writes = bytesOf (recorded writes) ↔ ∀ w ∈ writes, ¬ Torn w := by
  induction writes with
  | nil => simp
  | cons w writes ih =>
    have hrest := length_bytesOf_recorded_le writes
    rw [List.forall_mem_cons, ← ih, bytesOf_cons]
    cases herror : w.written.error with
    | none =>
      have hrecorded : recorded (w :: writes) = w :: recorded writes := by simp [recorded, herror]
      rw [hrecorded, bytesOf_cons]
      simp [Torn, herror]
    | some what =>
      have hrecorded : recorded (w :: writes) = recorded writes := by simp [recorded, herror]
      rw [hrecorded]
      simp only [Torn, herror, ne_eq, reduceCtorEq, not_false_eq_true, true_and, not_not]
      constructor
      · intro heq
        have hlength := congrArg List.length heq
        rw [List.length_append] at hlength
        have hnil : w.written.accepted = [] := List.eq_nil_of_length_eq_zero (by omega)
        exact ⟨hnil, by simpa [hnil] using heq⟩
      · rintro ⟨hnil, heq⟩
        rw [hnil, heq]
        rfl

theorem length_le_terminated (lines : List Bytes) : lines.length ≤ (terminated lines).length := by
  induction lines with
  | nil => exact Nat.le_refl _
  | cons line lines ih =>
    simp only [terminated, List.flatMap_cons, List.length_append, List.length_cons] at ih ⊢
    omega

/-- A published recording has only whole records exactly if no frame record is torn. -/
theorem wholeRecords_iff (hJ : J.Lawful) {options : CaptureOptions} {script : Script}
    {content : Bytes} (hpublished : (captureLive J options script).destination = some content) :
    WholeRecords J options (captureLive J options script) content ↔
      ∀ w ∈ writesOf (captureLive J options script).log, ¬ Torn w := by
  rcases captureLive_cases (J := J) options script with ⟨-, hnone, -⟩ | ⟨metadata, -, hdump, hrun⟩
  · rw [hnone] at hpublished
    cases hpublished
  have hrecorded : Recorded J options metadata (captureLive J options script) :=
    hrun ▸ recorded_captureFrom options script metadata
  have hcontent := (hrecorded.destination content hpublished).symm.trans hrecorded.file
  have hframes : ∀ w ∈ writesOf (captureLive J options script).log,
      ∃ connectionId, FrameOf J (temporary options.output) connectionId w := by
    intro w hw
    obtain ⟨entry, hentry, hw⟩ := List.mem_flatMap.1 hw
    exact ⟨_, hrecorded.writes entry hentry w hw⟩
  have hlines := bytesOf_recorded hframes
  have hmetadata := dump_eq_ok hJ (doubleFree_metadataRecord options) hdump
  have hwhole : terminated (metadata :: frameLines (captureLive J options script)) =
      metadata ++ [newline] ++
        bytesOf (recorded (writesOf (captureLive J options script).log)) := by
    rw [hlines, frameLines, terminated, List.flatMap_cons]
    rfl
  rw [← bytesOf_eq_recorded_iff]
  constructor
  · rintro ⟨⟨metadata', hdump', -, hexact⟩, -, -, -⟩
    cases hdump.symm.trans hdump'
    rw [hwhole, Option.some.inj hcontent] at hexact
    exact List.append_cancel_left hexact
  · intro hbytes
    have hexact : content = terminated (metadata :: frameLines (captureLive J options script)) := by
      rw [hwhole, Option.some.inj hcontent, hbytes]
    have hcount : (captureLive J options script).result.frames =
        UInt64.ofNat (frameLines (captureLive J options script)).length := by
      rw [hrecorded.frames, frameLines, List.length_map]
    refine ⟨⟨metadata, hdump, hmetadata.2.2, hexact⟩, hcount, ?_, ?_⟩
    · intro hshort
      have hlength := length_le_terminated (metadata :: frameLines (captureLive J options script))
      rw [← hexact, List.length_cons] at hlength
      rw [hcount, UInt64.toNat_ofNat_of_lt' (by exact lt_of_lt_of_le (by omega) hshort.le)]
    · intro line hline
      obtain ⟨w, hw, rfl⟩ := List.mem_map.1 hline
      obtain ⟨connectionId, hframe⟩ := hframes w (List.mem_filter.1 hw).1
      exact ⟨(dump_eq_ok hJ (doubleFree_frameRecord _ _ _) hframe.dump).2.2, _, _, _, hframe.dump⟩

section Fixture

def fixtureOptions : CaptureOptions where
  output := "capture.jsonl"
  productIds := [ascii "BTC-USD"]

def fixtureChunk : Chunk where
  flags := { text := true }
  bytesLeft := 0
  data := ascii "{}"
  fits := by decide

def fixtureControl (flags : Flags) : Received := .chunk ⟨flags, 0, [], Nat.zero_le _⟩

def fixtureClose : Received := fixtureControl { close := true }

def fixtureScript (writes : List WriteResult) : Script where
  attempts := [{
    connect := .connected
    receives := [
      { received := .chunk fixtureChunk, wallTimeNs := 7, writes := writes },
      { received := .again { stop := true } {} .ready }]
    handler := { stop := true } }]

def fixtureFull : List WriteResult :=
  [{ value := 10 }, { value := -1, error := "No space left on device" }]

def fixtureShort : List WriteResult := [{ value := 3 }, { value := -1, interrupted := true }]

theorem wholeRecords_iff_short :
    let run := captureLive .reference fixtureOptions (fixtureScript fixtureShort)
    ∃ content, run.destination = some content ∧
      (WholeRecords .reference fixtureOptions run content ↔ ∀ w ∈ writesOf run.log, ¬ Torn w) := by
  obtain ⟨content, hcontent⟩ := Option.isSome_iff_exists.1 (by decide +kernel :
    (captureLive .reference fixtureOptions (fixtureScript fixtureShort)).destination.isSome = true)
  exact ⟨content, hcontent, wholeRecords_iff JsonLibrary.reference_lawful hcontent⟩

/-- The failed write is handled like a failed connection, so the fragment is published. -/
theorem torn_record_published :
    let run := captureLive .reference fixtureOptions (fixtureScript fixtureFull)
    ∃ content, run.destination = some content ∧ content.getLast? ≠ some newline ∧
      ¬ WholeRecords .reference fixtureOptions run content := by
  obtain ⟨content, hcontent⟩ := Option.isSome_iff_exists.1 (by decide +kernel :
    (captureLive .reference fixtureOptions (fixtureScript fixtureFull)).destination.isSome = true)
  have hlast : (captureLive .reference fixtureOptions
      (fixtureScript fixtureFull)).destination.bind List.getLast? ≠ some newline := by
    decide +kernel
  rw [hcontent, Option.bind_some] at hlast
  refine ⟨content, hcontent, hlast, fun hwhole => hlast ?_⟩
  obtain ⟨metadata, -, -, hexact⟩ := hwhole.bytes
  rw [hexact]
  exact getLast?_terminated (by simp)

end Fixture

end BengalMarket.Capture
