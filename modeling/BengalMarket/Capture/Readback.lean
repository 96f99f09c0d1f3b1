import BengalMarket.Capture.Records
import BengalMarket.Reader.Limits

namespace BengalMarket.Capture

open JsonText Lines Reader

variable {J : JsonLibrary}

section Metadata

/-- The metadata record as a parser builds it: its version is unsigned. -/
def metadataRead {Double : Type} (options : CaptureOptions) : Json Double := .object [
  (ascii "endpoint", .string options.endpoint),
  (ascii "format", .string (ascii "bengal-market-capture")),
  (ascii "product_ids", .array (options.productIds.map .string)),
  (ascii "source", .string (ascii "coinbase-advanced-trade")),
  (ascii "type", .string (ascii "metadata")),
  (ascii "version", .unsigned 1)]

theorem compact_metadataRecord {Double : Type} (options : CaptureOptions) :
    compact (metadataRecord options : Json Double) =
      compact (metadataRead options : Json Double) := rfl

def metadataKeys : List String :=
  ["endpoint", "format", "product_ids", "source", "type", "version"]

theorem metadataKeys_spec : (metadataKeys.map ascii).Pairwise (· < ·) ∧
    ∀ key ∈ metadataKeys.map ascii, utf8 key = true := by decide +kernel

theorem canonical_metadataRead {Double : Type} {options : CaptureOptions}
    (h : printable (metadataRecord options : Json Double) = true) :
    canonical (metadataRead options : Json Double) = true := by
  rw [metadataRecord, plain_object_iff metadataKeys_spec rfl] at h
  rw [metadataRead, plain_object_iff metadataKeys_spec rfl]
  simp only [List.forall_mem_cons, plain, plainElements_strings] at h ⊢
  simp_all

theorem validMetadata_metadataRead {options : CaptureOptions} (h : Checked options) :
    ValidMetadata J (metadataRead options) where
  type := rfl
  format := rfl
  version := ⟨_, rfl, rfl⟩
  source := ⟨_, rfl⟩
  productIds := by
    refine ⟨options.productIds.map .string, rfl, by simpa using h.nonempty, ?_⟩
    rw [List.forall_mem_map]
    intro product hproduct
    obtain ⟨hne, hshort⟩ := h.products product hproduct
    exact ⟨product, rfl, List.length_pos_iff.2 hne, hshort⟩

theorem isMetadataLine_of_dump (hJ : J.Lawful) {options : CaptureOptions} (h : Checked options)
    {line : Bytes} (hdump : J.dump (metadataRecord options) = .ok line) :
    IsMetadataLine J line ∧ line = compact (metadataRecord options : J.Value) := by
  obtain ⟨hprintable, hline, -⟩ := dump_eq_ok hJ (doubleFree_metadataRecord options) hdump
  refine ⟨⟨metadataRead options, ?_, validMetadata_metadataRead h⟩, hline⟩
  rw [hline, compact_metadataRecord]
  exact record?_compact hJ (canonical_metadataRead hprintable)
    (by simp [metadataRead, compact, render])

end Metadata

section Frames

def sequence? (J : JsonLibrary) (payload : Bytes) : Option UInt64 := do
  let value ← J.parse payload
  let _ ← text? value "channel"
  number? J value "sequence_num"

theorem observation?_frameRecord (receivedNs connectionId : UInt64) (payload : Bytes) :
    observation? J (frameRecord receivedNs connectionId payload) =
      (sequence? J payload).map fun sequence => (connectionId, sequence) := by
  have htype : text? (frameRecord receivedNs connectionId payload : J.Value) "type" =
      some (ascii "frame") := rfl
  have hreceived : number? J (frameRecord receivedNs connectionId payload) "received_ns" =
      some receivedNs := rfl
  have hconnection : number? J (frameRecord receivedNs connectionId payload) "connection_id" =
      some connectionId := rfl
  have hpayload : text? (frameRecord receivedNs connectionId payload : J.Value) "payload" =
      some payload := rfl
  simp only [observation?, htype, hreceived, hconnection, hpayload, sequence?, bind,
    Option.bind_some, if_true]
  cases J.parse payload with
  | none => rfl
  | some value =>
    simp only [Option.bind_some]
    cases text? value "channel" with
    | none => rfl
    | some channel =>
      simp only [Option.bind_some]
      cases number? J value "sequence_num" <;> rfl

def frameSize (receivedNs connectionId : UInt64) (payload : Bytes) : Nat :=
  61 + (Decimal.text connectionId.toNat).length + (escape payload).length +
    (Decimal.text receivedNs.toNat).length

theorem length_frameRecord {Double : Type} (receivedNs connectionId : UInt64) (payload : Bytes) :
    (compact (frameRecord receivedNs connectionId payload : Json Double)).length =
      frameSize receivedNs connectionId payload := by
  have hnames : (string (ascii "connection_id")).length = 15 ∧
      (string (ascii "payload")).length = 9 ∧ (string (ascii "received_ns")).length = 13 ∧
      (string (ascii "type")).length = 6 ∧ (string (ascii "frame")).length = 7 := by
    decide +kernel
  simp only [compact, frameRecord, render, renderMembers, List.length_cons, List.length_append,
    hnames, length_string payload, frameSize, List.length_nil]
  omega

theorem length_number_le (number : UInt64) : (Decimal.text number.toNat).length ≤ 20 :=
  Decimal.length_text_le (lt_of_lt_of_le number.toNat_lt (by decide)) (by decide)

theorem frameSize_le (receivedNs connectionId : UInt64) (payload : Bytes) :
    frameSize receivedNs connectionId payload ≤ 6 * payload.length + 101 := by
  have hconnection := length_number_le connectionId
  have hreceived := length_number_le receivedNs
  have hpayload := length_escape_le payload
  rw [frameSize]
  omega

structure FrameRead (J : JsonLibrary) (w : FrameWrite) : Prop where
  record : record? J w.line = some (frameRecord w.receivedNs w.connectionId w.payload)
  length : w.line.length = frameSize w.receivedNs w.connectionId w.payload
  newline : newline ∉ w.line

theorem FrameOf.read (hJ : J.Lawful) {path : String} {connectionId : UInt64} {w : FrameWrite}
    (h : FrameOf J path connectionId w) : FrameRead J w := by
  obtain ⟨hprintable, hline, hnewline⟩ := dump_eq_ok hJ (doubleFree_frameRecord _ _ _) h.dump
  have hpayload : utf8 w.payload = true := by
    simp only [frameRecord, plain, plainMembers, Bool.and_eq_true] at hprintable
    simpa using hprintable.2.2.1.2
  refine ⟨?_, by rw [hline, length_frameRecord], hnewline⟩
  rw [hline]
  exact record?_compact hJ (plain_frameRecord _ _ hpayload) (by simp [frameRecord, compact, render])

theorem FrameRead.isFrameLine {w : FrameWrite} (h : FrameRead J w) : IsFrameLine J w.line :=
  ⟨_, h.record, rfl⟩

theorem FrameRead.observation {w : FrameWrite} (h : FrameRead J w) :
    lineObservation? J w.line =
      (sequence? J w.payload).map fun sequence => (w.connectionId, sequence) := by
  rw [lineObservation?, h.record, Option.bind_some, observation?_frameRecord]

end Frames

section Runs

variable {options : CaptureOptions} {script : Script}

structure Published (J : JsonLibrary) (options : CaptureOptions) (run : Run)
    (result : CaptureResult) (content metadata : Bytes) : Prop where
  isMetadata : IsMetadataLine J metadata
  length : metadata.length = (compact (metadataRecord options : J.Value)).length
  terminator : newline ∉ metadata
  frames : ∀ w ∈ writesOf run.log, FrameRead J w
  bytes : content = terminated (metadata :: (writesOf run.log).map (·.line))
  count : result.frames = UInt64.ofNat (writesOf run.log).length

theorem exists_published (hJ : J.Lawful) {result : CaptureResult} {content : Bytes}
    (hwrites : ∀ w ∈ writesOf (captureLive J options script).log, w.written.error = none)
    (hreturned : (captureLive J options script).outcome = some (.ok result))
    (hpublished : (captureLive J options script).destination = some content) :
    ∃ metadata, Published J options (captureLive J options script) result content metadata := by
  rcases captureLive_cases (J := J) options script with
    ⟨-, hnone, -⟩ | ⟨metadata, hchecked, hdump, hrun⟩
  · rw [hnone] at hpublished
    cases hpublished
  have hrecorded : Recorded J options metadata (captureLive J options script) :=
    hrun ▸ recorded_captureFrom options script metadata
  have hwhole := (wholeRecords_iff hJ hpublished).2 fun w hw htorn => htorn.1 (hwrites w hw)
  obtain ⟨metadata', hdump', hnewline, hcontent⟩ := hwhole.bytes
  cases hdump.symm.trans hdump'
  have hall : recorded (writesOf (captureLive J options script).log) =
      writesOf (captureLive J options script).log := recorded_eq_self hwrites
  obtain ⟨hmetadata, hline⟩ := isMetadataLine_of_dump hJ hchecked hdump
  refine ⟨metadata, hmetadata, by rw [hline], hnewline, ?_, ?_, ?_⟩
  · intro w hw
    obtain ⟨entry, hentry, hw⟩ := List.mem_flatMap.1 hw
    exact (hrecorded.writes entry hentry w hw).read hJ
  · rw [hcontent, frameLines, hall]
  · rw [(hrecorded.returned result hreturned).2, hrecorded.frames, hall]

/-- The reader returns, counts every frame, and no limit of its own makes it reject a record. -/
structure ReadsBack (J : JsonLibrary) (path : String) (content : Bytes) (result : CaptureResult) :
    Prop where
  reads : ∃ metrics, (readCapture J path (some content)).outcome = .ok metrics ∧
    metrics.frames = result.frames
  streams : AdmitsStreams J content

def accountedConnections (J : JsonLibrary) (writes : List FrameWrite) : List UInt64 :=
  ((writes.filter fun w => (sequence? J w.payload).isSome).map (·.connectionId)).eraseDups

structure WithinLimits (J : JsonLibrary) (options : CaptureOptions) (run : Run) : Prop where
  metadata : (compact (metadataRecord options : J.Value)).length ≤ maximumRecordSize
  frames : ∀ w ∈ writesOf run.log,
    frameSize w.receivedNs w.connectionId w.payload ≤ maximumRecordSize
  streams : (accountedConnections J (writesOf run.log)).length ≤ maximumSequenceStreams

theorem observations_lines {writes : List FrameWrite} (h : ∀ w ∈ writes, FrameRead J w) :
    ((observations J (writes.map (·.line))).map Prod.fst).eraseDups =
      accountedConnections J writes := by
  rw [accountedConnections]
  congr 1
  induction writes with
  | nil => rfl
  | cons w writes ih =>
    rw [List.forall_mem_cons] at h
    have hrest := ih h.2
    rw [observations] at hrest ⊢
    rw [List.map_cons, List.filterMap_cons, h.1.observation, List.filter_cons]
    cases sequence? J w.payload with
    | none => exact hrest
    | some sequence => exact congrArg (List.cons w.connectionId) hrest

variable {result : CaptureResult} {content metadata : Bytes} {run : Run} {path : String}

theorem Published.pieces_eq (h : Published J options run result content metadata) :
    pieces content = metadata :: (writesOf run.log).map (·.line) := by
  rw [h.bytes]
  apply pieces_terminated
  rw [List.forall_mem_cons, List.forall_mem_map]
  exact ⟨h.terminator, fun w hw => (h.frames w hw).newline⟩

theorem Published.isFrameLine (h : Published J options run result content metadata) :
    ∀ line ∈ (writesOf run.log).map (·.line), IsFrameLine J line := by
  rw [List.forall_mem_map]
  exact fun w hw => (h.frames w hw).isFrameLine

theorem Published.bounded_iff (h : Published J options run result content metadata) :
    Bounded (pieces content) ↔
      (compact (metadataRecord options : J.Value)).length ≤ maximumRecordSize ∧
        ∀ w ∈ writesOf run.log,
          frameSize w.receivedNs w.connectionId w.payload ≤ maximumRecordSize := by
  rw [h.pieces_eq, Bounded, List.forall_mem_cons, List.forall_mem_map, h.length]
  exact and_congr_right fun _ => forall₂_congr fun w hw => by rw [(h.frames w hw).length]

theorem Published.counted (h : Published J options run result content metadata) :
    (finalState J content).metadataSeen = true ∧ (finalState J content).frames = result.frames := by
  have hfirst : FirstMetadata J (pieces content) [] metadata
      ((writesOf run.log).map (·.line)) := ⟨h.pieces_eq, h.isMetadata, by simp⟩
  have haccounted := accounted_finalState hfirst
  refine ⟨haccounted.seen, ?_⟩
  have hcount : countOf (IsFrameLine J) ((writesOf run.log).map (·.line)) =
      (writesOf run.log).length := by
    rw [countOf_eq_length h.isFrameLine, List.length_map]
  rw [haccounted.frames, hcount, h.count]
  exact UInt64.zero_add _

theorem Published.readsBack_iff (h : Published J options run result content metadata) :
    ReadsBack J path content result ↔ WithinLimits J options run := by
  have hstreams (hbounded : Bounded (pieces content)) := admitsStreams_iff h.pieces_eq
    hbounded h.isMetadata h.isFrameLine
  rw [observations_lines h.frames] at hstreams
  constructor
  · rintro ⟨⟨metrics, hok, -⟩, hadmits⟩
    have hbounded := ((readCapture_eq_ok_iff rfl).1 hok).1
    obtain ⟨hmetadata, hframes⟩ := h.bounded_iff.1 hbounded
    exact ⟨hmetadata, hframes, (hstreams hbounded).1 hadmits⟩
  · rintro ⟨hmetadata, hframes, hconnections⟩
    have hbounded := h.bounded_iff.2 ⟨hmetadata, hframes⟩
    obtain ⟨hseen, hcount⟩ := h.counted
    refine ⟨⟨(finalState J content).metrics, ?_, hcount⟩, (hstreams hbounded).2 hconnections⟩
    rw [readCapture_of_seen hbounded hseen]

/-- The reader admits a recording exactly if what was recorded is within its limits. -/
theorem readsBack_iff_withinLimits (hJ : J.Lawful)
    (hwrites : ∀ w ∈ writesOf (captureLive J options script).log, w.written.error = none)
    (hreturned : (captureLive J options script).outcome = some (.ok result))
    (hpublished : (captureLive J options script).destination = some content) :
    ReadsBack J path content result ↔
      WithinLimits J options (captureLive J options script) := by
  obtain ⟨metadata, hpublication⟩ := exists_published hJ hwrites hreturned hpublished
  exact hpublication.readsBack_iff

end Runs

section Fixture

def fixtureScriptOf (received : List Received) : Script where
  attempts := [fixtureAttempt received]

def fixtureStart : Progress where
  now := 0
  file := compact (metadataRecord fixtureOptions : Json JsonLibrary.reference.Double) ++ [newline]
  connectionId := 1

def fixtureConnection (message : Bytes) (received : List Received) : Connection :=
  receiveLoop .reference (temporary fixtureOptions.output) (deadline 0 30) fixtureStart message
    (fixtureAttempt received).receives

theorem running_fixtureStart : fixtureStart.running (deadline 0 30) = true := by decide

theorem pass_default (s : Progress) : s.pass {} = s := by simp [Progress.pass]

theorem captureLive_fixtureOptions (received : List Received) :
    captureLive .reference fixtureOptions (fixtureScriptOf received) =
      captureFrom .reference fixtureOptions (fixtureScriptOf received) fixtureStart.file := by
  have hdump := JsonLibrary.reference_lawful.dump (metadataRecord fixtureOptions)
    (by decide +kernel)
  have hnone := @writeLine_of_succeeds (temporary fixtureOptions.output)
    (compact (metadataRecord fixtureOptions : Json JsonLibrary.reference.Double)) []
    (by simp [Succeeds])
  have haccepted := (writeLine_spec _ _).2.1 hnone
  have hrequired : (fixtureOptions.output.isEmpty || fixtureOptions.productIds.isEmpty ||
      fixtureOptions.durationSeconds ≤ 0) = false := by decide +kernel
  have hproducts : (fixtureOptions.productIds.any fun product =>
      product.isEmpty || product.length > 20) = false := by decide +kernel
  have hfile : namesFile fixtureOptions.output = true := by decide +kernel
  unfold captureLive
  simp only [hrequired, hproducts, hfile, hdump, Bool.false_eq_true, if_false, Bool.not_true,
    fixtureScriptOf, hnone, haccepted, fixtureStart]

theorem captureLive_stopped {received : List Received} {connection : Connection}
    (h : fixtureConnection [] received = connection) (hexit : connection.exit = .stopped)
    (hstop : connection.state.stop = true) :
    let run := captureLive .reference fixtureOptions (fixtureScriptOf received)
    writesOf run.log = connection.writes ∧
      ∃ result content, run.outcome = some (.ok result) ∧ run.destination = some content := by
  have hloop : captureLoop .reference (temporary fixtureOptions.output) (deadline 0 30)
      { now := 0, file := fixtureStart.file } [fixtureAttempt received] =
        { state := connection.state
          exit := .done
          log := [logOf (deadline 0 30) fixtureStart (fixtureAttempt received) connection] } := by
    have hrunning : ({ now := 0, file := fixtureStart.file } : Progress).running
        (deadline 0 30) = true := by decide
    have hsignal : (fixtureAttempt received).signal = {} := rfl
    have hfirst : (0 : UInt64) + 1 = 1 := rfl
    have hconnect : connect .reference (temporary fixtureOptions.output) (deadline 0 30)
        { now := 0, file := fixtureStart.file, connectionId := 1 } (fixtureAttempt received) =
          connection := h
    rw [captureLoop]
    simp only [hsignal, pass_default, hrunning, Bool.not_true, Bool.false_eq_true, if_false,
      hfirst, hconnect, hexit]
    rfl
  have hdeadline : deadline 0 fixtureOptions.durationSeconds = deadline 0 30 := rfl
  have hattempts : (fixtureScriptOf received).attempts = [fixtureAttempt received] := rfl
  have hfinal : (fixtureScriptOf received).final = {} := rfl
  have hcommit : commit fixtureOptions.output (fixtureScriptOf received).commit = (true, none) := by
    rfl
  have hstart : (fixtureScriptOf received).startNs = 0 := rfl
  rw [captureLive_fixtureOptions, captureFrom]
  simp only [hdeadline, hattempts, hstart, hloop, finish, hfinal, pass_default, hstop, hcommit,
    Bool.not_true, Bool.and_false, Bool.false_eq_true, if_false]
  exact ⟨by simp [writesOf, logOf], _, _, rfl, rfl⟩

def fixtureFragment {size : Nat} (hsize : size ≤ bufferSize) (cont : Bool) : Received :=
  .chunk ⟨{ text := true, cont := cont }, 0, List.replicate size 1, by simpa using hsize⟩

def fixtureFragments {size : Nat} (hsize : size ≤ bufferSize) (n : Nat) : List Received :=
  List.replicate n (fixtureFragment hsize true) ++ [fixtureFragment hsize false, fixtureStop]

theorem utf8_replicate (n : Nat) : utf8 (List.replicate n 1) = true := by
  induction n with
  | zero => rfl
  | succ n ih => rw [List.replicate_succ, utf8.eq_def]; simp [ih]

theorem length_escape_replicate (n : Nat) : (escape (List.replicate n 1)).length = 6 * n := by
  have hbyte : (escapeByte 1).length = 6 := by decide
  induction n with
  | zero => rfl
  | succ n ih =>
    rw [escape] at ih ⊢
    rw [List.replicate_succ, List.flatMap_cons, List.length_append, ih, hbyte]
    omega

section Connection

variable {path : String} {deadline : Int} {s : Progress} {size k : Nat}

theorem assemble_fixtureFragment {hsize : size ≤ bufferSize} {cont : Bool} {chunk : Chunk}
    (hchunk : fixtureFragment hsize cont = .chunk chunk) (hk : k + size ≤ maximumMessageSize) :
    assemble (List.replicate k 1) chunk = .ok (List.replicate (k + size) 1, !cont) := by
  cases hchunk
  have hmessage : (List.replicate k (1 : UInt8)).length ≤ maximumMessageSize := by
    rw [List.length_replicate]
    omega
  have hfits : ¬ exceedsLimit size (List.replicate k 1) = true := by
    rw [exceedsLimit_iff hmessage hsize, List.length_replicate]
    omega
  rw [assemble]
  simp only [Bool.or_false, Bool.false_eq_true, if_false, Bool.not_true, List.length_replicate,
    hfits, List.replicate_append_replicate]
  rfl

theorem receiveLoop_stop (hs : s.running deadline = true) (message : Bytes) :
    let connection := receiveLoop J path deadline s message (fixtureAttempt [fixtureStop]).receives
    connection.exit = .stopped ∧ connection.state.stop = true ∧ connection.writes = [] := by
  have hreceives : (fixtureAttempt [fixtureStop]).receives = [{ received := fixtureStop }] := rfl
  dsimp only
  rw [hreceives, receiveLoop]
  simp only [pass_default, hs, Bool.not_true, Bool.false_eq_true, if_false]
  simp [receive, fixtureStop, Progress.waitSocket, Progress.pass]

theorem running_writeFrame (message : Bytes) (wallTimeNs : UInt64) (results : List WriteResult) :
    (writeFrame J path s message wallTimeNs results).state.running deadline =
      s.running deadline := by
  unfold writeFrame
  split
  · rfl
  · dsimp only
    split <;> rfl

theorem receive_fixtureFragment (hsize : size ≤ bufferSize) (hk : k + size ≤ maximumMessageSize)
    (cont : Bool) :
    receive J path s (List.replicate k 1) { received := fixtureFragment hsize cont } =
      if cont then { state := s, next := .ok (List.replicate (k + size) 1) }
      else writeFrame J path s (List.replicate (k + size) 1) 0 [] := by
  obtain ⟨chunk, hchunk⟩ : ∃ chunk, fixtureFragment hsize cont = .chunk chunk := ⟨_, rfl⟩
  have hassemble := assemble_fixtureFragment hchunk hk
  rw [hchunk, receive]
  simp only [hassemble]
  cases cont <;> rfl

theorem receiveLoop_fixtureFragments (hs : s.running deadline = true) (hsize : size ≤ bufferSize)
    (n : Nat) (hfits : k + (n + 1) * size ≤ maximumMessageSize) :
    let connection := receiveLoop .reference path deadline s (List.replicate k 1)
      (fixtureAttempt (fixtureFragments hsize n)).receives
    connection.exit = .stopped ∧ connection.state.stop = true ∧
      connection.writes.map (·.payload) = [List.replicate (k + (n + 1) * size) 1] := by
  dsimp only
  induction n generalizing k with
  | zero =>
    rw [Nat.zero_add, Nat.one_mul] at hfits ⊢
    have hreceives : (fixtureAttempt (fixtureFragments hsize 0)).receives =
        { received := fixtureFragment hsize false } :: (fixtureAttempt [fixtureStop]).receives := rfl
    have hsucceeds : Succeeds [] := by simp [Succeeds]
    have hwritten := @receive_succeeds .reference path s (List.replicate k 1)
      { received := fixtureFragment hsize false } hsucceeds
    have hlast := @receive_fixtureFragment .reference path s size k hsize hfits false
    rw [if_neg Bool.false_ne_true] at hlast
    rw [hlast] at hwritten
    obtain ⟨hnext, hpayload⟩ := writeFrame_spec JsonLibrary.reference_lawful (utf8_replicate _)
      hwritten
    have hrunning : (writeFrame .reference path s (List.replicate (k + size) 1) 0
        []).state.running deadline = true := by rw [running_writeFrame, hs]
    obtain ⟨hexit, hstop, hnone⟩ := @receiveLoop_stop .reference path deadline _ hrunning []
    rw [hreceives, receiveLoop]
    simp only [pass_default, hs, Bool.not_true, Bool.false_eq_true, if_false, hlast, hnext, hexit,
      hstop, hnone, List.append_nil, hpayload, and_self]
  | succ n ih =>
    have hreceives : (fixtureAttempt (fixtureFragments hsize (n + 1))).receives =
        { received := fixtureFragment hsize true } ::
          (fixtureAttempt (fixtureFragments hsize n)).receives := rfl
    have htotal : k + size + (n + 1) * size = k + (n + 1 + 1) * size := by
      rw [Nat.add_assoc, Nat.succ_mul (n + 1), Nat.add_comm size]
    have hk : k + size ≤ maximumMessageSize := by omega
    have hfirst := @receive_fixtureFragment .reference path s size k hsize hk true
    rw [if_pos rfl] at hfirst
    obtain ⟨hexit, hstop, hpayload⟩ := @ih (k + size) (htotal ▸ hfits)
    rw [htotal] at hpayload
    rw [hreceives, receiveLoop]
    simp only [pass_default, hs, Bool.not_true, Bool.false_eq_true, if_false, hfirst,
      List.nil_append, hexit, hstop, hpayload, and_self]

end Connection

theorem captureLive_fixtureFragments {size : Nat} (hsize : size ≤ bufferSize) (n : Nat)
    (hfits : (n + 1) * size ≤ maximumMessageSize) :
    let run := captureLive .reference fixtureOptions (fixtureScriptOf (fixtureFragments hsize n))
    (∀ w ∈ writesOf run.log, w.written.error = none) ∧
      (writesOf run.log).map (·.payload) = [List.replicate ((n + 1) * size) 1] ∧
      ∃ result content, run.outcome = some (.ok result) ∧ run.destination = some content := by
  obtain ⟨hexit, hstop, hpayload⟩ := @receiveLoop_fixtureFragments
    (temporary fixtureOptions.output) (deadline 0 30) fixtureStart size 0 running_fixtureStart hsize
    n (by simpa using hfits)
  obtain ⟨hwrites, hreturned⟩ := captureLive_stopped rfl hexit hstop
  refine ⟨captureLive_succeeds ?_, ?_, hreturned⟩
  · simp [fixtureScriptOf, fixtureAttempt, Succeeds]
  · rw [hwrites, fixtureConnection, ← Nat.zero_add ((n + 1) * size)]
    exact hpayload

theorem readsBack_iff_withinLimits_short :
    let run := captureLive .reference fixtureOptions
      (fixtureScriptOf (fixtureFragments (by decide : 1 ≤ bufferSize) 0))
    ∃ result content, run.outcome = some (.ok result) ∧ run.destination = some content ∧
      (ReadsBack .reference fixtureOptions.output content result ↔
        WithinLimits .reference fixtureOptions run) := by
  obtain ⟨hwrites, -, result, content, hreturned, hpublished⟩ :=
    captureLive_fixtureFragments (by decide : 1 ≤ bufferSize) 0 (by decide)
  exact ⟨result, content, hreturned, hpublished,
    readsBack_iff_withinLimits JsonLibrary.reference_lawful hwrites hreturned hpublished⟩

/-- A message of 22 fragments, each of 64 KiB of control characters, is below the limit of the
recorder, and its record is above that of the reader. -/
theorem large_record_not_read_back :
    let run := captureLive .reference fixtureOptions
      (fixtureScriptOf (fixtureFragments (Nat.le_refl bufferSize) 21))
    (∀ w ∈ writesOf run.log, w.written.error = none) ∧
      ∃ result content, run.outcome = some (.ok result) ∧ run.destination = some content ∧
        (∀ w ∈ writesOf run.log, utf8 w.payload = true ∧ w.payload.length ≤ maximumMessageSize) ∧
        (∀ metrics, (readCapture .reference fixtureOptions.output (some content)).outcome ≠
          .ok metrics) ∧
        ¬ ReadsBack .reference fixtureOptions.output content result := by
  have hlimit : (21 + 1) * bufferSize ≤ maximumMessageSize := by decide
  obtain ⟨hwrites, hpayloads, result, content, hreturned, hpublished⟩ :=
    captureLive_fixtureFragments (Nat.le_refl bufferSize) 21 hlimit
  obtain ⟨w, hw, hpayload⟩ := List.map_eq_singleton_iff.1 hpayloads
  obtain ⟨metadata, hpublication⟩ := exists_published JsonLibrary.reference_lawful hwrites
    hreturned hpublished
  have hthrows : ∀ metrics, (readCapture .reference fixtureOptions.output (some content)).outcome ≠
      .ok metrics := by
    intro metrics hok
    have hbounded := ((readCapture_eq_ok_iff rfl).1 hok).1
    have hfits := (hpublication.bounded_iff.1 hbounded).2 w (by rw [hw]; simp)
    have hlong : maximumRecordSize < 6 * ((21 + 1) * bufferSize) := by decide
    rw [frameSize, hpayload, length_escape_replicate] at hfits
    omega
  refine ⟨hwrites, result, content, hreturned, hpublished, ?_, hthrows, fun hreads => ?_⟩
  · rw [hw, List.forall_mem_singleton, hpayload]
    exact ⟨utf8_replicate _, by rw [List.length_replicate]; exact hlimit⟩
  · obtain ⟨metrics, hok, -⟩ := hreads.reads
    exact hthrows metrics hok

end Fixture

end BengalMarket.Capture
