import BengalMarket.Capture.Readback
import BengalMarket.Cli.CaptureExit

universe u v

namespace BengalMarket.Cli

open JsonText
open Capture (CaptureOptions CaptureResult Run Script writesOf frameSize metadataRecord)
open Reader (readCapture)

section Requests

variable (J : JsonLibrary) (request : CaptureRequest) (path : String) (script : Script)

def CaptureRequest.options : CaptureOptions where
  output := path
  productIds := request.productIds
  durationSeconds := request.duration
  endpoint := request.endpoint

def CaptureRequest.capture : Run := Capture.captureLive J (request.options path) script

/-- All that was written has been published, and is what the output path names. -/
structure Records (files : Bytes → Option Bytes) (content : Bytes) (result : CaptureResult) :
    Prop where
  returned : (request.capture J path script).outcome = some (.ok result)
  published : (request.capture J path script).destination = some content
  written : ∀ w ∈ writesOf (request.capture J path script).log, w.written.error = none
  stored : files request.output = some content

/-- No record is longer than a line that the reader takes. -/
structure Fits : Prop where
  metadata : (compact (metadataRecord (request.options path) : J.Value)).length ≤ maximumRecordSize
  frames : ∀ w ∈ writesOf (request.capture J path script).log,
    frameSize w.receivedNs w.connectionId w.payload ≤ maximumRecordSize

variable {J request path script} {files : Bytes → Option Bytes} {content : Bytes}
  {result : CaptureResult}

theorem Records.read (hJ : J.Lawful) (h : Records J request path script files content result) :
    (Fits J request path script → ∃ metrics, metrics.frames = result.frames ∧
        (readCapture J "" (files request.output)).outcome = .ok metrics) ∧
      (¬ Fits J request path script →
        ∀ metrics, (readCapture J "" (files request.output)).outcome ≠ .ok metrics) := by
  obtain ⟨metadata, hpublication⟩ :=
    Capture.exists_published hJ h.written h.returned h.published
  obtain ⟨hseen, hcount⟩ := hpublication.counted
  rw [h.stored]
  constructor
  · intro hfits
    have hbounded := hpublication.bounded_iff.2 ⟨hfits.metadata, hfits.frames⟩
    refine ⟨(Reader.finalState J content).metrics, hcount, ?_⟩
    rw [Reader.readCapture_of_seen hbounded hseen]
  · intro hunfit metrics hok
    have hbounded := ((Reader.readCapture_eq_ok_iff rfl).1 hok).1
    obtain ⟨hmetadata, hframes⟩ := hpublication.bounded_iff.1 hbounded
    exact hunfit ⟨hmetadata, hframes⟩

end Requests

section Sessions

variable {J : JsonLibrary} {dumpIndented : Nat → J.Value → Except String Bytes}
  {bengalVersion version : String} {operations : Operations} {order : Values → Values}
  {live : CaptureRequest → Except Bytes (CaptureResult × UInt64)}
  {output product endpoint content : Bytes} {duration : UInt64} {D : Type u} {kills : D → Bool}
  {zeroed : StopSignal → Disposition D} {before : StopSignal → D} {actions : List ScopeAction}
  {s : SignalScope D} {result : CaptureResult} {signal : UInt64} {path : String}
  {script : Script} {queues : Engine → BoundedFifo.{0, v} Trade queueCapacity}
  {files : Bytes → Option Bytes} {left : Bytes → Engine → Nat}

/-- What `capture` has recorded, whatever signals arrive, is counted by `replay` and `compare` just
as it says, if no record is longer than a line of the reader; otherwise both report an exception. -/
theorem recorded_session (hJ : J.Lawful) (hindents : J.Indents dumpIndented)
    (horder : ∀ v, (order v).Perm v) (hversion : utf8 (ascii bengalVersion) = true)
    (houtput : output ≠ [])
    (hrun : (SignalScope.start zeroed before).run kills actions = some s)
    (hleft : s.stage = .left (some (result, signal)))
    (hlive : operations.captureLive = some live)
    (hanswer : live (captureRequest output product endpoint duration) = .ok (result, signal))
    (hrecords : Records J (captureRequest output product endpoint duration) path script files
      content result)
    (hreplays : Replays J queues files left operations)
    (hlength : (readCapture J "" (files output)).delivered.length < 2 ^ 64) :
    (∃ text, main dumpIndented bengalVersion version operations order
          (captureWords output product endpoint duration) =
        { calls := [.capture (captureRequest output product endpoint duration)]
          standardOutput := text ++ [0x0A]
          code := if signal = 0 then 0 else 128 + signal } ∧
      J.parse text = some (captureRead result signal)) ∧
    (Fits J (captureRequest output product endpoint duration) path script →
      ∃ metrics : ParseMetrics, metrics.frames = result.frames ∧
        (∀ engine, ∃ report text, report.input = metrics ∧
          main dumpIndented bengalVersion version operations order (replayWords output engine) =
            { calls := [.replay output engine], standardOutput := text
              code := if metrics.parseErrors = 0 then 0 else 1 } ∧
          J.parse text = some (reportRead bengalVersion report)) ∧
        ∃ bengal standard text, bengal.input = metrics ∧ standard.input = metrics ∧
          main dumpIndented bengalVersion version operations order (compareWords output) =
            { calls := [.replay output .bengal, .replay output .standard], standardOutput := text
              code := if metrics.parseErrors = 0 ∧ left output .bengal = left output .standard
                then 0 else 1 } ∧
          J.parse text = some (comparisonRead bengalVersion bengal standard)) ∧
    (¬ Fits J (captureRequest output product endpoint duration) path script →
      (∀ engine, ∃ what,
        main dumpIndented bengalVersion version operations order (replayWords output engine) =
          thrown [.replay output engine] what) ∧
      ∃ what, main dumpIndented bengalVersion version operations order (compareWords output) =
        thrown [.replay output .bengal] what) := by
  obtain ⟨-, -, hknown, hinterrupted⟩ := signal_of_left hrun hleft
  obtain ⟨hfit, hunfit⟩ := hrecords.read hJ
  refine ⟨capture_exit hJ horder houtput hknown hinterrupted hlive hanswer, fun hfits => ?_,
    fun hnot => unread_session version horder houtput hreplays (hunfit hnot)⟩
  obtain ⟨metrics, hframes, hread⟩ := hfit hfits
  have hinput {n : Nat} {report : ReplayReport} (h : ReportsOn J (files output) n report) :
      report.input = metrics := Except.ok.inj (h.read.symm.trans hread)
  obtain ⟨hreplay, bengal, standard, text, hon, hon', hcompare, hparse⟩ :=
    read_session version hindents horder hversion houtput hreplays hlength hread
  refine ⟨metrics, hframes, fun engine => ?_, bengal, standard, text, hinput hon, hinput hon',
    hcompare, hparse⟩
  obtain ⟨report, text, hon, -, hexit, hparse⟩ := hreplay engine
  exact ⟨report, text, hinput hon, hexit, hparse⟩

end Sessions

section Fixture

open Capture (fixtureScriptOf fixtureAttempt fixtureStop Received FrameRead FrameWrite Succeeds)

theorem lineHandedOver_fixture {J : JsonLibrary} {w : FrameWrite} {product : Bytes}
    {index : UInt64} (h : FrameRead J w) (hlength : product.length ≤ 20)
    (hparse : J.parse w.payload = some (Fixture.payload index product)) (s : ReaderState)
    (hs : s.metadataSeen = true) :
    Reader.lineHandedOver J s.tracker w.line = [] ∨
      Reader.lineHandedOver J s.tracker w.line = [Fixture.trade hlength index] := by
  rcases Reader.lineHandedOver_cases s hs w.line with ⟨hnil, -⟩ | ⟨envelope, hreaches, hover⟩
  · exact .inl hnil
  · obtain ⟨connectionId, payload, channel, sequence⟩ := envelope
    obtain ⟨record, hrecord, -, henvelope, -⟩ := hreaches.record
    obtain ⟨text, htext, hpayload⟩ := henvelope.payload
    cases h.record.symm.trans hrecord
    cases htext
    cases hparse.symm.trans hpayload
    obtain rfl : ascii "market_trades" = channel := Option.some.inj henvelope.channel
    have hvisits := (@Reader.readPayload_spec J
      ⟨connectionId, Fixture.payload index product, ascii "market_trades", sequence⟩).1
    rw [@Fixture.readPayload_payload product J hlength] at hvisits
    exact .inr (hover.trans hvisits.symm)

theorem length_delivered_le {J : JsonLibrary} {product : Bytes} (hlength : product.length ≤ 20) :
    ∀ (writes : List FrameWrite) (s : ReaderState),
      (∀ w ∈ writes, FrameRead J w ∧
        ∃ index, J.parse w.payload = some (Fixture.payload index product)) →
      ((writes.map (·.line)).foldl (Reader.step J) s).delivered.length ≤
        s.delivered.length + writes.length := by
  intro writes
  induction writes with
  | nil => exact fun _ _ => Nat.le_refl _
  | cons w writes ih =>
    intro s h
    rw [List.forall_mem_cons] at h
    obtain ⟨⟨hread, index, hparse⟩, hrest⟩ := h
    have hline : (Reader.step J s w.line).delivered.length ≤ s.delivered.length + 1 := by
      cases hs : s.metadataSeen with
      | false => simp [Reader.delivered_of_unseen hs]
      | true =>
        rw [Reader.delivered_of_seen hs, List.length_append]
        rcases lineHandedOver_fixture hread hlength hparse s hs with hnil | htrade
        · simp [hnil]
        · simp [htrade]
    have htail := ih (Reader.step J s w.line) hrest
    rw [List.map_cons, List.foldl_cons, List.length_cons]
    omega

def fixtureRequest : CaptureRequest := captureRequest (ascii "capture.jsonl") (ascii "BTC-USD")
  (ascii "wss://advanced-trade-ws.coinbase.com") 30

def fixtureTrade (index : UInt64) : Received := .chunk
  ⟨{ text := true }, 0, Fixture.text .reference (ascii "BTC-USD") index,
    Nat.le_trans (Fixture.length_compact_payload_le (by decide) index) (by decide)⟩

def fixtureScript : Script := fixtureScriptOf [fixtureTrade 0, fixtureTrade 1, fixtureStop]

/-- One interrupt, after which the result is taken with its signal. -/
theorem exists_scope (frames reconnects : UInt64) : ∃ actions, ∃ s : SignalScope Unit,
    (SignalScope.start (fun _ => .previous ()) fun _ => ()).run (fun _ => true) actions = some s ∧
      s.stage = .left (some (⟨frames, reconnects, true⟩, 2)) :=
  ⟨[.proceed true, .proceed true, .proceed true, .deliver .interrupt, .handle .interrupt,
    .handle .interrupt, .poll, .finish frames reconnects, .proceed true, .proceed true,
    .proceed true, .proceed true], _, rfl, rfl⟩

theorem capture_fixtureScript :
    let run := fixtureRequest.capture .reference "capture.jsonl" fixtureScript
    run.outcome = some (.ok ⟨2, 0, true⟩) ∧ run.destination.isSome = true ∧
      (∀ w ∈ writesOf run.log, w.written.error = none) ∧
      (writesOf run.log).map (·.payload) =
        [0, 1].map (Fixture.text .reference (ascii "BTC-USD")) := by
  refine ⟨by decide +kernel, by decide +kernel, ?_, by decide +kernel⟩
  exact Capture.captureLive_succeeds
    (by simp [fixtureScript, fixtureScriptOf, fixtureAttempt, Succeeds])

theorem exists_records : ∃ content,
    Records .reference fixtureRequest "capture.jsonl" fixtureScript (fun _ => some content) content
      ⟨2, 0, true⟩ ∧
    Fits .reference fixtureRequest "capture.jsonl" fixtureScript ∧
    (readCapture .reference "" (some content)).delivered.length ≤ 2 := by
  obtain ⟨hreturned, hpublished, hwrites, hpayloads⟩ := capture_fixtureScript
  obtain ⟨content, hcontent⟩ := Option.isSome_iff_exists.1 hpublished
  obtain ⟨metadata, hpublication⟩ := Capture.exists_published JsonLibrary.reference_lawful hwrites
    hreturned hcontent
  have hmessage : ∀ w ∈ writesOf (fixtureRequest.capture .reference "capture.jsonl"
      fixtureScript).log, ∃ index, w.payload = Fixture.text .reference (ascii "BTC-USD") index := by
    intro w hw
    have hmem := List.mem_map_of_mem (f := fun w : FrameWrite => w.payload) hw
    obtain ⟨index, -, htext⟩ := List.mem_map.1 (hpayloads ▸ hmem)
    exact ⟨index, htext.symm⟩
  have hfits : Fits .reference fixtureRequest "capture.jsonl" fixtureScript := by
    refine ⟨by decide +kernel, fun w hw => ?_⟩
    obtain ⟨index, hpayload⟩ := hmessage w hw
    have hlength : w.payload.length ≤ 1500 :=
      hpayload ▸ Fixture.length_compact_payload_le (by decide) index
    have hlimit : maximumRecordSize = 8388608 := rfl
    have hsize := Capture.frameSize_le w.receivedNs w.connectionId w.payload
    omega
  have hreads : ∀ w ∈ writesOf (fixtureRequest.capture .reference "capture.jsonl"
      fixtureScript).log, FrameRead .reference w ∧ ∃ index, JsonLibrary.reference.parse w.payload =
        some (Fixture.payload index (ascii "BTC-USD")) := by
    intro w hw
    obtain ⟨index, hpayload⟩ := hmessage w hw
    refine ⟨hpublication.frames w hw, index, ?_⟩
    rw [hpayload]
    exact JsonLibrary.reference_lawful.parse _ (Fixture.plain_payload index (by decide +kernel))
  have hlength : (writesOf (Capture.captureLive .reference (fixtureRequest.options "capture.jsonl")
      fixtureScript).log).length = 2 := by
    have hcount := congrArg List.length hpayloads
    rw [List.length_map] at hcount
    exact hcount
  refine ⟨content, ⟨hreturned, hcontent, hwrites, rfl⟩, hfits, ?_⟩
  have hbounded := hpublication.bounded_iff.2 ⟨hfits.metadata, hfits.frames⟩
  rw [Reader.readCapture_of_seen hbounded hpublication.counted.1]
  change (Reader.finalState .reference content).delivered.length ≤ 2
  rw [Reader.finalState, hpublication.pieces_eq, List.foldl_cons]
  refine Nat.le_trans (length_delivered_le (by decide) _ _ hreads) ?_
  rw [Reader.delivered_of_unseen rfl, hlength]
  exact Nat.le_refl 2

/-- The executable when a capture is interrupted after two frames. -/
def runRecording (replay : Bytes → Engine → Except Bytes ReplayReport) : List Bytes → Exit :=
  @main .reference JsonLibrary.referenceIndented "1.0.0" "0.2.0"
    { failing with replay := replay, captureLive := some fun _ => .ok (⟨2, 0, true⟩, 2) } id

theorem recorded_session_fixture :
    ∃ replay captured, ∃ metrics : ParseMetrics, ∃ bengal standard text,
      runRecording replay (captureWords (ascii "capture.jsonl") (ascii "BTC-USD")
          (ascii "wss://advanced-trade-ws.coinbase.com") 30) =
        { calls := [.capture fixtureRequest], standardOutput := captured ++ [0x0A], code := 130 } ∧
      JsonLibrary.reference.parse captured = some (captureRead ⟨2, 0, true⟩ 2) ∧
      metrics.frames = 2 ∧
      runRecording replay (compareWords (ascii "capture.jsonl")) =
        { calls := [.replay (ascii "capture.jsonl") .bengal,
            .replay (ascii "capture.jsonl") .standard]
          standardOutput := text
          code := if metrics.parseErrors = 0 then 0 else 1 } ∧
      JsonLibrary.reference.parse text = some (comparisonRead "1.0.0" bengal standard) := by
  obtain ⟨content, hrecords, hfits, hdelivered⟩ := exists_records
  obtain ⟨actions, s, hrun, hleft⟩ := exists_scope 2 0
  obtain ⟨replay, hreplays⟩ := exists_replays .reference queuesOf (fun _ => some content)
    { failing with captureLive := some fun _ => .ok (⟨2, 0, true⟩, 2) }
  have hshort : (readCapture .reference "" (some content)).delivered.length < 2 ^ 64 :=
    Nat.lt_of_le_of_lt hdelivered (by decide)
  have hsession := @recorded_session .reference JsonLibrary.referenceIndented "1.0.0" "0.2.0"
    { failing with replay := replay, captureLive := some fun _ => .ok (⟨2, 0, true⟩, 2) } id
    (fun _ => .ok (⟨2, 0, true⟩, 2)) (ascii "capture.jsonl") (ascii "BTC-USD")
    (ascii "wss://advanced-trade-ws.coinbase.com") content 30 Unit (fun _ => true)
    (fun _ => .previous ()) (fun _ => ()) actions s ⟨2, 0, true⟩ 2 "capture.jsonl" fixtureScript
    queuesOf (fun _ => some content) (fun _ _ => 0) JsonLibrary.reference_lawful
    JsonLibrary.reference_indents (fun _ => .refl _) (by decide) (by decide) hrun hleft rfl rfl
    hrecords hreplays hshort
  obtain ⟨⟨captured, hcapture, hcaptured⟩, hfitting, -⟩ := hsession
  obtain ⟨metrics, hframes, -, bengal, standard, text, -, -, hcompare, hparse⟩ := hfitting hfits
  simp only [and_true] at hcompare
  exact ⟨replay, captured, metrics, bengal, standard, text, hcapture, hcaptured, hframes, hcompare,
    hparse⟩

end Fixture

end BengalMarket.Cli
