import BengalMarket.Library.JsonLayout
import BengalMarket.Model

namespace BengalMarket

open JsonText

variable {Double : Type}

section Values

def inputValue (input : ParseMetrics) : Json Double := .object [
  (ascii "frames", .unsigned input.frames),
  (ascii "out_of_order", .unsigned input.outOfOrder),
  (ascii "parse_errors", .unsigned input.parseErrors),
  (ascii "sequence_gaps", .unsigned input.sequenceGaps)]

def latencyValue (latency : LatencySummary) : Json Double := .object [
  (ascii "max", .unsigned latency.maximumNs),
  (ascii "min", .unsigned latency.minimumNs),
  (ascii "p50", .unsigned latency.p50Ns),
  (ascii "p95", .unsigned latency.p95Ns),
  (ascii "p99", .unsigned latency.p99Ns),
  (ascii "samples", .unsigned latency.samples)]

def pipelineValue (report : ReplayReport) : Json Double := .object [
  (ascii "backpressure", .unsigned report.backpressure),
  (ascii "checksum", .unsigned report.checksum),
  (ascii "dropped", .unsigned report.dropped),
  (ascii "elapsed_ns", .unsigned report.elapsedNs),
  (ascii "events", .unsigned report.events),
  (ascii "latency_ns", latencyValue report.stageLatency)]

variable (bengalVersion : String) (report : ReplayReport)

/-- `bengal::version` is a constant of another library. -/
def reportValue : Json Double := .object [
  (ascii "bengal_version", .string (ascii bengalVersion)),
  (ascii "engine", .string (ascii report.engine)),
  (ascii "input", inputValue report.input),
  (ascii "pipeline", pipelineValue report),
  (ascii "schema_version", .integer 1)]

def reportRead : Json Double := .object [
  (ascii "bengal_version", .string (ascii bengalVersion)),
  (ascii "engine", .string (ascii report.engine)),
  (ascii "input", inputValue report.input),
  (ascii "pipeline", pipelineValue report),
  (ascii "schema_version", .unsigned 1)]

theorem indented_reportValue (step : Nat) :
    indented step (reportValue bengalVersion report : Json Double) =
      indented step (reportRead bengalVersion report : Json Double) := rfl

end Values

section Text

variable {J : JsonLibrary} (dumpIndented : Nat → J.Value → Except String Bytes)
  (bengalVersion : String)

def reportJson (report : ReplayReport) : Except String Bytes :=
  dumpIndented 2 (reportValue bengalVersion report)

def replayOutput (report : ReplayReport) : Except String Bytes := do
  let text ← reportJson dumpIndented bengalVersion report
  return text ++ [0x0A]

end Text

section Plain

variable {checked parsed : Bool}

def inputKeys : List String := ["frames", "out_of_order", "parse_errors", "sequence_gaps"]

def latencyKeys : List String := ["max", "min", "p50", "p95", "p99", "samples"]

def pipelineKeys : List String :=
  ["backpressure", "checksum", "dropped", "elapsed_ns", "events", "latency_ns"]

def topKeys : List String := ["bengal_version", "engine", "input", "pipeline", "schema_version"]

def reportKeys : List (List String) := [inputKeys, latencyKeys, pipelineKeys, topKeys]

theorem reportKeys_spec : ∀ words ∈ reportKeys, (words.map ascii).Pairwise (· < ·) ∧
    ∀ key ∈ words.map ascii, utf8 key = true := by
  decide +kernel

theorem plain_report_object {members : List (Bytes × Json Double)} (words : List String)
    (hwords : words ∈ reportKeys) (hkeys : members.map Prod.fst = words.map ascii) :
    plain checked parsed (.object members) = true ↔
      ∀ member ∈ members, plain checked parsed member.2 = true :=
  plain_object_iff (reportKeys_spec words hwords) hkeys

theorem plain_inputValue (input : ParseMetrics) :
    plain checked parsed (inputValue input : Json Double) = true := by
  rw [inputValue, plain_report_object inputKeys (by simp [reportKeys]) rfl]
  simp [plain]

theorem plain_latencyValue (latency : LatencySummary) :
    plain checked parsed (latencyValue latency : Json Double) = true := by
  rw [latencyValue, plain_report_object latencyKeys (by simp [reportKeys]) rfl]
  simp [plain]

theorem plain_pipelineValue (report : ReplayReport) :
    plain checked parsed (pipelineValue report : Json Double) = true := by
  rw [pipelineValue, plain_report_object pipelineKeys (by simp [reportKeys]) rfl]
  simp [plain, plain_latencyValue]

variable (bengalVersion : String) (report : ReplayReport)

def ReportTexts : Prop := utf8 (ascii bengalVersion) = true ∧ utf8 (ascii report.engine) = true

instance : Decidable (ReportTexts bengalVersion report) := inferInstanceAs (Decidable (_ ∧ _))

theorem doubleFree_reportValue :
    doubleFree (reportValue bengalVersion report : Json Double) = true := by
  rw [doubleFree, reportValue, plain_report_object topKeys (by simp [reportKeys]) rfl]
  simp [plain, plain_inputValue, plain_pipelineValue]

theorem printable_reportValue_iff :
    printable (reportValue bengalVersion report : Json Double) = true ↔
      ReportTexts bengalVersion report := by
  rw [printable, reportValue, plain_report_object topKeys (by simp [reportKeys]) rfl]
  simp [plain, plain_inputValue, plain_pipelineValue, ReportTexts]

theorem canonical_reportRead (h : ReportTexts bengalVersion report) :
    canonical (reportRead bengalVersion report : Json Double) = true := by
  rw [canonical, reportRead, plain_report_object topKeys (by simp [reportKeys]) rfl]
  simp [plain, plain_inputValue, plain_pipelineValue, h.1, h.2]

end Plain

section RoundTrip

variable {J : JsonLibrary} {dumpIndented : Nat → J.Value → Except String Bytes}
  {bengalVersion : String} {report : ReplayReport}

theorem replayOutput_eq_ok_iff (hJ : J.Indents dumpIndented) {output : Bytes} :
    replayOutput dumpIndented bengalVersion report = .ok output ↔
      ReportTexts bengalVersion report ∧
        output = indented 2 (reportRead bengalVersion report : J.Value) ++ [0x0A] := by
  have hprintable := @printable_reportValue_iff J.Double bengalVersion report
  by_cases htexts : ReportTexts bengalVersion report
  · rw [replayOutput, reportJson, hJ.dump 2 _ (hprintable.2 htexts), indented_reportValue]
    simp [htexts, bind, Except.bind, pure, Except.pure, eq_comm]
  · obtain ⟨what, hwhat⟩ := hJ.refuse 2 _ (doubleFree_reportValue bengalVersion report)
      (Bool.eq_false_iff.2 (mt hprintable.1 htexts))
    rw [replayOutput, reportJson, hwhat]
    simp [htexts, bind, Except.bind]

theorem parse_replayOutput (hJ : J.Indents dumpIndented) {output : Bytes}
    (h : replayOutput dumpIndented bengalVersion report = .ok output) :
    J.parse output = some (reportRead bengalVersion report) := by
  obtain ⟨htexts, rfl⟩ := (replayOutput_eq_ok_iff hJ).1 h
  refine hJ.parse 2 _ _ (canonical_reportRead _ _ htexts) ?_
  intro byte hbyte
  rw [List.mem_singleton.1 hbyte]
  rfl

end RoundTrip

end BengalMarket
