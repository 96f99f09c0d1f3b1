import BengalMarket.Benchmark.Comparable
import BengalMarket.Cli.EndToEnd

universe u

namespace BengalMarket.Benchmark

open Cli (Engine Operations Values Replays ReportsOn replay_cases replayWords)

inductive Status
  | exited (code : UInt8)
  | signaled (signal : UInt8)
  | other
  deriving DecidableEq

inductive Wait
  | child
  | interrupted
  | failed
  deriving DecidableEq

/-- A process from `fork` on.  It may be killed before `execv`, and `program` is how what it
executes ends. -/
structure Child where
  forked : Bool := true
  killed : Option UInt8 := none
  outputOpened : Bool := true
  errorOpened : Bool := true
  outputCopied : Bool := true
  errorCopied : Bool := true
  executed : Bool := true
  program : Status

def Child.status (child : Child) : Status :=
  match child.killed with
  | some signal => .signaled signal
  | none =>
    if !child.outputOpened || !child.errorOpened || !child.outputCopied || !child.errorCopied then
      .exited 126
    else if !child.executed then .exited 127
    else child.program

/-- The loop around `waitpid`; `none` as long as the child is waited for. -/
def waitFor (status : Status) : List Wait → Option (Except String Status)
  | [] => none
  | .child :: _ => some (.ok status)
  | .interrupted :: rest => waitFor status rest
  | .failed :: _ => some (.error "waitpid failed")

def Status.exitCode : Status → Nat
  | .exited code => code.toNat
  | .signaled signal => 128 + signal.toNat
  | .other => 125

def processResult (child : Child) (waits : List Wait) : Option (Except String Nat) :=
  if !child.forked then some (.error "fork failed")
  else (waitFor child.status waits).map fun result => result.map Status.exitCode

/-- The report that `run_replay` gets from a process whose output is read back; `none` is an
exception, or still waiting. -/
def takeReplay (J : JsonLibrary) (engine : String) (child : Child) (waits : List Wait)
    (standardOutput : Bytes) : Option J.Value :=
  match processResult child waits with
  | some (.ok exitCode) => if 1 < exitCode then none else parseReport J standardOutput engine
  | _ => none

/-- How a program that leaves `main` so can end, and what is then on file of its output: all of it
if it returns. -/
inductive Ends (exit : Cli.Exit) : Status → Bytes → Prop
  | returned : Ends exit (.exited exit.code.toUInt8) exit.standardOutput
  | killed (signal : UInt8) (printed : Bytes) : Ends exit (.signaled signal) printed

section Waiting

variable {status : Status} {child : Child} {waits : List Wait}

def Reaped (waits : List Wait) : Prop :=
  ∃ count rest, waits = List.replicate count .interrupted ++ .child :: rest

theorem waitFor_eq_ok_iff {result : Status} :
    waitFor status waits = some (.ok result) ↔ Reaped waits ∧ result = status := by
  constructor
  · intro h
    induction waits with
    | nil => cases h
    | cons wait waits ih =>
      cases wait with
      | child =>
        cases h
        exact ⟨⟨0, waits, rfl⟩, rfl⟩
      | interrupted =>
        obtain ⟨⟨count, rest, rfl⟩, heq⟩ := ih h
        exact ⟨⟨count + 1, rest, rfl⟩, heq⟩
      | failed => cases h
  · rintro ⟨⟨count, rest, rfl⟩, rfl⟩
    induction count with
    | zero => rfl
    | succ count ih => exact ih

structure Child.Started (child : Child) : Prop where
  killed : child.killed = none
  opened : child.outputOpened = true ∧ child.errorOpened = true
  copied : child.outputCopied = true ∧ child.errorCopied = true
  executed : child.executed = true

theorem Child.Started.status_eq (h : child.Started) : child.status = child.program := by
  simp [Child.status, h.killed, h.opened, h.copied, h.executed]

theorem started_of_exitCode (h : child.status.exitCode ≤ 1) : child.Started := by
  unfold Child.status at h
  split at h
  · simp only [Status.exitCode] at h
    omega
  · rename_i hkilled
    split at h
    · exact absurd h (by decide)
    · rename_i hready
      split at h
      · exact absurd h (by decide)
      · rename_i hexecuted
        simp only [Bool.or_eq_true, Bool.not_eq_true', not_or, Bool.not_eq_false] at hready
        obtain ⟨⟨⟨houtput, herror⟩, hcopied⟩, hcopied'⟩ := hready
        exact ⟨hkilled, ⟨houtput, herror⟩, ⟨hcopied, hcopied'⟩, by simpa using hexecuted⟩

theorem processResult_le_iff : (∃ code, processResult child waits = some (.ok code) ∧ code ≤ 1) ↔
    child.forked = true ∧ Reaped waits ∧ child.Started ∧ child.program.exitCode ≤ 1 := by
  unfold processResult
  cases hforked : child.forked with
  | false => simp
  | true =>
    simp only [Bool.not_true, Bool.false_eq_true, if_false, true_and]
    constructor
    · rintro ⟨code, hcode, hle⟩
      obtain ⟨result, hresult, hmap⟩ := Option.map_eq_some_iff.1 hcode
      cases result with
      | error what => cases hmap
      | ok ended =>
        obtain ⟨hreaped, rfl⟩ := waitFor_eq_ok_iff.1 hresult
        cases hmap
        have hstarted := started_of_exitCode hle
        exact ⟨hreaped, hstarted, hstarted.status_eq ▸ hle⟩
    · rintro ⟨hreaped, hstarted, hle⟩
      rw [waitFor_eq_ok_iff.2 ⟨hreaped, rfl⟩, hstarted.status_eq]
      exact ⟨_, rfl, hle⟩

theorem takeReplay_eq_some_iff {J : JsonLibrary} {engine : String} {text : Bytes}
    {value : J.Value} : takeReplay J engine child waits text = some value ↔
      (child.forked = true ∧ Reaped waits ∧ child.Started ∧ child.program.exitCode ≤ 1) ∧
        parseReport J text engine = some value := by
  rw [← processResult_le_iff, takeReplay]
  constructor
  · intro h
    split at h
    · rename_i code hcode
      split at h
      · cases h
      · rename_i hle
        exact ⟨⟨code, hcode, Nat.le_of_not_lt hle⟩, h⟩
    · cases h
  · rintro ⟨⟨code, hcode, hle⟩, hparse⟩
    rw [hcode]
    simp only [if_neg (Nat.not_lt.2 hle), hparse]

end Waiting

section Replaying

variable {J : JsonLibrary} {dumpIndented : Nat → J.Value → Except String Bytes}
  {bengalVersion version : String} {operations : Operations} {order : Values → Values}

theorem parseReport_eq_some_iff (hJ : J.Indents dumpIndented) {report : ReplayReport}
    {text : Bytes} (h : replayOutput dumpIndented bengalVersion report = .ok text)
    {engine : String} {value : J.Value} : parseReport J text engine = some value ↔
      ascii report.engine = ascii engine ∧ value = reportRead bengalVersion report := by
  have hversion : (reportRead bengalVersion report : J.Value).at? (ascii "schema_version") =
    some (.unsigned 1) := rfl
  have hengine : (reportRead bengalVersion report : J.Value).at? (ascii "engine") =
    some (.string (ascii report.engine)) := rfl
  simp only [parseReport, parse_replayOutput hJ h, Option.bind_eq_bind, Option.bind_some,
    hversion, hengine]
  by_cases hsame : ascii report.engine = ascii engine
  · simp [JsonLibrary.equals, Json.string?, hsame, eq_comm]
  · simp [JsonLibrary.equals, Json.string?, hsame]

theorem main_replayWords_cases (bengalVersion version : String) (operations : Operations)
    (hJ : J.Indents dumpIndented) (horder : ∀ v, (order v).Perm v) {input : Bytes}
    (hinput : input ≠ []) (engine : Engine) :
    let exit := Cli.main dumpIndented bengalVersion version operations order
      (replayWords input engine)
    (exit.code = 2 ∧ ∀ report, operations.replay input engine = .ok report →
        ¬ ReportTexts bengalVersion report) ∨
      ∃ report, operations.replay input engine = .ok report ∧
        replayOutput dumpIndented bengalVersion report = .ok exit.standardOutput ∧
        exit.code = Cli.replayCode report := by
  rw [Cli.main_replayWords _ _ horder hinput]
  cases hreplay : operations.replay input engine with
  | error what => exact Or.inl ⟨rfl, fun report h => by cases h⟩
  | ok report =>
    cases hjson : reportJson dumpIndented bengalVersion report with
    | error what =>
      refine Or.inl ⟨?_, fun other hother htexts => ?_⟩
      · simp only [bind, Except.bind, hjson]
        rfl
      · cases hother
        obtain ⟨text, htext, -⟩ := Cli.reportJson_spec hJ htexts
        cases hjson.symm.trans htext
    | ok text =>
      refine Or.inr ⟨report, rfl, ?_, ?_⟩
      · simp only [replayOutput, bind, Except.bind, hjson]
        rfl
      · simp only [bind, Except.bind, hjson]
        rfl

theorem replayCode_le (report : ReplayReport) : (Cli.replayCode report).toUInt8.toNat ≤ 1 := by
  unfold Cli.replayCode
  split <;> decide

theorem takeReplay_iff (hJ : J.Indents dumpIndented) (horder : ∀ v, (order v).Perm v)
    {input : Bytes} (hinput : input ≠ []) {engine : Engine} {child : Child} {printed : Bytes}
    (hends : Ends (Cli.main dumpIndented bengalVersion version operations order
      (replayWords input engine)) child.program printed)
    (waits : List Wait) (value : J.Value) :
    takeReplay J engine.name child waits printed = some value ↔
      (child.forked = true ∧ Reaped waits ∧ child.Started ∧
          ∀ signal, child.program ≠ .signaled signal) ∧
        ∃ report, operations.replay input engine = .ok report ∧
          ReportTexts bengalVersion report ∧ ascii report.engine = ascii engine.name ∧
          value = reportRead bengalVersion report := by
  rw [takeReplay_eq_some_iff]
  have hcases := main_replayWords_cases bengalVersion version operations hJ horder hinput engine
  cases hprogram : child.program with
  | other => rw [hprogram] at hends; cases hends
  | signaled signal =>
    have hcode : ¬ (Status.signaled signal).exitCode ≤ 1 := by
      rw [Status.exitCode]
      omega
    exact iff_of_false (fun h => hcode h.1.2.2.2) fun h => h.1.2.2.2 signal rfl
  | exited code =>
    have hended (code signal : UInt8) : Status.exited code ≠ .signaled signal := fun h => by cases h
    rw [hprogram] at hends
    cases hends
    rcases hcases with ⟨hcode, hrefused⟩ | ⟨report, hreplay, houtput, hcode⟩
    · have hlimit : ¬ (Status.exited (2 : UInt64).toUInt8).exitCode ≤ 1 := by decide
      rw [hcode]
      refine iff_of_false (fun h => hlimit h.1.2.2.2) ?_
      rintro ⟨-, report, hreplay, htexts, -⟩
      exact hrefused report hreplay htexts
    · have hlimit : (Status.exited (Cli.replayCode report).toUInt8).exitCode ≤ 1 :=
        replayCode_le report
      have htexts := ((replayOutput_eq_ok_iff hJ).1 houtput).1
      rw [hcode, parseReport_eq_some_iff hJ houtput, hreplay]
      constructor
      · rintro ⟨⟨hforked, hreaped, hstarted, -⟩, hengine, hvalue⟩
        exact ⟨⟨hforked, hreaped, hstarted, hended _⟩, report, rfl, htexts, hengine, hvalue⟩
      · rintro ⟨⟨hforked, hreaped, hstarted, -⟩, other, hother, -, hengine, hvalue⟩
        cases hother
        exact ⟨⟨hforked, hreaped, hstarted, hlimit⟩, hengine, hvalue⟩

section Captures

variable {queues : Engine → BoundedFifo.{0, u} Trade queueCapacity}
  {files : Bytes → Option Bytes} {left : Bytes → Engine → Nat}

/-- A benchmark takes a report from a process exactly if the process gets to the program and is
not killed, and the capture is read without an exception.  The report is on what was read. -/
theorem takeReplay_capture (hJ : J.Indents dumpIndented) (horder : ∀ v, (order v).Perm v)
    (hversion : JsonText.utf8 (ascii bengalVersion) = true) {input : Bytes} (hinput : input ≠ [])
    {engine : Engine} (hreplays : Replays J queues files left operations) {child : Child}
    {printed : Bytes}
    (hends : Ends (Cli.main dumpIndented bengalVersion version operations order
      (replayWords input engine)) child.program printed) (waits : List Wait) :
    ((∃ value, takeReplay J engine.name child waits printed = some value) ↔
      (child.forked = true ∧ Reaped waits ∧ child.Started ∧
          ∀ signal, child.program ≠ .signaled signal) ∧
        ∃ metrics, (Reader.readCapture J "" (files input)).outcome = .ok metrics) ∧
      ∀ value, takeReplay J engine.name child waits printed = some value →
        ∃ report, value = reportRead bengalVersion report ∧ report.engine = engine.name ∧
          ReportsOn J (files input) (left input engine) report := by
  have htaken := takeReplay_iff hJ horder hinput hends waits
  rcases replay_cases hreplays input engine with
    ⟨report, hreplay, hengine, hon⟩ | ⟨⟨what, hreplay⟩, hunread⟩
  · have htexts : ReportTexts bengalVersion report :=
      Cli.reportTexts hversion hengine
    refine ⟨⟨?_, fun ⟨hprocess, _⟩ => ?_⟩, fun value hvalue => ?_⟩
    · rintro ⟨value, hvalue⟩
      exact ⟨((htaken value).1 hvalue).1, _, hon.read⟩
    · exact ⟨_, (htaken _).2 ⟨hprocess, report, hreplay, htexts, by rw [hengine], rfl⟩⟩
    · obtain ⟨-, other, hother, -, -, rfl⟩ := (htaken value).1 hvalue
      cases hreplay.symm.trans hother
      exact ⟨report, rfl, hengine, hon⟩
  · have hrefused (value : J.Value) :
        takeReplay J engine.name child waits printed ≠ some value := by
      intro hvalue
      obtain ⟨-, report, hreport, -⟩ := (htaken value).1 hvalue
      cases hreplay.symm.trans hreport
    refine ⟨iff_of_false (fun ⟨value, hvalue⟩ => hrefused value hvalue) ?_,
      fun value hvalue => absurd hvalue (hrefused value)⟩
    rintro ⟨-, metrics, hmetrics⟩
    exact hunread metrics hmetrics

def exitOf (operations : Operations) : Cli.Exit :=
  @Cli.main .reference JsonLibrary.referenceIndented "1.0.0" "0.2.0" operations id
    (replayWords [0x66] .bengal)

theorem takeReplay_capture_interrupted :
    ∃ file replay value,
      Replays .reference Cli.queuesOf (fun _ => some file) (fun _ _ => 0)
        { Cli.failing with replay := replay } ∧
      takeReplay .reference Engine.bengal.name
        { program := .exited (exitOf { Cli.failing with replay := replay }).code.toUInt8 }
        [.interrupted, .child] (exitOf { Cli.failing with replay := replay }).standardOutput =
          some value := by
  obtain ⟨file, trades, -, -, hread⟩ := @Fixture.exists_trades [0x42, 0x54, 0x43] .reference
    JsonLibrary.reference_lawful 3 (by decide) (by decide) (by decide) (by decide) "f"
  obtain ⟨replay, hreplays⟩ :=
    Cli.exists_replays .reference Cli.queuesOf (fun _ => some file) Cli.failing
  have hends : Ends (exitOf { Cli.failing with replay := replay })
    (.exited (exitOf { Cli.failing with replay := replay }).code.toUInt8)
    (exitOf { Cli.failing with replay := replay }).standardOutput := .returned
  obtain ⟨value, hvalue⟩ := (@takeReplay_capture .reference JsonLibrary.referenceIndented "1.0.0"
    "0.2.0" _ id _ _ _ JsonLibrary.reference_indents (fun _ => .refl _) (by decide) [0x66]
    (List.cons_ne_nil 0x66 []) .bengal hreplays
    { program := .exited (exitOf { Cli.failing with replay := replay }).code.toUInt8 } _ hends
    [.interrupted, .child]).1.2 ⟨⟨rfl, ⟨1, [], rfl⟩, ⟨rfl, ⟨rfl, rfl⟩, ⟨rfl, rfl⟩, rfl⟩,
      fun _ h => Status.noConfusion h⟩, _, by rw [hread]⟩
  exact ⟨file, replay, value, hreplays, hvalue⟩

end Captures

end Replaying

end BengalMarket.Benchmark
