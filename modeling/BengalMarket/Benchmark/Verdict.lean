import BengalMarket.Benchmark.Process
import BengalMarket.Benchmark.Schedule

universe u

namespace BengalMarket.Benchmark

open Cli (Engine Operations Values Replays replayWords)
open Fixture (Reports Generated generateFixture exists_trades)

structure Process where
  child : Child
  waits : List Wait
  printed : Bytes

/-- The measured runs with what `run_replay` gets for each; `none` is an exception.  The warm-ups
before them, whose reports are dropped, are left out. -/
def measuredRuns (J : JsonLibrary) (options : Options) (process : Measured → Process) :
    Option (List (MeasuredRun J)) :=
  options.measured.mapM fun r => do
    let report ← takeReplay J r.engine (process r).child (process r).waits (process r).printed
    return { engine := r.engine, report }

section Summaries

variable {J : JsonLibrary} {bengalVersion : String} {report : Measured → ReplayReport}
  {measured : List Measured}

structure Summary.Describes (reports : List ReplayReport) (s : Summary) : Prop where
  elapsedNs : s.elapsedNs.Describes (reports.map fun r => r.elapsedNs)
  p50 : s.stageLatencyP50Ns.Describes (reports.map fun r => r.stageLatency.p50Ns)
  p95 : s.stageLatencyP95Ns.Describes (reports.map fun r => r.stageLatency.p95Ns)
  p99 : s.stageLatencyP99Ns.Describes (reports.map fun r => r.stageLatency.p99Ns)
  backpressure : s.backpressure.Describes (reports.map fun r => r.backpressure)

def runOf (J : JsonLibrary) (bengalVersion : String) (report : Measured → ReplayReport)
    (r : Measured) : MeasuredRun J where
  engine := r.engine
  report := reportRead bengalVersion (report r)

theorem filter_runOf (engine : String) :
    (measured.map (runOf J bengalVersion report)).filter (fun run => run.engine = engine) =
      (measured.filter fun r => r.engine = engine).map (runOf J bengalVersion report) := by
  rw [List.filter_map]
  rfl

theorem mapM_runOf (measured : List Measured) (f : MeasuredRun J → Option UInt64)
    (g : ReplayReport → UInt64)
    (h : ∀ r, f (runOf J bengalVersion report r) = some (g (report r))) :
    (measured.map (runOf J bengalVersion report)).mapM f =
      some ((measured.map report).map g) := by
  rw [List.map_map, List.mapM_map]
  exact mapM_eq_some_map fun r _ => h r

theorem summarize_spec (J : JsonLibrary) (bengalVersion : String)
    (report : Measured → ReplayReport) {engine : String}
    (hne : (measured.filter fun r => r.engine = engine) ≠ [])
    (hlength : (measured.filter fun r => r.engine = engine).length < 2 ^ 57) :
    ∃ s, summarize (measured.map (runOf J bengalVersion report)) engine = some s ∧
      s.Describes ((measured.filter fun r => r.engine = engine).map report) := by
  have hdescribes (g : ReplayReport → UInt64) :
      ∃ d, distribution (((measured.filter fun r => r.engine = engine).map report).map g) =
          some d ∧
        d.Describes (((measured.filter fun r => r.engine = engine).map report).map g) := by
    refine distribution_describes ?_ ?_
    · simpa using hne
    · simpa using hlength
  obtain ⟨elapsedNs, helapsed, hdelapsed⟩ := hdescribes fun r => r.elapsedNs
  obtain ⟨p50, hp50, hdp50⟩ := hdescribes fun r => r.stageLatency.p50Ns
  obtain ⟨p95, hp95, hdp95⟩ := hdescribes fun r => r.stageLatency.p95Ns
  obtain ⟨p99, hp99, hdp99⟩ := hdescribes fun r => r.stageLatency.p99Ns
  obtain ⟨backpressure, hback, hdback⟩ := hdescribes fun r => r.backpressure
  refine ⟨⟨elapsedNs, p50, p95, p99, backpressure⟩, ?_, hdelapsed, hdp50, hdp95, hdp99, hdback⟩
  simp only [summarize, filter_runOf]
  rw [mapM_runOf _ (fun run => metric run "pipeline" "elapsed_ns") (fun r => r.elapsedNs)
      fun _ => rfl,
    mapM_runOf _ (fun run => latencyMetric run "p50") (fun r => r.stageLatency.p50Ns)
      fun _ => rfl,
    mapM_runOf _ (fun run => latencyMetric run "p95") (fun r => r.stageLatency.p95Ns)
      fun _ => rfl,
    mapM_runOf _ (fun run => latencyMetric run "p99") (fun r => r.stageLatency.p99Ns)
      fun _ => rfl,
    mapM_runOf _ (fun run => metric run "pipeline" "backpressure") (fun r => r.backpressure)
      fun _ => rfl]
  simp only [Option.bind_eq_bind, Option.bind_some, helapsed, hp50, hp95, hp99, hback]
  rfl

end Summaries

section Fixtures

def engineOf (name : String) : Engine := if name = "bengal" then .bengal else .standard

theorem name_engineOf {options : Options} {r : Measured} (h : r ∈ options.measured) :
    (engineOf r.engine).name = r.engine := by
  rcases engine_of_mem h with hr | hr <;> rw [hr] <;> rfl

structure Process.Finished (p : Process) : Prop where
  forked : p.child.forked = true
  reaped : Reaped p.waits
  started : p.child.Started
  unharmed : ∀ signal, p.child.program ≠ .signaled signal

variable {J : JsonLibrary} {options : Options} {process : Measured → Process}
  {value : Measured → J.Value}

theorem measuredRuns_eq_some_iff
    (h : ∀ r ∈ options.measured, ∀ taken, takeReplay J r.engine (process r).child (process r).waits
      (process r).printed = some taken ↔ (process r).Finished ∧ taken = value r)
    (runs : List (MeasuredRun J)) : measuredRuns J options process = some runs ↔
      (∀ r ∈ options.measured, (process r).Finished) ∧
        runs = options.measured.map fun r => { engine := r.engine, report := value r } := by
  refine mapM_eq_some_iff (fun r hr run => ?_) runs
  simp only [Option.bind_eq_bind, Option.bind_eq_some_iff, Option.pure_def, Option.some.injEq]
  constructor
  · rintro ⟨taken, htaken, rfl⟩
    obtain ⟨hfinished, rfl⟩ := (h r hr taken).1 htaken
    exact ⟨hfinished, rfl⟩
  · rintro ⟨hfinished, rfl⟩
    exact ⟨_, (h r hr _).2 ⟨hfinished, rfl⟩, rfl⟩

section Verdicts

variable {bengalVersion : String} {report : Measured → ReplayReport} {trades : List Trade}
  {eventCount : UInt64} {left : Measured → Nat}

theorem allComparable_reports (hne : options.measured ≠ [])
    (h : ∀ r ∈ options.measured, Reports trades eventCount (left r) (report r)) :
    AllComparable (options.measured.map report) ↔
      ∀ r ∈ options.measured, ∀ r' ∈ options.measured, left r = left r' := by
  rw [allComparable_iff]
  simp only [ne_eq, List.map_eq_nil_iff, hne, not_false_eq_true, true_and, List.forall_mem_map]
  constructor
  · intro hall r hr r' hr'
    exact ((h r hr).comparable_iff (h r' hr')).1 (hall r hr r' hr').comparable
  · intro hall r hr r' hr'
    refine ⟨((h r hr).comparable_iff (h r' hr')).2 (hall r hr r' hr'), ?_, ?_⟩
    · rw [(h r hr).input, (h r' hr').input]
    · rw [(h r hr).input, (h r' hr').input]

theorem comparable_runOf (hne : options.measured ≠ [])
    (h : ∀ r ∈ options.measured, Reports trades eventCount (left r) (report r)) :
    ∃ verdict, comparable (options.measured.map (runOf J bengalVersion report)) = some verdict ∧
      (verdict = true ↔ ∀ r ∈ options.measured, ∀ r' ∈ options.measured, left r = left r') := by
  have hruns : List.Forall₂
      (fun report (run : MeasuredRun J) => run.report = reportRead bengalVersion report)
      (options.measured.map report) (options.measured.map (runOf J bengalVersion report)) := by
    rw [List.forall₂_map_left_iff, List.forall₂_map_right_iff, List.forall₂_same]
    exact fun _ _ => rfl
  obtain ⟨verdict, hverdict, hiff⟩ := comparable_spec hruns
  exact ⟨verdict, hverdict, hiff.trans (allComparable_reports hne h)⟩

theorem summarize_runOf (hruns : 1 ≤ options.runs) (hlimit : options.runs ≤ maximumRuns)
    (engine : Engine) :
    ∃ s, summarize (options.measured.map (runOf J bengalVersion report)) engine.name = some s ∧
      s.Describes ((options.measured.filter fun r => r.engine = engine.name).map report) ∧
      s.elapsedNs.samples.toNat = options.runs := by
  have hlength : (options.measured.filter fun r => r.engine = engine.name).length =
      options.runs := by
    have hengine : engine.name = "bengal" ∨ engine.name = "standard" := by
      cases engine
      · exact Or.inl rfl
      · exact Or.inr rfl
    rw [Options.measured, length_filter_pairs _ hengine, List.length_range']
  have hne : (options.measured.filter fun r => r.engine = engine.name) ≠ [] := by
    rw [← List.length_pos_iff, hlength]
    exact hruns
  obtain ⟨s, hs, hdescribes⟩ := summarize_spec J bengalVersion report hne (by
    rw [hlength]
    exact Nat.lt_of_le_of_lt hlimit (by decide))
  refine ⟨s, hs, hdescribes, ?_⟩
  rw [hdescribes.elapsedNs.samples, List.length_map, List.length_map, hlength]

end Verdicts

variable {dumpIndented : Nat → J.Value → Except String Bytes} {bengalVersion version : String}
  {operations : Measured → Operations} {order : Values → Values}
  {queues : Engine → BoundedFifo.{0, u} Trade queueCapacity} {files : Bytes → Option Bytes}
  {left : Measured → Nat} {productId path file : Bytes} {eventCount : UInt64}

/-- A benchmark on a generated fixture takes its runs exactly if every process finishes.  Its
verdict says then whether all replays have left equally many trades behind, and the summary of
each engine describes as many runs as were asked for. -/
theorem measured_generateFixture (hJ : J.Lawful) (hindents : J.Indents dumpIndented)
    (horder : ∀ v, (order v).Perm v) (hversion : JsonText.utf8 (ascii bengalVersion) = true)
    (hcount : 1 ≤ eventCount.toNat) (hproduct : 1 ≤ productId.length)
    (hlength : productId.length ≤ 20) (hutf8 : JsonText.utf8 productId = true) (hpath : path ≠ [])
    {output : String} (hfile : generateFixture J true true output eventCount productId = .ok file)
    (hstored : files path = some file) (hruns : 1 ≤ options.runs)
    (hlimit : options.runs ≤ maximumRuns)
    (hreplays : ∀ r ∈ options.measured,
      Replays J queues files (fun _ _ => left r) (operations r))
    (hends : ∀ r ∈ options.measured,
      Ends (Cli.main dumpIndented bengalVersion version (operations r) order
        (replayWords path (engineOf r.engine))) (process r).child.program (process r).printed) :
    ((∃ runs, measuredRuns J options process = some runs) ↔
        ∀ r ∈ options.measured, (process r).Finished) ∧
      ∀ runs, measuredRuns J options process = some runs →
        ∃ (trades : List Trade) (report : Measured → ReplayReport),
          (trades.length = eventCount.toNat ∧
            ∀ (index : Nat) (h : index < trades.length),
              Generated productId index trades[index]) ∧
          (∀ r ∈ options.measured, Reports trades eventCount (left r) (report r) ∧
            (report r).engine = r.engine) ∧
          runs = options.measured.map (runOf J bengalVersion report) ∧
          (∃ verdict, comparable runs = some verdict ∧
            (verdict = true ↔
              ∀ r ∈ options.measured, ∀ r' ∈ options.measured, left r = left r')) ∧
          ∀ engine : Engine, ∃ s, summarize runs engine.name = some s ∧
            s.Describes ((options.measured.filter fun r => r.engine = engine.name).map report) ∧
            s.elapsedNs.samples.toNat = options.runs := by
  obtain ⟨_, trades, hgenerated, htrades, hread⟩ :=
    exists_trades hJ hcount hproduct hlength hutf8 output
  obtain rfl := Except.ok.inj (hfile.symm.trans hgenerated)
  have hanswers : ∀ r ∈ options.measured, ∃ report,
      (operations r).replay path (engineOf r.engine) = .ok report ∧
        Reports trades eventCount (left r) report ∧ report.engine = r.engine := fun r hr => by
    obtain ⟨report, hanswer, hreport, hengine⟩ :=
      (hreplays r hr).reports htrades.1 hstored (hread "") (engineOf r.engine)
    exact ⟨report, hanswer, hreport, hengine.trans (name_engineOf hr)⟩
  have : Nonempty ReplayReport := ⟨fixtureReport "" 0⟩
  choose! report hanswer hreport hengine using hanswers
  have htaken : ∀ r ∈ options.measured, ∀ taken, takeReplay J r.engine (process r).child
      (process r).waits (process r).printed = some taken ↔
        (process r).Finished ∧ taken = reportRead bengalVersion (report r) := fun r hr taken => by
    have hiff := takeReplay_iff hindents horder hpath (hends r hr) (process r).waits taken
    have htexts : ReportTexts bengalVersion (report r) :=
      Cli.reportTexts hversion ((hengine r hr).trans (name_engineOf hr).symm)
    rw [name_engineOf hr, hanswer r hr] at hiff
    refine hiff.trans ⟨?_, ?_⟩
    · rintro ⟨⟨hforked, hreaped, hstarted, hunharmed⟩, other, hother, -, -, rfl⟩
      cases hother
      exact ⟨⟨hforked, hreaped, hstarted, hunharmed⟩, rfl⟩
    · rintro ⟨⟨hforked, hreaped, hstarted, hunharmed⟩, rfl⟩
      exact ⟨⟨hforked, hreaped, hstarted, hunharmed⟩, _, rfl, htexts, by rw [hengine r hr], rfl⟩
  have hsome := measuredRuns_eq_some_iff htaken
  refine ⟨⟨fun ⟨runs, h⟩ => ((hsome runs).1 h).1, fun h => ⟨_, (hsome _).2 ⟨h, rfl⟩⟩⟩, ?_⟩
  rintro runs h
  obtain ⟨-, rfl⟩ := (hsome runs).1 h
  have hne : options.measured ≠ [] := by
    rw [← List.length_pos_iff, length_measured]
    omega
  exact ⟨trades, report, htrades, fun r hr => ⟨hreport r hr, hengine r hr⟩, rfl,
    comparable_runOf hne hreport, summarize_runOf hruns hlimit⟩

def processOf (operations : Operations) (r : Measured) : Process :=
  let exit := @Cli.main .reference JsonLibrary.referenceIndented "1.0.0" "0.2.0" operations id
    (replayWords [0x66] (engineOf r.engine))
  { child := { program := .exited exit.code.toUInt8 }
    waits := [.interrupted, .child]
    printed := exit.standardOutput }

theorem measured_generateFixture_pair :
    ∃ file replay runs,
      Replays .reference Cli.queuesOf (fun _ => some file) (fun _ _ => 0)
        { Cli.failing with replay := replay } ∧
      measuredRuns .reference { runs := 1 } (processOf { Cli.failing with replay := replay }) =
        some runs ∧
      comparable runs = some true := by
  have hfile := Fixture.generateFixture_eq JsonLibrary.reference_lawful
    (show (3 : UInt64) ≠ 0 by decide) (show [0x42, 0x54, 0x43] ≠ ([] : Bytes) by decide)
    (by decide) (by decide) "f"
  obtain ⟨replay, hreplays⟩ := Cli.exists_replays .reference Cli.queuesOf (fun _ => some _)
    Cli.failing
  obtain ⟨htaken, hruns⟩ := @measured_generateFixture .reference { runs := 1 }
    (processOf { Cli.failing with replay := replay }) JsonLibrary.referenceIndented "1.0.0" "0.2.0"
    (fun _ => { Cli.failing with replay := replay }) id _ _ (fun _ => 0) [0x42, 0x54, 0x43] [0x66]
    _ 3 JsonLibrary.reference_lawful JsonLibrary.reference_indents (fun _ => .refl _) (by decide)
    (by decide) (by decide) (by decide) (by decide) (List.cons_ne_nil 0x66 []) "f" hfile rfl
    (by decide) (by decide) (fun _ _ => hreplays) (fun _ _ => .returned)
  obtain ⟨runs, hmeasured⟩ := htaken.2 fun r _ =>
    ⟨rfl, ⟨1, [], rfl⟩, ⟨rfl, ⟨rfl, rfl⟩, ⟨rfl, rfl⟩, rfl⟩, fun _ h => Status.noConfusion h⟩
  obtain ⟨-, -, -, -, -, ⟨verdict, hverdict, hiff⟩, -⟩ := hruns runs hmeasured
  obtain rfl : verdict = true := hiff.2 fun _ _ _ _ => rfl
  exact ⟨_, replay, runs, hreplays, hmeasured, hverdict⟩

end Fixtures

end BengalMarket.Benchmark
