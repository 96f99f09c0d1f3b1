import BengalMarket.Benchmark.Bundle
import BengalMarket.Benchmark.Distribution
import BengalMarket.Library.JsonParser
import BengalMarket.Pipeline.Comparison
import BengalMarket.Pipeline.Report

namespace BengalMarket.Benchmark

variable {J : JsonLibrary}

structure Expected where
  events : UInt64
  checksum : UInt64
  frames : UInt64
  gaps : UInt64
  outOfOrder : UInt64

def expected (first : MeasuredRun J) : Option Expected := do
  return {
    events := ← metric first "pipeline" "events"
    checksum := ← metric first "pipeline" "checksum"
    frames := ← metric first "input" "frames"
    gaps := ← metric first "input" "sequence_gaps"
    outOfOrder := ← metric first "input" "out_of_order" }

/-- The disjunction of the loop: nothing is read behind the first difference. -/
def differs (e : Expected) (run : MeasuredRun J) : Option Bool := do
  if (← metric run "input" "parse_errors") ≠ 0 then return true
  if (← metric run "pipeline" "dropped") ≠ 0 then return true
  if (← metric run "pipeline" "events") ≠ e.events then return true
  if (← metric run "pipeline" "checksum") ≠ e.checksum then return true
  if (← metric run "input" "frames") ≠ e.frames then return true
  if (← metric run "input" "sequence_gaps") ≠ e.gaps then return true
  if (← metric run "input" "out_of_order") ≠ e.outOfOrder then return true
  return (← latencyMetric run "samples") ≠ e.events

def agree (e : Expected) : List (MeasuredRun J) → Option Bool
  | [] => some true
  | run :: rest => do
    if ← differs e run then return false
    agree e rest

/-- `none` is an exception of an accessor. -/
def comparable : List (MeasuredRun J) → Option Bool
  | [] => some false
  | first :: rest => do
    let e ← expected first
    agree e (first :: rest)

structure ReadBack (dumpIndented : Nat → J.Value → Except String Bytes) (bengalVersion : String)
    (report : ReplayReport) (run : MeasuredRun J) : Prop where
  output : ∃ text, replayOutput dumpIndented bengalVersion report = .ok text ∧
    parseReport J text run.engine = some run.report

section Reading

variable {dumpIndented : Nat → J.Value → Except String Bytes} {bengalVersion : String}
  {report : ReplayReport} {run : MeasuredRun J}

theorem ReadBack.report_eq (hJ : J.Indents dumpIndented)
    (h : ReadBack dumpIndented bengalVersion report run) :
    run.report = reportRead bengalVersion report := by
  obtain ⟨text, htext, hparse⟩ := h.output
  simp only [parseReport, parse_replayOutput hJ htext, Option.bind_eq_bind, Option.bind_some,
    Option.bind_eq_some_iff] at hparse
  obtain ⟨version, -, name, -, hparse⟩ := hparse
  split at hparse
  · exact (Option.some.inj hparse).symm
  · cases hparse

theorem readBack_of_texts (hJ : J.Indents dumpIndented)
    (h : ReportTexts bengalVersion report) :
    ReadBack dumpIndented bengalVersion report
      { engine := report.engine, report := reportRead bengalVersion report } := by
  have htext := (replayOutput_eq_ok_iff hJ).2 ⟨h, rfl⟩
  refine ⟨_, htext, ?_⟩
  have hversion : (reportRead bengalVersion report : J.Value).at? (ascii "schema_version") =
    some (.unsigned 1) := rfl
  have hengine : (reportRead bengalVersion report : J.Value).at? (ascii "engine") =
    some (.string (ascii report.engine)) := rfl
  simp only [parseReport, parse_replayOutput hJ htext, Option.bind_eq_bind, Option.bind_some,
    hversion, hengine]
  simp [JsonLibrary.equals, Json.string?]

end Reading

section Pairs

structure Agrees (a b : ReplayReport) : Prop where
  comparable : reportsComparable a b = true
  gaps : a.input.sequenceGaps = b.input.sequenceGaps
  outOfOrder : a.input.outOfOrder = b.input.outOfOrder

theorem reportsComparable_iff {a b : ReplayReport} :
    reportsComparable a b = true ↔
      a.input.frames = b.input.frames ∧ a.events = b.events ∧ a.checksum = b.checksum ∧
        (a.input.parseErrors = 0 ∧ a.dropped = 0 ∧ a.stageLatency.samples = a.events) ∧
        b.input.parseErrors = 0 ∧ b.dropped = 0 ∧ b.stageLatency.samples = b.events := by
  simp only [reportsComparable, Bool.and_eq_true, beq_iff_eq]
  tauto

theorem Agrees.symm {a b : ReplayReport} (h : Agrees a b) : Agrees b a := by
  obtain ⟨hframes, hevents, hchecksum, ha, hb⟩ := reportsComparable_iff.1 h.comparable
  exact ⟨reportsComparable_iff.2 ⟨hframes.symm, hevents.symm, hchecksum.symm, hb, ha⟩,
    h.gaps.symm, h.outOfOrder.symm⟩

theorem Agrees.trans {a b c : ReplayReport} (hab : Agrees a b) (hbc : Agrees b c) :
    Agrees a c := by
  obtain ⟨hframes, hevents, hchecksum, ha, -⟩ := reportsComparable_iff.1 hab.comparable
  obtain ⟨hframes', hevents', hchecksum', -, hc⟩ := reportsComparable_iff.1 hbc.comparable
  exact ⟨reportsComparable_iff.2
      ⟨hframes.trans hframes', hevents.trans hevents', hchecksum.trans hchecksum', ha, hc⟩,
    hab.gaps.trans hbc.gaps, hab.outOfOrder.trans hbc.outOfOrder⟩

theorem forall_agrees_iff {first : ReplayReport} {rest : List ReplayReport} :
    (∀ r ∈ first :: rest, Agrees first r) ↔
      ∀ a ∈ first :: rest, ∀ b ∈ first :: rest, Agrees a b := by
  constructor
  · intro h a ha b hb
    exact (h a ha).symm.trans (h b hb)
  · intro h r hr
    exact h first List.mem_cons_self r hr

structure AllComparable (reports : List ReplayReport) : Prop where
  nonempty : reports ≠ []
  pairs : ∀ a ∈ reports, ∀ b ∈ reports, reportsComparable a b = true
  gaps : ∀ a ∈ reports, ∀ b ∈ reports, a.input.sequenceGaps = b.input.sequenceGaps
  outOfOrder : ∀ a ∈ reports, ∀ b ∈ reports, a.input.outOfOrder = b.input.outOfOrder

theorem allComparable_iff {reports : List ReplayReport} :
    AllComparable reports ↔ reports ≠ [] ∧ ∀ a ∈ reports, ∀ b ∈ reports, Agrees a b := by
  constructor
  · intro h
    exact ⟨h.nonempty, fun a ha b hb =>
      ⟨h.pairs a ha b hb, h.gaps a ha b hb, h.outOfOrder a ha b hb⟩⟩
  · rintro ⟨hne, h⟩
    exact ⟨hne, fun a ha b hb => (h a ha b hb).comparable, fun a ha b hb => (h a ha b hb).gaps,
      fun a ha b hb => (h a ha b hb).outOfOrder⟩

theorem AllComparable.of_perm {reports permuted : List ReplayReport} (h : AllComparable reports)
    (hperm : reports.Perm permuted) : AllComparable permuted := by
  obtain ⟨hne, hpairs⟩ := allComparable_iff.1 h
  refine allComparable_iff.2 ⟨fun hnil => hne ?_, fun a ha b hb => ?_⟩
  · exact List.perm_nil.1 (hnil ▸ hperm)
  · exact hpairs a (hperm.mem_iff.2 ha) b (hperm.mem_iff.2 hb)

end Pairs

section Verdict

def Expected.ofReport (report : ReplayReport) : Expected where
  events := report.events
  checksum := report.checksum
  frames := report.input.frames
  gaps := report.input.sequenceGaps
  outOfOrder := report.input.outOfOrder

def meets (e : Expected) (report : ReplayReport) : Bool :=
  report.input.parseErrors == 0 && report.dropped == 0 && report.events == e.events &&
    report.checksum == e.checksum && report.input.frames == e.frames &&
    report.input.sequenceGaps == e.gaps && report.input.outOfOrder == e.outOfOrder &&
    report.stageLatency.samples == e.events

variable {bengalVersion : String} {report : ReplayReport} {run : MeasuredRun J}

theorem expected_eq (h : run.report = reportRead bengalVersion report) :
    expected run = some (.ofReport report) := by
  simp only [expected, metric, h]
  rfl

theorem disjunct_eq {α : Type} [DecidableEq α] (a b : α) (rest : Bool) :
    (if a ≠ b then pure true else some (!rest)) = some (!(a == b && rest)) := by
  by_cases hab : a = b
  · simp [hab]
  · simp [hab]

theorem differs_eq (h : run.report = reportRead bengalVersion report) (e : Expected) :
    differs e run = some (!meets e report) := by
  have hparse : metric run "input" "parse_errors" = some report.input.parseErrors := by
    rw [metric, h]; rfl
  have hdropped : metric run "pipeline" "dropped" = some report.dropped := by
    rw [metric, h]; rfl
  have hevents : metric run "pipeline" "events" = some report.events := by
    rw [metric, h]; rfl
  have hchecksum : metric run "pipeline" "checksum" = some report.checksum := by
    rw [metric, h]; rfl
  have hframes : metric run "input" "frames" = some report.input.frames := by
    rw [metric, h]; rfl
  have hgaps : metric run "input" "sequence_gaps" = some report.input.sequenceGaps := by
    rw [metric, h]; rfl
  have houtOfOrder : metric run "input" "out_of_order" = some report.input.outOfOrder := by
    rw [metric, h]; rfl
  have hsamples : latencyMetric run "samples" = some report.stageLatency.samples := by
    rw [latencyMetric, h]; rfl
  simp only [differs, hparse, hdropped, hevents, hchecksum, hframes, hgaps, houtOfOrder, hsamples,
    Option.bind_eq_bind, Option.bind_some]
  have hlast : (pure (decide (report.stageLatency.samples ≠ e.events)) : Option Bool) =
      some (!(report.stageLatency.samples == e.events)) := by
    rw [decide_not]
    rfl
  simp only [hlast, disjunct_eq, meets, Bool.and_assoc]

theorem agree_eq {reports : List ReplayReport} {runs : List (MeasuredRun J)}
    (h : List.Forall₂ (fun report run => run.report = reportRead bengalVersion report) reports runs)
    (e : Expected) : agree e runs = some (reports.all (meets e)) := by
  induction h with
  | nil => rfl
  | cons hfirst _ ih =>
    rw [agree, differs_eq hfirst, ih, List.all_cons]
    cases meets e _ <;> rfl

theorem all_meets_iff {first : ReplayReport} {rest : List ReplayReport} :
    (first :: rest).all (meets (.ofReport first)) = true ↔
      ∀ r ∈ first :: rest, Agrees first r := by
  have hmeets : ∀ r, meets (.ofReport first) r = true ↔
      (r.input.parseErrors = 0 ∧ r.dropped = 0 ∧ r.stageLatency.samples = first.events) ∧
        first.input.frames = r.input.frames ∧ first.events = r.events ∧
        first.checksum = r.checksum ∧ first.input.sequenceGaps = r.input.sequenceGaps ∧
        first.input.outOfOrder = r.input.outOfOrder := by
    intro r
    simp only [meets, Expected.ofReport, Bool.and_eq_true, beq_iff_eq]
    tauto
  rw [List.all_eq_true]
  constructor
  · intro h r hr
    obtain ⟨hself, -⟩ := (hmeets first).1 (h first List.mem_cons_self)
    obtain ⟨⟨hparse, hdropped, hsamples⟩, hframes, hevents, hchecksum, hgaps, hlate⟩ :=
      (hmeets r).1 (h r hr)
    exact ⟨reportsComparable_iff.2
      ⟨hframes, hevents, hchecksum, hself, hparse, hdropped, hsamples.trans hevents⟩, hgaps, hlate⟩
  · intro h r hr
    have hagrees := h r hr
    obtain ⟨hframes, hevents, hchecksum, -, hparse, hdropped, hsamples⟩ :=
      reportsComparable_iff.1 hagrees.comparable
    exact (hmeets r).2 ⟨⟨hparse, hdropped, hsamples.trans hevents.symm⟩, hframes, hevents,
      hchecksum, hagrees.gaps, hagrees.outOfOrder⟩

theorem comparable_spec {reports : List ReplayReport} {runs : List (MeasuredRun J)}
    (h : List.Forall₂ (fun report run => run.report = reportRead bengalVersion report)
      reports runs) :
    ∃ verdict, comparable runs = some verdict ∧ (verdict = true ↔ AllComparable reports) := by
  cases h with
  | nil => exact ⟨false, rfl, by simp [allComparable_iff]⟩
  | @cons first run rest others hfirst hothers =>
    refine ⟨(first :: rest).all (meets (.ofReport first)), ?_, ?_⟩
    · rw [comparable, expected_eq hfirst]
      exact agree_eq (.cons hfirst hothers) _
    · rw [all_meets_iff, forall_agrees_iff, allComparable_iff]
      simp

end Verdict

/-- The two checks agree on every list of reports, whatever the order of the runs. -/
theorem comparable_iff_pairwise {dumpIndented : Nat → J.Value → Except String Bytes}
    (hJ : J.Indents dumpIndented) {bengalVersion : String} {reports : List ReplayReport}
    {runs : List (MeasuredRun J)}
    (hruns : List.Forall₂ (ReadBack dumpIndented bengalVersion) reports runs) :
    ∃ verdict, comparable runs = some verdict ∧ (verdict = true ↔ AllComparable reports) ∧
      ∀ permuted, runs.Perm permuted → comparable permuted = some verdict := by
  have hread : List.Forall₂ (fun report run => run.report = reportRead bengalVersion report)
      reports runs := hruns.imp fun _ _ h => h.report_eq hJ
  obtain ⟨verdict, hverdict, hiff⟩ := comparable_spec hread
  refine ⟨verdict, hverdict, hiff, fun permuted hperm => ?_⟩
  have hboth : Relation.Comp (List.Forall₂ fun report (run : MeasuredRun J) =>
      run.report = reportRead bengalVersion report) List.Perm reports permuted :=
    ⟨runs, hread, hperm⟩
  rw [List.forall₂_comp_perm_eq_perm_comp_forall₂] at hboth
  obtain ⟨reordered, hreordered, hpermuted⟩ := hboth
  obtain ⟨other, hother, hotherIff⟩ := comparable_spec hpermuted
  have hsame : other = verdict := by
    rw [Bool.eq_iff_iff, hiff, hotherIff]
    exact ⟨fun h => h.of_perm hreordered.symm, fun h => h.of_perm hreordered⟩
  rw [hother, hsame]

section Fixture

def fixtureReport (engine : String) (elapsedNs : UInt64) : ReplayReport where
  engine := engine
  input := { frames := 3 }
  stageLatency := { samples := 2 }
  events := 2
  dropped := 0
  backpressure := 0
  checksum := 7
  elapsedNs := elapsedNs

def fixtureReports : List ReplayReport := [fixtureReport "bengal" 10, fixtureReport "standard" 20]

theorem texts_fixtureReports : ∀ r ∈ fixtureReports, ReportTexts "1.0.0" r := by decide +kernel

theorem comparable_iff_pairwise_two :
    ∃ runs : List (MeasuredRun .reference), ∃ verdict, comparable runs = some verdict ∧
      (verdict = true ↔ AllComparable fixtureReports) ∧
      ∀ permuted, runs.Perm permuted → comparable permuted = some verdict := by
  have htexts := texts_fixtureReports
  simp only [fixtureReports, List.forall_mem_cons] at htexts
  have hfirst := readBack_of_texts JsonLibrary.reference_indents htexts.1
  have hsecond := readBack_of_texts JsonLibrary.reference_indents htexts.2.1
  exact ⟨_, comparable_iff_pairwise JsonLibrary.reference_indents
    (.cons hfirst (.cons hsecond .nil))⟩

end Fixture

end BengalMarket.Benchmark
