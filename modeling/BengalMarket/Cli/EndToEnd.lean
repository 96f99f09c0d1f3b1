import BengalMarket.Cli.Invariance
import BengalMarket.Fixture.Comparison
import BengalMarket.Fixture.Stream
import BengalMarket.Pipeline.StandardQueue
import BengalMarket.Reader.Spelling

universe u

namespace BengalMarket.Cli

open JsonText
open Reader (readCapture)
open Fixture (Reports Generated Device reports_of_run exists_trades fixtureChunks streamFixture)
open BufferedOutput (Policy Cut)

section Comparisons

variable {Double : Type}

def comparisonRead (bengalVersion : String) (bengal standard : ReplayReport) : Json Double :=
  .object [
    (ascii "bengal", reportRead bengalVersion bengal),
    (ascii "comparable", .bool (reportsComparable bengal standard)),
    (ascii "schema_version", .unsigned 1),
    (ascii "standard", reportRead bengalVersion standard)]

theorem indented_comparisonValue (step : Nat) (bengalVersion : String)
    (bengal standard : ReplayReport) :
    indented step (comparisonValue bengalVersion bengal standard : Json Double) =
      indented step (comparisonRead bengalVersion bengal standard : Json Double) := rfl

def comparisonKeys : List String := ["bengal", "comparable", "schema_version", "standard"]

theorem comparisonKeys_spec : (comparisonKeys.map ascii).Pairwise (· < ·) ∧
    ∀ key ∈ comparisonKeys.map ascii, utf8 key = true := by decide +kernel

variable {J : JsonLibrary} {dumpIndented : Nat → J.Value → Except String Bytes}
  {bengalVersion : String} {bengal standard : ReplayReport}

theorem reportJson_spec (hJ : J.Indents dumpIndented) (hbengal : ReportTexts bengalVersion bengal) :
    ∃ text, reportJson dumpIndented bengalVersion bengal = .ok text ∧
      J.parse (text ++ [0x0A]) = some (reportRead bengalVersion bengal) := by
  refine ⟨_, hJ.dump 2 _ ((printable_reportValue_iff _ _).2 hbengal), ?_⟩
  rw [indented_reportValue]
  exact parse_replayOutput hJ ((replayOutput_eq_ok_iff hJ).2 ⟨hbengal, rfl⟩)

theorem comparisonJson_spec (hJ : J.Indents dumpIndented)
    (hbengal : ReportTexts bengalVersion bengal) (hstandard : ReportTexts bengalVersion standard) :
    ∃ text, comparisonJson dumpIndented bengalVersion bengal standard = .ok text ∧
      J.parse (text ++ [0x0A]) = some (comparisonRead bengalVersion bengal standard) := by
  have hprintable : printable
      (comparisonValue bengalVersion bengal standard : J.Value) = true := by
    refine (plain_object_iff comparisonKeys_spec rfl).2 ?_
    simp only [List.forall_mem_cons]
    exact ⟨(printable_reportValue_iff _ _).2 hbengal, rfl, rfl,
      (printable_reportValue_iff _ _).2 hstandard, fun _ hmember => absurd hmember List.not_mem_nil⟩
  have hcanonical : canonical
      (comparisonRead bengalVersion bengal standard : J.Value) = true := by
    refine (plain_object_iff comparisonKeys_spec rfl).2 ?_
    simp only [List.forall_mem_cons]
    exact ⟨canonical_reportRead _ _ hbengal, rfl, rfl, canonical_reportRead _ _ hstandard,
      fun _ hmember => absurd hmember List.not_mem_nil⟩
  refine ⟨_, hJ.dump 2 _ hprintable, ?_⟩
  rw [indented_comparisonValue]
  refine hJ.parse 2 _ _ hcanonical fun byte hbyte => ?_
  rw [List.mem_singleton.1 hbyte]
  rfl

end Comparisons

section Sessions

variable {J : JsonLibrary}

def Answers : Except Bytes ReplayReport → Option (Except String ReplayReport) → Prop
  | .ok report, result => result = some (.ok report)
  | .error _, result => ∃ what, result = some (.error what)

/-- A replay that the operations answer is a run of the reader and of the pipeline of an engine on
the file of the path.  It leaves `left` trades in the queue. -/
structure Replays (J : JsonLibrary) (queues : Engine → BoundedFifo.{0, u} Trade queueCapacity)
    (files : Bytes → Option Bytes) (left : Bytes → Engine → Nat) (operations : Operations) :
    Prop where
  run : ∀ path engine, ∃ name events r elapsedNs,
    Replay.run J (queues engine) (Replay.start (queues engine) name (files path)) events =
        some r ∧ r.system.producer = .joined ∧ r.system.leftover = left path engine ∧
      Answers (operations.replay path engine) (r.result engine.name elapsedNs)

def generateWords (output product : Bytes) (eventCount : UInt64) : List Bytes :=
  ascii "generate" :: words [(ascii "output", output),
    (ascii "events", Decimal.text eventCount.toNat), (ascii "product", product)]

def replayWords (input : Bytes) (engine : Engine) : List Bytes :=
  [ascii "replay", ascii "--input", input, ascii "--engine", ascii engine.name]

def compareWords (input : Bytes) : List Bytes := [ascii "compare", ascii "--input", input]

variable {dumpIndented : Nat → J.Value → Except String Bytes} {bengalVersion version : String}
  {operations : Operations} {order : Values → Values}

theorem fromChars_text (n : UInt64) : fromChars (Decimal.text n.toNat) = some (n, []) :=
  fromChars_eq_some_iff.2 ⟨Decimal.text_ne_nil _, Decimal.digits_text _,
    (Decimal.ofDigits_text _).symm⟩

theorem readEngine_name (engine : Engine) : readEngine (ascii engine.name) = .ok engine := by
  cases engine <;> decide +kernel

theorem main_words (version : String) (horder : ∀ v, (order v).Perm v) {name : Bytes}
    {accepted : List String} {body : Values → Result}
    (hcommand : command dumpIndented bengalVersion operations name = some (accepted, body))
    (values : Values) (hne : values ≠ []) (hnodup : (names values).Nodup)
    (hknown : ∀ n ∈ names values, n ∈ accepted.map ascii) :
    main dumpIndented bengalVersion version operations order (name :: words values) =
      (body values).exit := by
  have hparse : parseArguments [] (words values) = .ok values :=
    parseArguments_words hnodup
  have hwords : words values ≠ [] := by
    cases values with
    | nil => exact absurd rfl hne
    | cons entry rest => simp [words]
  have hreject : rejectUnknown accepted (order values) = .ok () :=
    rejectUnknown_eq_ok_iff.2 fun n hn => hknown n (((horder values).map Prod.fst).mem_iff.1 hn)
  simp only [main, hwords, false_and, if_false, hparse, execute, hcommand, hreject]

section Words

variable (output product input : Bytes) (eventCount : UInt64) (engine : Engine)

def generateValues : Values := [(ascii "output", output),
  (ascii "events", Decimal.text eventCount.toNat), (ascii "product", product)]

def replayValues : Values := [(ascii "input", input), (ascii "engine", ascii engine.name)]

theorem names_spec : (["output", "events", "product"].map ascii).Nodup ∧
    (["input", "engine"].map ascii).Nodup := by decide +kernel

theorem required_generateValues (hne : output ≠ []) :
    required (generateValues output product eventCount) "output" = .ok output := by
  have hlookup : (generateValues output product eventCount).lookup (ascii "output") =
      some output := rfl
  rw [required, hlookup]
  simp [hne]

theorem main_generateWords (horder : ∀ v, (order v).Perm v) (hne : output ≠ []) :
    main dumpIndented bengalVersion version operations order
        (generateWords output product eventCount) =
      Result.exit ⟨[.generate output eventCount product],
        (operations.generateFixture output eventCount product).map fun () => ([], 0)⟩ := by
  have hcommand : command dumpIndented bengalVersion operations (ascii "generate") =
      some (["output", "events", "product"], generate operations) := by
    rw [command, if_pos rfl]
  have hmain := main_words version horder hcommand
    (generateValues output product eventCount) (List.cons_ne_nil _ _) names_spec.1 fun _ hn => hn
  have hevents : unsignedValue (generateValues output product eventCount) "events" 10000 =
      .ok eventCount := by
    have hvalue : valueOr (generateValues output product eventCount) "events"
        (Decimal.text (10000 : UInt64).toNat) = Decimal.text eventCount.toNat := rfl
    rw [unsignedValue, hvalue, fromChars_text]
  have hproduct : valueOr (generateValues output product eventCount) "product"
      (ascii "BTC-USD") = product := rfl
  refine hmain.trans ?_
  rw [generate, required_generateValues _ _ _ hne, hevents, hproduct]
  rfl

theorem main_replayWords (horder : ∀ v, (order v).Perm v) (hne : input ≠ []) :
    main dumpIndented bengalVersion version operations order (replayWords input engine) =
      Result.exit ⟨[.replay input engine], do
        let report ← operations.replay input engine
        printed (reportJson dumpIndented bengalVersion report) (replayCode report)⟩ := by
  have hcommand : command dumpIndented bengalVersion operations (ascii "replay") =
      some (["input", "engine"], replay dumpIndented bengalVersion operations) := by
    rw [command, if_neg (by decide), if_pos rfl]
  have hmain := main_words version horder hcommand
    (replayValues input engine) (List.cons_ne_nil _ _) names_spec.2 fun _ hn => hn
  have hengine : valueOr (replayValues input engine) "engine" (ascii "bengal") =
      ascii engine.name := rfl
  have hinput : required (replayValues input engine) "input" = .ok input := by
    have hlookup : (replayValues input engine).lookup (ascii "input") = some input := rfl
    rw [required, hlookup]
    simp [hne]
  refine hmain.trans ?_
  rw [replay, hengine, readEngine_name, hinput]
  rfl

theorem required_input (hne : input ≠ []) :
    required [(ascii "input", input)] "input" = .ok input := by
  have hlookup : List.lookup (ascii "input") [(ascii "input", input)] = some input := rfl
  rw [required, hlookup]
  simp [hne]

theorem main_compareWords (horder : ∀ v, (order v).Perm v) :
    main dumpIndented bengalVersion version operations order (compareWords input) =
      (compare dumpIndented bengalVersion operations [(ascii "input", input)]).exit := by
  have hcommand : command dumpIndented bengalVersion operations (ascii "compare") =
      some (["input"], compare dumpIndented bengalVersion operations) := by
    rw [command, if_neg (by decide), if_neg (by decide), if_pos rfl]
  exact main_words version horder hcommand [(ascii "input", input)] (List.cons_ne_nil _ _)
    (List.nodup_singleton _) fun _ hn => hn

end Words

section Answered

variable {queues : Engine → BoundedFifo.{0, u} Trade queueCapacity}
  {files : Bytes → Option Bytes} {left : Bytes → Engine → Nat} {report : ReplayReport}
  {trades : List Trade} {eventCount : UInt64} {path : Bytes}

theorem outcome_eq_ok_iff (J : JsonLibrary) (file : Option Bytes) (name name' : String)
    (metrics : ParseMetrics) : (readCapture J name file).outcome = .ok metrics ↔
      (readCapture J name' file).outcome = .ok metrics := by
  cases file with
  | none => exact iff_of_false (fun h => by cases h) fun h => by cases h
  | some stream => rw [Reader.readCapture_eq, Reader.readCapture_eq]

theorem delivered_eq (J : JsonLibrary) (file : Option Bytes) (name name' : String) :
    (readCapture J name file).delivered = (readCapture J name' file).delivered := by
  cases file with
  | none => rfl
  | some stream => rw [Reader.readCapture_eq, Reader.readCapture_eq]

structure ReportsOn (J : JsonLibrary) (file : Option Bytes) (left : Nat) (report : ReplayReport) :
    Prop where
  read : (readCapture J "" file).outcome = .ok report.input
  left_le : left ≤ (readCapture J "" file).delivered.length
  samples : report.stageLatency.samples = report.events
  dropped : report.dropped = 0
  events : report.events =
    UInt64.ofNat ((readCapture J "" file).delivered.length - left)
  checksum : report.checksum = ((readCapture J "" file).delivered.take
    ((readCapture J "" file).delivered.length - left)).foldl updateChecksum hashOffset

theorem replay_cases (h : Replays J queues files left operations) (path : Bytes)
    (engine : Engine) :
    (∃ report, operations.replay path engine = .ok report ∧ report.engine = engine.name ∧
        ReportsOn J (files path) (left path engine) report) ∨
      (∃ what, operations.replay path engine = .error what) ∧
        ∀ metrics, (readCapture J "" (files path)).outcome ≠ .ok metrics := by
  obtain ⟨name, events, r, elapsedNs, hrun, hjoined, hleft, hanswer⟩ := h.run path engine
  obtain ⟨hreplayed, -⟩ := Replay.replayed_of_run hrun hjoined
  rw [Replay.result_of_run hrun hjoined] at hanswer
  cases houtcome : (readCapture J name (files path)).outcome with
  | error what =>
    rw [houtcome] at hanswer
    refine Or.inr ⟨?_, fun metrics hmetrics => ?_⟩
    · cases hreplay : operations.replay path engine with
      | error text => exact ⟨text, rfl⟩
      | ok report =>
        rw [hreplay] at hanswer
        cases hanswer
    · cases houtcome.symm.trans ((outcome_eq_ok_iff J _ _ _ metrics).1 hmetrics)
  | ok input =>
    rw [houtcome] at hanswer
    cases hreplay : operations.replay path engine with
    | error text =>
      rw [hreplay] at hanswer
      obtain ⟨what, hwhat⟩ := hanswer
      cases hwhat
    | ok report =>
      rw [hreplay] at hanswer
      cases hanswer
      obtain ⟨hevents, hsamples⟩ := hreplayed.events_eq
      refine Or.inl ⟨_, rfl, rfl, (outcome_eq_ok_iff J _ _ _ _).1 houtcome, ?_, ?_, rfl, ?_, ?_⟩
      · rw [← hleft, delivered_eq J _ "" name]
        exact hreplayed.leftover_le
      · simp [Pipeline.report, hsamples, hevents]
      · rw [← hleft, delivered_eq J _ "" name]
        exact hevents
      · rw [← hleft, delivered_eq J _ "" name]
        exact hreplayed.checksum_eq

theorem Replays.reports (h : Replays J queues files left operations)
    (hlength : trades.length = eventCount.toNat) {file : Bytes} (hstored : files path = some file)
    (hread : readCapture J "" (some file) = ⟨trades, .ok { frames := eventCount }⟩)
    (engine : Engine) :
    ∃ report, operations.replay path engine = .ok report ∧
      Reports trades eventCount (left path engine) report ∧ report.engine = engine.name := by
  rcases replay_cases h path engine with ⟨report, hanswer, hengine, hon⟩ | ⟨-, hunread⟩
  · obtain ⟨hinput, hle, hsamples, hdropped, hevents, hchecksum⟩ := hon
    simp only [hstored, hread, hlength] at hinput hle hevents hchecksum
    have hcount : report.events.toNat = eventCount.toNat - left path engine := by
      have hlt := eventCount.toNat_lt
      rw [hevents, UInt64.toNat_ofNat_of_lt' (show _ < 2 ^ 64 by omega)]
    refine ⟨report, hanswer, ⟨(Except.ok.inj hinput).symm, ?_, hsamples, ?_, hdropped⟩, hengine⟩
    · omega
    · rw [hcount, hchecksum]
  · rw [hstored, hread] at hunread
    exact absurd rfl (hunread _)

theorem exists_replays (J : JsonLibrary)
    (queues : Engine → BoundedFifo.{0, u} Trade queueCapacity) (files : Bytes → Option Bytes)
    (operations : Operations) :
    ∃ replay, Replays J queues files (fun _ _ => 0) { operations with replay := replay } := by
  have hanswer (path : Bytes) (engine : Engine) : ∃ answer events r,
      Replay.run J (queues engine) (Replay.start (queues engine) "" (files path)) events =
          some r ∧ r.system.producer = .joined ∧ r.system.leftover = 0 ∧
        Answers answer (r.result engine.name 0) := by
    obtain ⟨steps, s, hreplayed, hconsumed⟩ := System.exists_consuming (F := queues engine)
      (by decide) (readCapture J "" (files path)).delivered
    obtain ⟨events, r, hrun, -, rfl, -⟩ := Replay.exists_run_of_replayed hreplayed
    have hleft := hreplayed.consumed_iff.1 hconsumed
    have hresult := Replay.result_of_run hrun hreplayed.joined engine.name 0
    cases houtcome : (readCapture J "" (files path)).outcome with
    | error what =>
      refine ⟨.error (ascii what), events, r, hrun, hreplayed.joined, hleft, what, ?_⟩
      rw [hresult, houtcome]
      rfl
    | ok input =>
      refine ⟨.ok (r.system.pipeline.report engine.name input 0), events, r, hrun,
        hreplayed.joined, hleft, ?_⟩
      rw [hresult, houtcome]
      rfl
  choose replay events r hrun hjoined hleft hanswers using hanswer
  exact ⟨replay, ⟨fun path engine => ⟨"", events path engine, r path engine, 0, hrun path engine,
    hjoined path engine, hleft path engine, hanswers path engine⟩⟩⟩

end Answered

section Session

theorem utf8_engineName (engine : Engine) : utf8 (ascii engine.name) = true := by
  cases engine <;> decide +kernel

theorem reportTexts (hversion : utf8 (ascii bengalVersion) = true) {engine : Engine}
    {report : ReplayReport} (h : report.engine = engine.name) :
    ReportTexts bengalVersion report :=
  ⟨hversion, h ▸ utf8_engineName engine⟩

variable {queues : Engine → BoundedFifo.{0, u} Trade queueCapacity}
  {files : Bytes → Option Bytes} {left : Bytes → Engine → Nat} {productId path file : Bytes}
  {eventCount : UInt64} {bengal standard : ReplayReport}

theorem replay_exit (version : String) (hindents : J.Indents dumpIndented)
    (horder : ∀ v, (order v).Perm v) (hpath : path ≠ []) {engine : Engine}
    (hanswer : operations.replay path engine = .ok bengal)
    (htexts : ReportTexts bengalVersion bengal) :
    ∃ text, main dumpIndented bengalVersion version operations order (replayWords path engine) =
        { calls := [.replay path engine], standardOutput := text, code := replayCode bengal } ∧
      J.parse text = some (reportRead bengalVersion bengal) := by
  obtain ⟨text, htext, hparse⟩ := reportJson_spec hindents htexts
  refine ⟨text ++ [0x0A], ?_, hparse⟩
  rw [main_replayWords _ _ horder hpath, hanswer, Result.exit]
  simp only [bind, Except.bind, htext, printed]

theorem compare_exit (version : String) (hindents : J.Indents dumpIndented)
    (horder : ∀ v, (order v).Perm v) (hpath : path ≠ [])
    (hbengal : operations.replay path .bengal = .ok bengal)
    (hstandard : operations.replay path .standard = .ok standard)
    (htexts : ReportTexts bengalVersion bengal) (htexts' : ReportTexts bengalVersion standard) :
    ∃ text, main dumpIndented bengalVersion version operations order (compareWords path) =
        { calls := [.replay path .bengal, .replay path .standard], standardOutput := text
          code := if reportsComparable bengal standard then 0 else 1 } ∧
      J.parse text = some (comparisonRead bengalVersion bengal standard) := by
  obtain ⟨text, htext, hparse⟩ := comparisonJson_spec hindents htexts htexts'
  refine ⟨text ++ [0x0A], ?_, hparse⟩
  rw [main_compareWords _ horder]
  simp only [compare, required_input _ hpath, hbengal, hstandard, bind, Except.bind, htext]
  rfl

theorem ReportsOn.comparable_iff {file : Option Bytes} {n n' : Nat}
    (h : ReportsOn J file n bengal) (h' : ReportsOn J file n' standard)
    (hlength : (readCapture J "" file).delivered.length < 2 ^ 64) :
    reportsComparable bengal standard = true ↔ bengal.input.parseErrors = 0 ∧ n = n' := by
  have hinput : bengal.input = standard.input := Except.ok.inj (h.read.symm.trans h'.read)
  have hevents : bengal.events = standard.events ↔ n = n' := by
    have hle := h.left_le
    have hle' := h'.left_le
    rw [h.events, h'.events, ← UInt64.toNat_inj,
      UInt64.toNat_ofNat_of_lt' (show _ < 2 ^ 64 by omega),
      UInt64.toNat_ofNat_of_lt' (show _ < 2 ^ 64 by omega)]
    omega
  have hchecksum : n = n' → bengal.checksum = standard.checksum := by
    rintro rfl
    rw [h.checksum, h'.checksum]
  simp only [reportsComparable, ← hinput, h.samples, h'.samples, h.dropped, h'.dropped,
    beq_self_eq_true, Bool.true_and, Bool.and_true, Bool.and_eq_true, beq_iff_eq, hevents]
  exact ⟨fun h => ⟨h.1.1.1, h.1.2⟩, fun h => ⟨⟨⟨h.1, h.1⟩, h.2⟩, hchecksum h.2⟩⟩

theorem ReportsOn.replayCode {file : Option Bytes} {n : Nat} (h : ReportsOn J file n bengal) :
    replayCode bengal = if bengal.input.parseErrors = 0 then 0 else 1 := by
  simp [Cli.replayCode, h.dropped]

def queuesOf : Engine → BoundedFifo.{0, 0} Trade queueCapacity
  | .bengal => System.referenceQueue
  | .standard => StandardSpscQueue.toBoundedFifo Trade queueCapacity

def storing (replay : Bytes → Engine → Except Bytes ReplayReport) : Operations :=
  { failing with generateFixture := fun _ _ _ => .ok (), replay := replay }

def runStoring (replay : Bytes → Engine → Except Bytes ReplayReport) : List Bytes → Exit :=
  @main .reference JsonLibrary.referenceIndented "1.0.0" "0.2.0" (storing replay) id

theorem read_session (version : String) (hindents : J.Indents dumpIndented)
    (horder : ∀ v, (order v).Perm v) (hversion : utf8 (ascii bengalVersion) = true)
    (hpath : path ≠ []) (hreplays : Replays J queues files left operations)
    (hlength : (readCapture J "" (files path)).delivered.length < 2 ^ 64) {metrics : ParseMetrics}
    (hread : (readCapture J "" (files path)).outcome = .ok metrics) :
    (∀ engine, ∃ report text, ReportsOn J (files path) (left path engine) report ∧
        report.engine = engine.name ∧
        main dumpIndented bengalVersion version operations order (replayWords path engine) =
          { calls := [.replay path engine], standardOutput := text
            code := if metrics.parseErrors = 0 then 0 else 1 } ∧
        J.parse text = some (reportRead bengalVersion report)) ∧
      ∃ bengal standard text, ReportsOn J (files path) (left path .bengal) bengal ∧
        ReportsOn J (files path) (left path .standard) standard ∧
        main dumpIndented bengalVersion version operations order (compareWords path) =
          { calls := [.replay path .bengal, .replay path .standard], standardOutput := text
            code := if metrics.parseErrors = 0 ∧ left path .bengal = left path .standard
              then 0 else 1 } ∧
        J.parse text = some (comparisonRead bengalVersion bengal standard) := by
  have hanswers (engine : Engine) : ∃ report, operations.replay path engine = .ok report ∧
      report.engine = engine.name ∧ ReportsOn J (files path) (left path engine) report := by
    rcases replay_cases hreplays path engine with hanswer | ⟨-, hunread⟩
    · exact hanswer
    · exact absurd hread (hunread metrics)
  have hinput {n : Nat} {report : ReplayReport} (h : ReportsOn J (files path) n report) :
      report.input = metrics := Except.ok.inj (h.read.symm.trans hread)
  refine ⟨fun engine => ?_, ?_⟩
  · obtain ⟨report, hanswer, hengine, hon⟩ := hanswers engine
    obtain ⟨text, hexit, hparse⟩ := replay_exit version hindents horder hpath hanswer
      (reportTexts hversion hengine)
    rw [hon.replayCode, hinput hon] at hexit
    exact ⟨report, text, hon, hengine, hexit, hparse⟩
  · obtain ⟨bengal, hbengal, hengine, hon⟩ := hanswers .bengal
    obtain ⟨standard, hstandard, hengine', hon'⟩ := hanswers .standard
    obtain ⟨text, hexit, hparse⟩ := compare_exit version hindents horder hpath hbengal hstandard
      (reportTexts hversion hengine) (reportTexts hversion hengine')
    simp only [hon.comparable_iff hon' hlength, hinput hon] at hexit
    exact ⟨bengal, standard, text, hon, hon', hexit, hparse⟩

theorem unread_session (version : String) (horder : ∀ v, (order v).Perm v) (hpath : path ≠ [])
    (hreplays : Replays J queues files left operations)
    (hunread : ∀ metrics, (readCapture J "" (files path)).outcome ≠ .ok metrics) :
    (∀ engine, ∃ what,
        main dumpIndented bengalVersion version operations order (replayWords path engine) =
          thrown [.replay path engine] what) ∧
      ∃ what, main dumpIndented bengalVersion version operations order (compareWords path) =
        thrown [.replay path .bengal] what := by
  have hanswers (engine : Engine) : ∃ what, operations.replay path engine = .error what := by
    rcases replay_cases hreplays path engine with ⟨report, -, -, hon⟩ | ⟨hanswer, -⟩
    · exact absurd hon.read (hunread _)
    · exact hanswer
  refine ⟨fun engine => ?_, ?_⟩
  · obtain ⟨what, hanswer⟩ := hanswers engine
    refine ⟨what, ?_⟩
    rw [main_replayWords _ _ horder hpath, hanswer]
    rfl
  · obtain ⟨what, hanswer⟩ := hanswers .bengal
    refine ⟨what, ?_⟩
    rw [main_compareWords _ horder]
    simp only [compare, required_input _ hpath, hanswer]
    rfl

/-- On a capture that is read without an exception `replay` succeeds exactly if there is no parse
error, and `compare` exactly if moreover the two engines leave equally many trades behind.  On any
other capture both report the exception. -/
theorem capture_session (hindents : J.Indents dumpIndented) (horder : ∀ v, (order v).Perm v)
    (hversion : utf8 (ascii bengalVersion) = true) (hpath : path ≠ [])
    (hreplays : Replays J queues files left operations)
    (hlength : (readCapture J "" (files path)).delivered.length < 2 ^ 64) :
    (∀ metrics, (readCapture J "" (files path)).outcome = .ok metrics →
        (∀ engine, ∃ report text, ReportsOn J (files path) (left path engine) report ∧
          report.engine = engine.name ∧
          main dumpIndented bengalVersion version operations order (replayWords path engine) =
            { calls := [.replay path engine], standardOutput := text
              code := if metrics.parseErrors = 0 then 0 else 1 } ∧
          J.parse text = some (reportRead bengalVersion report)) ∧
        ∃ bengal standard text, ReportsOn J (files path) (left path .bengal) bengal ∧
          ReportsOn J (files path) (left path .standard) standard ∧
          main dumpIndented bengalVersion version operations order (compareWords path) =
            { calls := [.replay path .bengal, .replay path .standard], standardOutput := text
              code := if metrics.parseErrors = 0 ∧ left path .bengal = left path .standard
                then 0 else 1 } ∧
          J.parse text = some (comparisonRead bengalVersion bengal standard)) ∧
      ((∀ metrics, (readCapture J "" (files path)).outcome ≠ .ok metrics) →
        (∀ engine, ∃ what,
          main dumpIndented bengalVersion version operations order (replayWords path engine) =
            thrown [.replay path engine] what) ∧
        ∃ what, main dumpIndented bengalVersion version operations order (compareWords path) =
          thrown [.replay path .bengal] what) :=
  ⟨fun _ hread => read_session version hindents horder hversion hpath hreplays hlength hread,
    unread_session version horder hpath hreplays⟩

theorem capture_session_three :
    ∃ file replay bengal standard text,
      Replays .reference queuesOf (fun _ => some file) (fun _ _ => 0) (storing replay) ∧
      runStoring replay (compareWords [0x66]) =
        { calls := [.replay [0x66] .bengal, .replay [0x66] .standard], standardOutput := text
          code := 0 } ∧
      JsonLibrary.reference.parse text = some (comparisonRead "1.0.0" bengal standard) := by
  obtain ⟨file, trades, -, ⟨hlength, -⟩, hread⟩ := @exists_trades [0x42, 0x54, 0x43] .reference
    JsonLibrary.reference_lawful 3 (by decide) (by decide) (by decide) (by decide) "f"
  obtain ⟨replay, hreplays⟩ :=
    exists_replays .reference queuesOf (fun _ => some file) (storing failing.replay)
  have hshort : (readCapture .reference "" (some file)).delivered.length < 2 ^ 64 := by
    rw [hread, hlength]
    decide
  obtain ⟨-, bengal, standard, text, -, -, hexit, hparse⟩ :=
    (@capture_session .reference JsonLibrary.referenceIndented "1.0.0" "0.2.0" (storing replay) id
      queuesOf (fun _ => some file) (fun _ _ => 0) [0x66] JsonLibrary.reference_indents
      (fun _ => .refl _) (by decide) (List.cons_ne_nil 0x66 []) hreplays hshort).1 _
      (by rw [hread])
  exact ⟨file, replay, bengal, standard, text, hreplays, hexit, hparse⟩

theorem replayCode_of_reports {trades : List Trade} {n : Nat}
    (h : Reports trades eventCount n bengal) : replayCode bengal = 0 := by
  simp [replayCode, h.input, h.dropped]

/-- What the operations do for `generate` is what the generator does with a stream to the device of
the path. -/
structure Generates (J : JsonLibrary) (p : Policy) (device : Device) (output : String)
    (files : Bytes → Option Bytes) (operations : Operations) (path : Bytes) (eventCount : UInt64)
    (productId : Bytes) : Prop where
  refused : (streamFixture J p device output eventCount productId).error ≠ none →
    ∃ what, operations.generateFixture path eventCount productId = .error what
  written : (streamFixture J p device output eventCount productId).error = none →
    operations.generateFixture path eventCount productId = .ok () ∧
      files path = (streamFixture J p device output eventCount productId).file

/-- `generate` reports an exception, or what the device accepts of the fixture is on file.  Unless
the device stops in the tail that was still in the buffer when the stream was tested, `replay`
succeeds on it, and `compare` exactly if the two engines leave equally many trades behind. -/
theorem fixture_session (hJ : J.Lawful) (hindents : J.Indents dumpIndented)
    (horder : ∀ v, (order v).Perm v) (hversion : utf8 (ascii bengalVersion) = true)
    (hpath : path ≠ []) {p : Policy} {device : Device} {output : String}
    (hgenerates : Generates J p device output files operations path eventCount productId)
    (hreplays : Replays J queues files left operations) :
    (∃ what, main dumpIndented bengalVersion version operations order
          (generateWords path productId eventCount) =
        thrown [.generate path eventCount productId] what) ∨
      main dumpIndented bengalVersion version operations order
          (generateWords path productId eventCount) =
        { calls := [.generate path eventCount productId], code := 0 } ∧
      ∃ chunks, fixtureChunks J eventCount productId = .ok chunks ∧
        files path = some (chunks.flatten.take device.room) ∧
        (¬ Cut p device.room chunks →
          ∃ trades : List Trade, (trades.length = eventCount.toNat ∧
              ∀ (index : Nat) (h : index < trades.length),
                Generated productId index trades[index]) ∧
            (∀ engine, ∃ report text, Reports trades eventCount (left path engine) report ∧
              report.engine = engine.name ∧
              main dumpIndented bengalVersion version operations order (replayWords path engine) =
                { calls := [.replay path engine], standardOutput := text, code := 0 } ∧
              J.parse text = some (reportRead bengalVersion report)) ∧
            ∃ bengal standard text, Reports trades eventCount (left path .bengal) bengal ∧
              Reports trades eventCount (left path .standard) standard ∧
              main dumpIndented bengalVersion version operations order (compareWords path) =
                { calls := [.replay path .bengal, .replay path .standard], standardOutput := text
                  code := if left path .bengal = left path .standard then 0 else 1 } ∧
              J.parse text = some (comparisonRead bengalVersion bengal standard)) := by
  have hexit : main dumpIndented bengalVersion version operations order
      (generateWords path productId eventCount) = _ :=
    main_generateWords path productId eventCount horder hpath
  by_cases herror : (streamFixture J p device output eventCount productId).error = none
  · obtain ⟨hdone, hstored⟩ := hgenerates.written herror
    obtain ⟨haccepted, chunks, hchunks, hhanded, hfile⟩ := Fixture.streamFixture_eq_none_iff.1 herror
    rw [hdone] at hexit
    rw [hfile] at hstored
    refine Or.inr ⟨hexit, chunks, hchunks, hstored, fun hcut => ?_⟩
    have hfits : chunks.flatten.length ≤ device.room :=
      Nat.le_of_not_lt fun hroom => hcut ⟨hhanded, hroom⟩
    rw [List.take_of_length_le hfits] at hstored
    have ⟨hcount, hproduct, hlength, _⟩ := haccepted
    have hevents : 1 ≤ eventCount.toNat :=
      Nat.pos_of_ne_zero fun hzero => hcount (UInt64.toNat_inj.1 hzero)
    obtain ⟨file, trades, hgenerated, htrades, hread⟩ := exists_trades hJ hevents
      (List.length_pos_of_ne_nil hproduct) hlength (Fixture.utf8_of_fixtureChunks hJ hchunks) output
    rw [@Fixture.generateFixture_eq_flatten J device _ _ _ haccepted, hchunks] at hgenerated
    obtain rfl := Except.ok.inj hgenerated
    have hreports := hreplays.reports htrades.1 hstored (hread "")
    refine ⟨trades, htrades, fun engine => ?_, ?_⟩
    · obtain ⟨report, hanswer, hreport, hengine⟩ := hreports engine
      obtain ⟨text, hexit, hparse⟩ := replay_exit version hindents horder hpath hanswer
        (reportTexts hversion hengine)
      rw [replayCode_of_reports hreport] at hexit
      exact ⟨report, text, hreport, hengine, hexit, hparse⟩
    · obtain ⟨bengal, hbengal, hreport, hengine⟩ := hreports .bengal
      obtain ⟨standard, hstandard, hreport', hengine'⟩ := hreports .standard
      obtain ⟨text, hexit, hparse⟩ := compare_exit version hindents horder hpath hbengal hstandard
        (reportTexts hversion hengine) (reportTexts hversion hengine')
      simp only [hreport.comparable_iff hreport'] at hexit
      exact ⟨bengal, standard, text, hreport, hreport', hexit, hparse⟩
  · obtain ⟨what, hwhat⟩ := hgenerates.refused herror
    rw [hwhat] at hexit
    exact Or.inl ⟨what, hexit⟩

theorem fixture_session_three :
    ∃ file replay bengal standard text,
      Replays .reference queuesOf (fun _ => some file) (fun _ _ => 0) (storing replay) ∧
      runStoring replay (generateWords [0x66] [0x42, 0x54, 0x43] 3) =
        { calls := [.generate [0x66] 3 [0x42, 0x54, 0x43]], code := 0 } ∧
      runStoring replay (compareWords [0x66]) =
        { calls := [.replay [0x66] .bengal, .replay [0x66] .standard], standardOutput := text
          code := 0 } ∧
      JsonLibrary.reference.parse text = some (comparisonRead "1.0.0" bengal standard) := by
  have hchunks := @Fixture.fixtureChunks_eq [0x42, 0x54, 0x43] .reference
    JsonLibrary.reference_lawful (by decide) 3
  generalize Fixture.chunksOf _ = chunks at hchunks
  have haccepted : Fixture.Accepted { room := chunks.flatten.length } 3 [0x42, 0x54, 0x43] :=
    ⟨by decide, by decide, by decide, rfl⟩
  have hstream := @Fixture.streamFixture_of_ok .reference (.upTo 8192) _ "f" _ _ haccepted _ hchunks
  rw [if_pos (BufferedOutput.handed_le _ _), List.take_length] at hstream
  obtain ⟨replay, hreplays⟩ := exists_replays .reference queuesOf
    (fun _ => some chunks.flatten) (storing failing.replay)
  have hsession := @fixture_session .reference JsonLibrary.referenceIndented "1.0.0" "0.2.0"
    (storing replay) id queuesOf (fun _ => some chunks.flatten) (fun _ _ => 0)
    [0x42, 0x54, 0x43] [0x66] 3
    JsonLibrary.reference_lawful JsonLibrary.reference_indents (fun _ => .refl _) (by decide)
    (List.cons_ne_nil 0x66 []) (.upTo 8192) { room := chunks.flatten.length } "f"
    ⟨fun h => absurd (by rw [hstream]) h, fun _ => ⟨rfl, by rw [hstream]⟩⟩ hreplays
  rcases hsession with ⟨what, hwhat⟩ | ⟨hgenerate, written, hwritten, -, hrest⟩
  · have hexit : runStoring replay (generateWords [0x66] [0x42, 0x54, 0x43] 3) = _ :=
      main_generateWords _ _ _ (fun _ => .refl _) (List.cons_ne_nil 0x66 [])
    have hcode : (2 : UInt64) = 0 := congrArg Exit.code (hwhat.symm.trans hexit)
    exact absurd hcode (by decide)
  · obtain rfl := Except.ok.inj (hchunks.symm.trans hwritten)
    obtain ⟨-, -, -, bengal, standard, text, -, -, hcompare, hparse⟩ :=
      hrest fun hcut => absurd hcut.2 (Nat.lt_irrefl _)
    exact ⟨_, replay, bengal, standard, text, hreplays, hgenerate, hcompare, hparse⟩

end Session

end Sessions

end BengalMarket.Cli
