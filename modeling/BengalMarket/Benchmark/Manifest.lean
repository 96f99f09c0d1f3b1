import BengalMarket.Benchmark.Distribution
import BengalMarket.Benchmark.Schedule
import BengalMarket.Library.JsonUtf8
import BengalMarket.Pipeline.Report

namespace BengalMarket.Benchmark

open Directories (Path)
open JsonText

structure Sha256 where
  output : Bytes
  valid : validDigest output = true

def Sha256.text (digest : Sha256) : Bytes := digest.output.take 64

theorem Sha256.digits (digest : Sha256) : digest.text.all isDigestByte = true := by
  have hvalid := digest.valid
  rw [validDigest, Bool.and_eq_true] at hvalid
  exact hvalid.2

structure Environment where
  operatingSystem : Bytes
  kernelRelease : Bytes
  architecture : Bytes
  cpuModel : Bytes
  logicalCpus : UInt64
  memoryBytes : UInt64
  scalingGovernor : Bytes
  compiler : Bytes

/-- What goes into the manifest besides the constants; `fixtureName` is the name of the input
without its directory. -/
structure Manifest where
  createdAtUtc : Bytes
  version : Bytes
  sourceRevision : Bytes
  bengalVersion : Bytes
  executableSha256 : Sha256
  options : Options
  fixtureName : Bytes
  sizeBytes : UInt64
  sha256 : Sha256
  environment : Environment
  comparable : Bool
  bengal : Summary
  standard : Summary

def genericString (path : Path) : Bytes := ascii ("/".intercalate path)

section Values

variable {Double : Type}

def distributionValue (d : Distribution) : Json Double := .object [
  (ascii "max", .unsigned d.max),
  (ascii "median", .unsigned d.median),
  (ascii "min", .unsigned d.min),
  (ascii "p25", .unsigned d.p25),
  (ascii "p75", .unsigned d.p75),
  (ascii "p95", .unsigned d.p95),
  (ascii "samples", .unsigned d.samples)]

def summaryValue (s : Summary) : Json Double := .object [
  (ascii "backpressure", distributionValue s.backpressure),
  (ascii "elapsed_ns", distributionValue s.elapsedNs),
  (ascii "stage_latency_p50_ns", distributionValue s.stageLatencyP50Ns),
  (ascii "stage_latency_p95_ns", distributionValue s.stageLatencyP95Ns),
  (ascii "stage_latency_p99_ns", distributionValue s.stageLatencyP99Ns)]

def runValue (r : Measured) : Json Double := .object [
  (ascii "engine", .string (ascii r.engine)),
  (ascii "iteration", .unsigned (UInt64.ofNat r.iteration)),
  (ascii "order", .unsigned (UInt64.ofNat r.order)),
  (ascii "report", .string (genericString r.report)),
  (ascii "stderr", .string (genericString r.error))]

def environmentValue (e : Environment) : Json Double := .object [
  (ascii "architecture", .string e.architecture),
  (ascii "compiler", .string e.compiler),
  (ascii "cpu_model", .string e.cpuModel),
  (ascii "kernel_release", .string e.kernelRelease),
  (ascii "logical_cpus", .unsigned e.logicalCpus),
  (ascii "memory_bytes", .unsigned e.memoryBytes),
  (ascii "operating_system", .string e.operatingSystem),
  (ascii "scaling_governor", .string e.scalingGovernor)]

def toolValue (m : Manifest) : Json Double := .object [
  (ascii "bengal_version", .string m.bengalVersion),
  (ascii "executable_sha256", .string m.executableSha256.text),
  (ascii "name", .string (ascii "bengal-market")),
  (ascii "source_revision", .string m.sourceRevision),
  (ascii "version", .string m.version)]

def optionsValue (options : Options) : Json Double := .object [
  (ascii "engine_order", .string (ascii "alternating")),
  (ascii "fresh_process_per_replay", .bool true),
  (ascii "runs", .unsigned (UInt64.ofNat options.runs)),
  (ascii "warmups", .unsigned (UInt64.ofNat options.warmups))]

def fixtureValue (m : Manifest) : Json Double := .object [
  (ascii "name", .string m.fixtureName),
  (ascii "sha256", .string m.sha256.text),
  (ascii "size_bytes", .unsigned m.sizeBytes)]

def enginesValue (m : Manifest) : Json Double := .object [
  (ascii "bengal", summaryValue m.bengal),
  (ascii "standard", summaryValue m.standard)]

def scope : Bytes := ascii ("Local bounded-pipeline measurements only; not exchange-to-client " ++
  "latency or financial performance.")

def manifestWith (schemaVersion : Json Double) (m : Manifest) : Json Double := .object [
  (ascii "benchmark", optionsValue m.options),
  (ascii "comparable", .bool m.comparable),
  (ascii "created_at_utc", .string m.createdAtUtc),
  (ascii "environment", environmentValue m.environment),
  (ascii "fixture", fixtureValue m),
  (ascii "runs", .array (m.options.measured.map runValue)),
  (ascii "schema_version", schemaVersion),
  (ascii "scope", .string scope),
  (ascii "summary", enginesValue m),
  (ascii "tool", toolValue m)]

def manifestValue (m : Manifest) : Json Double := manifestWith (.integer 1) m

/-- The manifest as a parser builds it. -/
def manifestRead (m : Manifest) : Json Double := manifestWith (.unsigned 1) m

theorem indented_manifestValue (step : Nat) (m : Manifest) :
    indented step (manifestValue m : Json Double) =
      indented step (manifestRead m : Json Double) := rfl

theorem at?_summaryValue (s : Summary) :
    (summaryValue s : Json Double).at? (ascii "elapsed_ns") =
      some (distributionValue s.elapsedNs) ∧
    (summaryValue s : Json Double).at? (ascii "stage_latency_p50_ns") =
      some (distributionValue s.stageLatencyP50Ns) ∧
    (summaryValue s : Json Double).at? (ascii "stage_latency_p95_ns") =
      some (distributionValue s.stageLatencyP95Ns) ∧
    (summaryValue s : Json Double).at? (ascii "stage_latency_p99_ns") =
      some (distributionValue s.stageLatencyP99Ns) ∧
    (summaryValue s : Json Double).at? (ascii "backpressure") =
      some (distributionValue s.backpressure) :=
  ⟨rfl, rfl, rfl, rfl, rfl⟩

theorem at?_enginesValue (m : Manifest) :
    (enginesValue m : Json Double).at? (ascii "bengal") = some (summaryValue m.bengal) ∧
    (enginesValue m : Json Double).at? (ascii "standard") = some (summaryValue m.standard) :=
  ⟨rfl, rfl⟩

end Values

section Names

def AsciiText (s : String) : Prop := ∀ c ∈ s.toList, c.toNat < 128

variable {s t : String}

-- of the list, not of all characters
instance : Decidable (AsciiText s) :=
  List.decidableBAll (fun c : Char => c.toNat < 128) s.toList

theorem toNat_toUInt8 {c : Char} (h : c.toNat < 128) : c.toUInt8.toNat = c.toNat := by
  change (c.val.toUInt8).toNat = c.val.toNat
  rw [UInt32.toNat_toUInt8]
  exact Nat.mod_eq_of_lt (Nat.lt_trans h (by decide))

theorem AsciiText.append (hs : AsciiText s) (ht : AsciiText t) : AsciiText (s ++ t) := by
  intro c hc
  rw [String.toList_append, List.mem_append] at hc
  exact hc.elim (hs c) (ht c)

theorem AsciiText.ascii (h : AsciiText s) : Ascii (ascii s) := by
  intro byte hbyte
  obtain ⟨c, hc, rfl⟩ := List.mem_map.1 hbyte
  rw [UInt8.lt_iff_toNat_lt, toNat_toUInt8 (h c hc)]
  exact h c hc

theorem AsciiText.toList_eq (h : AsciiText s) :
    (BengalMarket.ascii s).map (fun byte => Char.ofNat byte.toNat) = s.toList := by
  have hread : ∀ c ∈ s.toList, Char.ofNat c.toUInt8.toNat = c := fun c hc => by
    rw [toNat_toUInt8 (h c hc), Char.ofNat_toNat]
  rw [BengalMarket.ascii, List.map_map]
  exact (List.map_congr_left hread).trans (List.map_id _)

theorem ascii_injective (hs : AsciiText s) (ht : AsciiText t) (h : ascii s = ascii t) : s = t := by
  rw [← String.toList_inj, ← hs.toList_eq, h, ht.toList_eq]

theorem asciiText_padded (width value : Nat) : AsciiText (padded width value) := by
  obtain ⟨zeros, hlist⟩ := toList_padded width value
  intro c hc
  rw [hlist, List.mem_append] at hc
  rcases hc with hzero | hdigit
  · rw [List.eq_of_mem_replicate hzero]
    decide
  · have hc := Nat.isDigit_of_mem_toDigits (by decide) (by decide) hdigit
    simp only [Char.isDigit, Bool.and_eq_true, decide_eq_true_eq, ge_iff_le,
      UInt32.le_iff_toNat_le] at hc
    exact Nat.lt_of_le_of_lt hc.2 (by decide)

theorem asciiText_words : ∀ word ∈ ["run-", "warmup-", "-order-", "-", "runs", "/", "bengal",
    "standard", ".json", ".stderr.txt"], AsciiText word := by
  decide +kernel

theorem asciiText_stem (iteration order : Nat) (measured : Bool) (h : AsciiText s) :
    AsciiText (stem iteration order s measured) := by
  have hfront : AsciiText (if measured then "run-" else "warmup-") := by
    cases measured with
    | false => exact asciiText_words "warmup-" (by simp)
    | true => exact asciiText_words "run-" (by simp)
  exact ((((hfront.append (asciiText_padded _ _)).append
    (asciiText_words "-order-" (by simp))).append (asciiText_padded _ _)).append
      (asciiText_words "-" (by simp))).append h

variable {options : Options} {r r' : Measured}

theorem asciiText_engine (hr : r ∈ options.measured) : AsciiText r.engine := by
  rcases engine_of_mem hr with hengine | hengine <;> rw [hengine]
  · exact asciiText_words "bengal" (by simp)
  · exact asciiText_words "standard" (by simp)

theorem asciiText_below {suffix : String} (hsuffix : suffix ∈ [".json", ".stderr.txt"])
    (hr : r ∈ options.measured) : AsciiText ("/".intercalate ["runs", r.stem ++ suffix]) := by
  have hend : AsciiText suffix := by
    rcases List.mem_pair.1 hsuffix with rfl | rfl <;> exact asciiText_words _ (by simp)
  have hstem := (asciiText_stem r.iteration r.order true (asciiText_engine hr)).append hend
  have hdirectory := (asciiText_words "runs" (by simp)).append (asciiText_words "/" (by simp))
  exact hdirectory.append hstem

theorem ascii_genericString (hr : r ∈ options.measured) :
    Ascii (genericString r.report) ∧ Ascii (genericString r.error) :=
  ⟨(asciiText_below (by simp) hr).ascii, (asciiText_below (by simp) hr).ascii⟩

theorem genericString_injective (hr : r ∈ options.measured) (hr' : r' ∈ options.measured)
    (h : genericString r.report = genericString r'.report) : r = r' := by
  have htext := ascii_injective (asciiText_below (by simp) hr) (asciiText_below (by simp) hr') h
  have hlist : "runs/".toList ++ (r.stem ++ ".json").toList =
      "runs/".toList ++ (r'.stem ++ ".json").toList := by
    simpa using congrArg String.toList htext
  refine report_injective ?_
  rw [Measured.report, Measured.report, String.toList_inj.1 (List.append_cancel_left hlist)]

end Names

section Plain

variable {Double : Type} {checked parsed : Bool}

def distributionKeys : List String := ["max", "median", "min", "p25", "p75", "p95", "samples"]

def summaryKeys : List String := ["backpressure", "elapsed_ns", "stage_latency_p50_ns",
  "stage_latency_p95_ns", "stage_latency_p99_ns"]

def enginesKeys : List String := ["bengal", "standard"]

def runKeys : List String := ["engine", "iteration", "order", "report", "stderr"]

def environmentKeys : List String := ["architecture", "compiler", "cpu_model", "kernel_release",
  "logical_cpus", "memory_bytes", "operating_system", "scaling_governor"]

def toolKeys : List String :=
  ["bengal_version", "executable_sha256", "name", "source_revision", "version"]

def optionsKeys : List String := ["engine_order", "fresh_process_per_replay", "runs", "warmups"]

def fixtureKeys : List String := ["name", "sha256", "size_bytes"]

def manifestKeys : List String := ["benchmark", "comparable", "created_at_utc", "environment",
  "fixture", "runs", "schema_version", "scope", "summary", "tool"]

def allKeys : List (List String) := [distributionKeys, summaryKeys, enginesKeys, runKeys,
  environmentKeys, toolKeys, optionsKeys, fixtureKeys, manifestKeys]

theorem allKeys_spec : ∀ words ∈ allKeys, (words.map ascii).Pairwise (· < ·) ∧
    ∀ key ∈ words.map ascii, utf8 key = true := by
  decide +kernel

theorem plain_manifest_object {members : List (Bytes × Json Double)} (words : List String)
    (hwords : words ∈ allKeys) (hkeys : members.map Prod.fst = words.map ascii) :
    plain checked parsed (.object members) = true ↔
      ∀ member ∈ members, plain checked parsed member.2 = true :=
  plain_object_iff (allKeys_spec words hwords) hkeys

theorem utf8_constants : ∀ text ∈ [ascii "bengal-market", ascii "alternating", scope],
    utf8 text = true := by
  decide +kernel

theorem plain_distributionValue (d : Distribution) :
    plain checked parsed (distributionValue d : Json Double) = true := by
  rw [distributionValue, plain_manifest_object distributionKeys (by simp [allKeys]) rfl]
  simp [plain]

theorem plain_summaryValue (s : Summary) :
    plain checked parsed (summaryValue s : Json Double) = true := by
  rw [summaryValue, plain_manifest_object summaryKeys (by simp [allKeys]) rfl]
  simp [plain_distributionValue]

theorem plain_optionsValue (options : Options) :
    plain checked parsed (optionsValue options : Json Double) = true := by
  have hutf8 := utf8_constants (ascii "alternating") (by simp)
  rw [optionsValue, plain_manifest_object optionsKeys (by simp [allKeys]) rfl]
  simp [plain, hutf8]

def Environment.texts (e : Environment) : List Bytes :=
  [e.architecture, e.compiler, e.cpuModel, e.kernelRelease, e.operatingSystem, e.scalingGovernor]

def Manifest.texts (m : Manifest) : List Bytes := m.environment.texts ++
  [m.createdAtUtc, m.fixtureName, m.bengalVersion, m.sourceRevision, m.version]

def Manifest.Texts (m : Manifest) : Prop := ∀ text ∈ m.texts, utf8 text = true

theorem Sha256.utf8_text (digest : Sha256) : utf8 digest.text = true := by
  refine utf8_of_ascii fun byte hbyte => ?_
  have hdigit := List.all_eq_true.1 digest.digits byte hbyte
  simp only [isDigestByte, Bool.or_eq_true, Bool.and_eq_true, decide_eq_true_eq] at hdigit
  rcases hdigit with ⟨-, hle⟩ | ⟨-, hle⟩
  · exact UInt8.lt_of_le_of_lt hle (by decide)
  · exact UInt8.lt_of_le_of_lt hle (by decide)

theorem plain_environmentValue (e : Environment) :
    plain checked parsed (environmentValue e : Json Double) = true ↔
      (checked = true → ∀ text ∈ e.texts, utf8 text = true) := by
  rw [environmentValue, plain_manifest_object environmentKeys (by simp [allKeys]) rfl]
  cases checked <;> simp [plain, Environment.texts]

theorem plain_runValue {options : Options} {r : Measured} (hr : r ∈ options.measured) :
    plain checked parsed (runValue r : Json Double) = true := by
  obtain ⟨hreport, herror⟩ := ascii_genericString hr
  have hengine := utf8_of_ascii (asciiText_engine hr).ascii
  rw [runValue, plain_manifest_object runKeys (by simp [allKeys]) rfl]
  simp [plain, hengine, utf8_of_ascii hreport, utf8_of_ascii herror]

theorem plain_manifestWith {schemaVersion : Json Double}
    (hversion : plain checked parsed schemaVersion = true) (m : Manifest) :
    plain checked parsed (manifestWith schemaVersion m) = true ↔ (checked = true → m.Texts) := by
  have hname := utf8_constants (ascii "bengal-market") (by simp)
  have hscope := utf8_constants scope (by simp)
  have hruns : plain checked parsed (.array (m.options.measured.map runValue) : Json Double) =
      true := by
    rw [plain, plainElements_iff]
    rintro _ hvalue
    obtain ⟨r, hr, rfl⟩ := List.mem_map.1 hvalue
    exact plain_runValue hr
  have htool : plain checked parsed (toolValue m : Json Double) = true ↔ (checked = true →
      ∀ text ∈ [m.bengalVersion, m.sourceRevision, m.version], utf8 text = true) := by
    rw [toolValue, plain_manifest_object toolKeys (by simp [allKeys]) rfl]
    cases checked <;> simp [plain, hname, Sha256.utf8_text]
  have hfixture : plain checked parsed (fixtureValue m : Json Double) = true ↔
      (checked = true → utf8 m.fixtureName = true) := by
    rw [fixtureValue, plain_manifest_object fixtureKeys (by simp [allKeys]) rfl]
    cases checked <;> simp [plain, Sha256.utf8_text]
  have hsummary : plain checked parsed (enginesValue m : Json Double) = true := by
    rw [enginesValue, plain_manifest_object enginesKeys (by simp [allKeys]) rfl]
    simp [plain_summaryValue]
  rw [manifestWith, plain_manifest_object manifestKeys (by simp [allKeys]) rfl]
  simp only [List.forall_mem_cons, plain_optionsValue, hruns, hversion, hsummary, htool, hfixture,
    plain_environmentValue]
  cases checked
  · simp [plain]
  · simp [plain, hscope, Manifest.Texts, Manifest.texts, and_left_comm, or_imp,
      forall_and]

end Plain

section Reading

variable (J : JsonLibrary)

structure IndexEntry where
  iteration : UInt64
  order : UInt64
  engine : Bytes
  report : Bytes
  error : Bytes
  deriving DecidableEq

def readEntry (run : J.Value) : Option IndexEntry := do
  return {
    iteration := ← J.uint64? (← run.at? (ascii "iteration"))
    order := ← J.uint64? (← run.at? (ascii "order"))
    engine := ← (← run.at? (ascii "engine")).string?
    report := ← (← run.at? (ascii "report")).string?
    error := ← (← run.at? (ascii "stderr")).string? }

def readIndex (manifest : J.Value) : Option (List IndexEntry) := do
  (← manifest.at? (ascii "runs")).children.mapM (readEntry J)

def readDistribution (value : J.Value) : Option Distribution := do
  return {
    samples := ← J.uint64? (← value.at? (ascii "samples"))
    min := ← J.uint64? (← value.at? (ascii "min"))
    p25 := ← J.uint64? (← value.at? (ascii "p25"))
    median := ← J.uint64? (← value.at? (ascii "median"))
    p75 := ← J.uint64? (← value.at? (ascii "p75"))
    p95 := ← J.uint64? (← value.at? (ascii "p95"))
    max := ← J.uint64? (← value.at? (ascii "max")) }

def readSummary (summary : J.Value) : Option Summary := do
  return {
    elapsedNs := ← readDistribution J (← summary.at? (ascii "elapsed_ns"))
    stageLatencyP50Ns := ← readDistribution J (← summary.at? (ascii "stage_latency_p50_ns"))
    stageLatencyP95Ns := ← readDistribution J (← summary.at? (ascii "stage_latency_p95_ns"))
    stageLatencyP99Ns := ← readDistribution J (← summary.at? (ascii "stage_latency_p99_ns"))
    backpressure := ← readDistribution J (← summary.at? (ascii "backpressure")) }

def readEngine (manifest : J.Value) (engine : String) : Option Summary := do
  readSummary J (← (← manifest.at? (ascii "summary")).at? (ascii engine))

def Measured.entry (r : Measured) : IndexEntry where
  iteration := UInt64.ofNat r.iteration
  order := UInt64.ofNat r.order
  engine := ascii r.engine
  report := genericString r.report
  error := genericString r.error

@[simp] theorem Measured.report_entry (r : Measured) :
    r.entry.report = genericString r.report := by
  simp only [entry]

@[simp] theorem Measured.error_entry (r : Measured) : r.entry.error = genericString r.error := by
  simp only [entry]

@[simp] theorem Measured.engine_entry (r : Measured) : r.entry.engine = ascii r.engine := by
  simp only [entry]

variable {J} {dumpIndented : Nat → J.Value → Except String Bytes} {m : Manifest} {text : Bytes}

theorem readIndex_manifestRead :
    readIndex J (manifestRead m) = some (m.options.measured.map Measured.entry) := by
  have hruns : (manifestRead m : J.Value).at? (ascii "runs") =
      some (.array (m.options.measured.map runValue)) := rfl
  have hentries : (m.options.measured.map runValue).mapM (readEntry J) =
      some (m.options.measured.map Measured.entry) := by
    rw [List.mapM_map]
    exact mapM_eq_some_map fun _ _ => rfl
  rw [readIndex, hruns]
  exact hentries

theorem readDistribution_value (d : Distribution) :
    readDistribution J (distributionValue d) = some d := rfl

theorem readSummary_value (s : Summary) : readSummary J (summaryValue s) = some s := by
  obtain ⟨helapsed, hp50, hp95, hp99, hback⟩ := @at?_summaryValue J.Double s
  simp [readSummary, helapsed, hp50, hp95, hp99, hback, readDistribution_value]

theorem readEngine_manifestRead : readEngine J (manifestRead m) "bengal" = some m.bengal ∧
    readEngine J (manifestRead m) "standard" = some m.standard := by
  have hsummary : (manifestRead m : J.Value).at? (ascii "summary") = some (enginesValue m) := rfl
  obtain ⟨hbengal, hstandard⟩ := @at?_enginesValue J.Double m
  simp [readEngine, hsummary, hbengal, hstandard, readSummary_value]

theorem nodup_index (options : Options) :
    ((options.measured.map Measured.entry).map IndexEntry.report).Nodup := by
  rw [List.map_map]
  refine List.Nodup.map_on ?_ (nodup_measured options)
  intro r hr r' hr' h
  simp only [Function.comp_apply, Measured.report_entry] at h
  exact genericString_injective hr hr' h

variable (dumpIndented)

def manifestText (m : Manifest) : Except String Bytes := do
  let text ← dumpIndented 2 (manifestValue m)
  return text ++ [0x0A]

variable {dumpIndented}

theorem manifestText_eq_ok_iff (hJ : J.Indents dumpIndented) :
    manifestText dumpIndented m = .ok text ↔
      m.Texts ∧ text = indented 2 (manifestRead m : J.Value) ++ [0x0A] := by
  have hprintable : printable (manifestValue m : J.Value) = true ↔ m.Texts := by
    rw [printable, manifestValue, plain_manifestWith rfl]
    simp
  have hdouble : doubleFree (manifestValue m : J.Value) = true :=
    (plain_manifestWith rfl m).2 fun h => absurd h Bool.false_ne_true
  by_cases htexts : m.Texts
  · rw [manifestText, hJ.dump 2 _ (hprintable.2 htexts), indented_manifestValue]
    simp [htexts, bind, Except.bind, pure, Except.pure, eq_comm]
  · obtain ⟨what, hwhat⟩ := hJ.refuse 2 _ hdouble (Bool.eq_false_iff.2 (mt hprintable.1 htexts))
    rw [manifestText, hwhat]
    simp [htexts, bind, Except.bind]

theorem parse_manifestText (hJ : J.Indents dumpIndented)
    (h : manifestText dumpIndented m = .ok text) : J.parse text = some (manifestRead m) := by
  obtain ⟨htexts, rfl⟩ := (manifestText_eq_ok_iff hJ).1 h
  have hcanonical : canonical (manifestRead m : J.Value) = true :=
    (plain_manifestWith rfl m).2 fun _ => htexts
  refine hJ.parse 2 _ _ hcanonical fun byte hbyte => ?_
  rw [List.mem_singleton.1 hbyte]
  rfl

end Reading

end BengalMarket.Benchmark
