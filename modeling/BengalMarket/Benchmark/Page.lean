import BengalMarket.Benchmark.Manifest
import BengalMarket.Library.JsonParser

namespace BengalMarket.Benchmark

open JsonText Template

section Pages

def htmlEscapeByte (value : UInt8) : Bytes :=
  if value = 0x26 then ascii "&amp;"
  else if value = 0x3C then ascii "&lt;"
  else if value = 0x3E then ascii "&gt;"
  else if value = 0x22 then ascii "&quot;"
  else [value]

def htmlEscape (input : Bytes) : Bytes := input.flatMap htmlEscapeByte

variable (J : JsonLibrary)

/-- What a stream prints for a value; `none` is an exception. -/
def shown (value : J.Value) : Option Bytes := (J.dump value).toOption

def row (label : String) (left right : J.Value) : Option Bytes := do
  let leftMedian ← shown J (← left.at? (ascii "median"))
  let leftP25 ← shown J (← left.at? (ascii "p25"))
  let leftP75 ← shown J (← left.at? (ascii "p75"))
  let rightMedian ← shown J (← right.at? (ascii "median"))
  let rightP25 ← shown J (← right.at? (ascii "p25"))
  let rightP75 ← shown J (← right.at? (ascii "p75"))
  return ascii ("<tr><th>" ++ label ++ "</th><td>") ++
    leftMedian ++ ascii "</td><td>" ++ leftP25 ++ ascii " - " ++ leftP75 ++ ascii "</td><td>" ++
    rightMedian ++ ascii "</td><td>" ++ rightP25 ++ ascii " - " ++ rightP75 ++
    ascii "</td></tr>"

/-- A rule of the style sheet: its declarations stand in braces. -/
def styleRule (selector declarations : String) : String :=
  selector ++ "\x7b" ++ declarations ++ "\x7d"

def pageHead : Bytes := ascii (
  "<!doctype html><html lang=\"en\"><head><meta charset=\"utf-8\">" ++
  "<meta name=\"viewport\" content=\"width=device-width,initial-scale=1\">" ++
  "<title>Bengal Market benchmark report</title><style>" ++
  styleRule "body" ("font:15px system-ui,sans-serif;max-width:960px;margin:40px " ++
    "auto;padding:0 20px;color:#171717") ++
  styleRule "table" "border-collapse:collapse;width:100%" ++
  styleRule "th,td" "border:1px solid #bbb;padding:8px;text-align:right" ++
  styleRule "th:first-child" "text-align:left" ++
  styleRule "code" "background:#eee;padding:2px 4px" ++
  styleRule ".ok" "color:#126b2f" ++ styleRule ".bad" "color:#9b1c1c" ++
  "</style></head><body>" ++
  "<h1>Bengal Market benchmark report</h1><p>Fixture: <code>")

def pageTable : Bytes := ascii (
  "</p><table><thead><tr><th>Metric</th>" ++
  "<th>Bengal median</th><th>Bengal p25 - p75</th>" ++
  "<th>Standard median</th><th>Standard p25 - p75</th>" ++
  "</tr></thead><tbody>")

def pageFoot : Bytes := ascii (
  "</tbody></table><p>These are local bounded-pipeline measurements, " ++
  "not exchange-to-client latency or financial performance.</p>" ++
  "</body></html>\n")

def htmlReport (manifest : J.Value) : Option Bytes := do
  let bengal ← (← manifest.at? (ascii "summary")).at? (ascii "bengal")
  let standard ← (← manifest.at? (ascii "summary")).at? (ascii "standard")
  let digest ← (← (← manifest.at? (ascii "fixture")).at? (ascii "sha256")).string?
  let runs ← shown J (← (← manifest.at? (ascii "benchmark")).at? (ascii "runs"))
  let warmups ← shown J (← (← manifest.at? (ascii "benchmark")).at? (ascii "warmups"))
  let comparable ← (← manifest.at? (ascii "comparable")).bool?
  let elapsed ← row J "Elapsed ns" (← bengal.at? (ascii "elapsed_ns"))
    (← standard.at? (ascii "elapsed_ns"))
  let p50 ← row J "Stage p50 ns" (← bengal.at? (ascii "stage_latency_p50_ns"))
    (← standard.at? (ascii "stage_latency_p50_ns"))
  let p95 ← row J "Stage p95 ns" (← bengal.at? (ascii "stage_latency_p95_ns"))
    (← standard.at? (ascii "stage_latency_p95_ns"))
  let p99 ← row J "Stage p99 ns" (← bengal.at? (ascii "stage_latency_p99_ns"))
    (← standard.at? (ascii "stage_latency_p99_ns"))
  return pageHead ++ htmlEscape digest ++ ascii "</code></p><p>Measured pairs: " ++ runs ++
    ascii "; warm-up pairs: " ++ warmups ++ ascii "</p><p class=\"" ++
    (if comparable then ascii "ok" else ascii "bad") ++ ascii "\">Comparable: " ++
    (if comparable then ascii "yes" else ascii "no") ++ pageTable ++
    elapsed ++ p50 ++ p95 ++ p99 ++ pageFoot

end Pages

section Shown

structure Quartiles where
  median : UInt64
  p25 : UInt64
  p75 : UInt64
  deriving DecidableEq

def Distribution.quartiles (d : Distribution) : Quartiles := ⟨d.median, d.p25, d.p75⟩

@[ext] structure PageData where
  digest : Bytes
  runs : UInt64
  warmups : UInt64
  comparable : Bool
  elapsed : Quartiles × Quartiles
  p50 : Quartiles × Quartiles
  p95 : Quartiles × Quartiles
  p99 : Quartiles × Quartiles
  deriving DecidableEq

def Manifest.page (m : Manifest) : PageData where
  digest := m.sha256.text
  runs := UInt64.ofNat m.options.runs
  warmups := UInt64.ofNat m.options.warmups
  comparable := m.comparable
  elapsed := (m.bengal.elapsedNs.quartiles, m.standard.elapsedNs.quartiles)
  p50 := (m.bengal.stageLatencyP50Ns.quartiles, m.standard.stageLatencyP50Ns.quartiles)
  p95 := (m.bengal.stageLatencyP95Ns.quartiles, m.standard.stageLatencyP95Ns.quartiles)
  p99 := (m.bengal.stageLatencyP99Ns.quartiles, m.standard.stageLatencyP99Ns.quartiles)

def cells (q : Quartiles × Quartiles) : List Bytes :=
  [q.1.median, q.1.p25, q.1.p75, q.2.median, q.2.p25, q.2.p75].map fun n =>
    Decimal.text n.toNat

def rowTemplate : List Bytes := [ascii "</td><td>", ascii " - ", ascii "</td><td>",
  ascii "</td><td>", ascii " - ", ascii "</td></tr>"]

def rowText (label : String) (q : Quartiles × Quartiles) : Bytes :=
  ascii ("<tr><th>" ++ label ++ "</th><td>") ++ fill (cells q) rowTemplate

def PageData.summary (p : PageData) : List Bytes :=
  [p.digest, Decimal.text p.runs.toNat, Decimal.text p.warmups.toNat,
    if p.comparable then ascii "ok" else ascii "bad",
    if p.comparable then ascii "yes" else ascii "no"]

def pageTemplate : List Bytes := [ascii "</code></p><p>Measured pairs: ",
  ascii "; warm-up pairs: ", ascii "</p><p class=\"", ascii "\">Comparable: ", pageTable]

def PageData.text (p : PageData) : Bytes :=
  pageHead ++ (fill p.summary pageTemplate ++ (rowText "Elapsed ns" p.elapsed ++
    (rowText "Stage p50 ns" p.p50 ++ (rowText "Stage p95 ns" p.p95 ++
      (rowText "Stage p99 ns" p.p99 ++ pageFoot)))))

variable {J : JsonLibrary}

theorem shown_unsigned (hJ : J.Lawful) (n : UInt64) :
    shown J (.unsigned n) = some (Decimal.text n.toNat) := by
  rw [shown, hJ.dump (.unsigned n) rfl]
  rfl

theorem row_value (hJ : J.Lawful) (label : String) (left right : Distribution) :
    row J label (distributionValue left) (distributionValue right) =
      some (rowText label (left.quartiles, right.quartiles)) := by
  have hat (d : Distribution) :
      (distributionValue d : J.Value).at? (ascii "median") = some (.unsigned d.median) ∧
      (distributionValue d : J.Value).at? (ascii "p25") = some (.unsigned d.p25) ∧
      (distributionValue d : J.Value).at? (ascii "p75") = some (.unsigned d.p75) :=
    ⟨rfl, rfl, rfl⟩
  simp [row, hat, shown_unsigned hJ, rowText, fill, rowTemplate, cells, Distribution.quartiles]

def inside (byte : UInt8) : Bool := (0x30 ≤ byte && byte ≤ 0x39) || (0x61 ≤ byte && byte ≤ 0x7A)

theorem htmlEscape_eq_self {text : Bytes} (h : ∀ byte ∈ text, inside byte = true) :
    htmlEscape text = text := by
  have hspecial {special : UInt8} (hs : inside special = false) : ∀ byte ∈ text,
      byte ≠ special := by
    rintro byte hbyte rfl
    rw [h byte hbyte] at hs
    cases hs
  have hbyte : ∀ byte ∈ text, htmlEscapeByte byte = [byte] := fun byte hmem => by
    rw [htmlEscapeByte, if_neg (hspecial rfl byte hmem), if_neg (hspecial rfl byte hmem),
      if_neg (hspecial rfl byte hmem), if_neg (hspecial rfl byte hmem)]
  rw [htmlEscape, List.flatMap_congr hbyte, List.flatMap_singleton']

theorem inside_text {n : Nat} {byte : UInt8} (h : byte ∈ Decimal.text n) :
    inside byte = true := by
  have hdigit : (0x30 ≤ byte && byte ≤ 0x39) = true := Decimal.isDigit_of_mem_text h
  rw [inside, hdigit, Bool.true_or]

theorem Sha256.inside_text (digest : Sha256) : ∀ byte ∈ digest.text, inside byte = true := by
  intro byte hbyte
  have hdigit := List.all_eq_true.1 digest.digits byte hbyte
  simp only [isDigestByte, inside, Bool.or_eq_true, Bool.and_eq_true, decide_eq_true_eq] at hdigit ⊢
  exact hdigit.imp_right fun h => ⟨h.1, UInt8.le_trans h.2 (by decide)⟩

theorem separates_templates :
    Separates inside rowTemplate ∧ Separates inside pageTemplate := by
  decide +kernel

theorem some_bind {α β : Type} (a : α) (f : α → Option β) : some a >>= f = f a := rfl

theorem htmlReport_manifestWith (hJ : J.Lawful) (schemaVersion : J.Value) (m : Manifest) :
    htmlReport J (manifestWith schemaVersion m) = some m.page.text := by
  have hsummary : (manifestWith schemaVersion m).at? (ascii "summary") =
      some (enginesValue m) := rfl
  have hfixture : (manifestWith schemaVersion m).at? (ascii "fixture") =
      some (fixtureValue m) := rfl
  have hbenchmark : (manifestWith schemaVersion m).at? (ascii "benchmark") =
      some (optionsValue m.options) := rfl
  have hcomparable : (manifestWith schemaVersion m).at? (ascii "comparable") =
      some (.bool m.comparable) := rfl
  have hdigest : (fixtureValue m : J.Value).at? (ascii "sha256") =
      some (.string m.sha256.text) := rfl
  have hruns : (optionsValue m.options : J.Value).at? (ascii "runs") =
      some (.unsigned (UInt64.ofNat m.options.runs)) := rfl
  have hwarmups : (optionsValue m.options : J.Value).at? (ascii "warmups") =
      some (.unsigned (UInt64.ofNat m.options.warmups)) := rfl
  obtain ⟨hbengal, hstandard⟩ := @at?_enginesValue J.Double m
  obtain ⟨helapsed, hp50, hp95, hp99, -⟩ := @at?_summaryValue J.Double m.bengal
  obtain ⟨helapsed', hp50', hp95', hp99', -⟩ := @at?_summaryValue J.Double m.standard
  -- the accessors in the order of the source; none of them fails
  rw [htmlReport, hsummary, some_bind, hbengal, some_bind, some_bind, hstandard,
    some_bind, hfixture, some_bind, hdigest, some_bind, Json.string?,
    some_bind, hbenchmark, some_bind, hruns, some_bind, shown_unsigned hJ,
    some_bind, some_bind, hwarmups, some_bind, shown_unsigned hJ,
    some_bind, hcomparable, some_bind, Json.bool?, some_bind, helapsed,
    some_bind, helapsed', some_bind, row_value hJ, some_bind, hp50,
    some_bind, hp50', some_bind, row_value hJ, some_bind, hp95,
    some_bind, hp95', some_bind, row_value hJ, some_bind, hp99,
    some_bind, hp99', some_bind, row_value hJ, some_bind,
    htmlEscape_eq_self m.sha256.inside_text]
  simp only [PageData.text, PageData.summary, pageTemplate, fill, Manifest.page, List.append_assoc,
    List.append_nil]
  rfl

theorem text_injective {a b : UInt64} (h : Decimal.text a.toNat = Decimal.text b.toNat) :
    a = b := by
  rw [← UInt64.toNat_inj, ← Decimal.ofDigits_text a.toNat, h, Decimal.ofDigits_text]

theorem inside_cells (q : Quartiles × Quartiles) :
    ∀ value ∈ cells q, ∀ byte ∈ value, inside byte = true := by
  intro value hvalue byte hbyte
  obtain ⟨n, -, rfl⟩ := List.mem_map.1 hvalue
  exact inside_text hbyte

theorem cells_injective {q q' : Quartiles × Quartiles} (h : cells q = cells q') : q = q' := by
  obtain ⟨⟨median, p25, p75⟩, ⟨median₂, p25₂, p75₂⟩⟩ := q
  obtain ⟨⟨median', p25', p75'⟩, ⟨median₂', p25₂', p75₂'⟩⟩ := q'
  have hnumbers := List.map_injective_iff.2 (fun _ _ => text_injective) h
  simpa [and_assoc] using hnumbers

theorem rowText_append_inj {label : String} {q q' : Quartiles × Quartiles} {x y : Bytes}
    (h : rowText label q ++ x = rowText label q' ++ y) : q = q' ∧ x = y := by
  rw [rowText, rowText, List.append_assoc, List.append_assoc] at h
  obtain ⟨hvalues, hxy⟩ := fill_append_inj separates_templates.1 (inside_cells q)
    (inside_cells q') rfl rfl (List.append_cancel_left h)
  exact ⟨cells_injective hvalues, hxy⟩

theorem verdict_words :
    (∀ flag, ∀ byte ∈ (if flag = true then ascii "ok" else ascii "bad"), inside byte = true) ∧
      (∀ flag, ∀ byte ∈ (if flag = true then ascii "yes" else ascii "no"), inside byte = true) ∧
      ∀ flag flag', (if flag = true then ascii "ok" else ascii "bad") =
        (if flag' = true then ascii "ok" else ascii "bad") → flag = flag' := by
  decide +kernel

theorem inside_summary (m : Manifest) :
    ∀ value ∈ m.page.summary, ∀ byte ∈ value, inside byte = true := by
  obtain ⟨hclass, hword, -⟩ := verdict_words
  simp only [PageData.summary, List.forall_mem_cons]
  exact ⟨m.sha256.inside_text, fun _ => inside_text, fun _ => inside_text, hclass m.comparable,
    hword m.comparable, fun _ h => absurd h List.not_mem_nil⟩

theorem text_page_injective {m m' : Manifest} (h : m.page.text = m'.page.text) :
    m.page = m'.page := by
  rw [PageData.text, PageData.text] at h
  have hlength (p : PageData) : p.summary.length = pageTemplate.length := by
    simp only [PageData.summary, pageTemplate, List.length_cons, List.length_nil]
  obtain ⟨hsummary, hrows⟩ := fill_append_inj separates_templates.2 (inside_summary m)
    (inside_summary m') (hlength m.page) (hlength m'.page) (List.append_cancel_left h)
  obtain ⟨helapsed, hrows⟩ := rowText_append_inj hrows
  obtain ⟨hp50, hrows⟩ := rowText_append_inj hrows
  obtain ⟨hp95, hrows⟩ := rowText_append_inj hrows
  obtain ⟨hp99, -⟩ := rowText_append_inj hrows
  simp only [PageData.summary, List.cons.injEq] at hsummary
  obtain ⟨hdigest, hruns, hwarmups, hcomparable, -⟩ := hsummary
  rw [PageData.ext_iff]
  exact ⟨hdigest, text_injective hruns, text_injective hwarmups,
    verdict_words.2.2 _ _ hcomparable, helapsed, hp50, hp95, hp99⟩

/-- A manifest is written exactly if its texts are UTF-8.  What is read from the file are the index
of the measured replays and the summaries of both engines, and the page that is made of it is that
of the bundle; a page is made of every manifest, and tells apart all that it shows. -/
theorem manifest_page {dumpIndented : Nat → J.Value → Except String Bytes} (hJ : J.Lawful)
    (hindents : J.Indents dumpIndented) (m : Manifest) :
    ((∃ text, manifestText dumpIndented m = .ok text) ↔ m.Texts) ∧
      (∀ text, manifestText dumpIndented m = .ok text → ∃ manifest, J.parse text = some manifest ∧
        readIndex J manifest = some (m.options.measured.map Measured.entry) ∧
        readEngine J manifest "bengal" = some m.bengal ∧
        readEngine J manifest "standard" = some m.standard ∧
        htmlReport J manifest = htmlReport J (manifestValue m)) ∧
      (∃ page, htmlReport J (manifestValue m) = some page) ∧
      ∀ m' : Manifest, htmlReport J (manifestValue m') = htmlReport J (manifestValue m) ↔
        m'.page = m.page := by
  have hpage (m : Manifest) : htmlReport J (manifestValue m) = some m.page.text :=
    htmlReport_manifestWith hJ _ m
  refine ⟨?_, fun text htext => ?_, ⟨_, hpage m⟩, fun m' => ?_⟩
  · simp only [manifestText_eq_ok_iff hindents, exists_and_left, exists_eq, and_true]
  · obtain ⟨hbengal, hstandard⟩ := @readEngine_manifestRead J m
    refine ⟨manifestRead m, parse_manifestText hindents htext, readIndex_manifestRead, hbengal,
      hstandard, ?_⟩
    rw [hpage, manifestRead, htmlReport_manifestWith hJ]
  · rw [hpage, hpage, Option.some_inj]
    exact ⟨text_page_injective, congrArg PageData.text⟩

def pairManifest : Manifest where
  createdAtUtc := ascii "2025-01-01T00:00:00Z"
  version := ascii "0.1.0"
  sourceRevision := ascii "unknown"
  bengalVersion := ascii "0.1.0"
  executableSha256 := ⟨List.replicate 64 0x30, by decide⟩
  options := { runs := 1, warmups := 0 }
  fixtureName := ascii "fixture.jsonl"
  sizeBytes := 1024
  sha256 := ⟨List.replicate 64 0x61, by decide⟩
  environment := {
    operatingSystem := ascii "Linux"
    kernelRelease := ascii "6.1.0"
    architecture := ascii "x86_64"
    cpuModel := ascii "unknown"
    logicalCpus := 8
    memoryBytes := 1024
    scalingGovernor := ascii "unknown"
    compiler := ascii "GCC 13.2.0" }
  comparable := true
  bengal := ⟨⟨1, 7, 7, 7, 7, 7, 7⟩, ⟨1, 3, 3, 3, 3, 3, 3⟩, ⟨1, 4, 4, 4, 4, 4, 4⟩,
    ⟨1, 5, 5, 5, 5, 5, 5⟩, ⟨1, 0, 0, 0, 0, 0, 0⟩⟩
  standard := ⟨⟨1, 9, 9, 9, 9, 9, 9⟩, ⟨1, 3, 3, 3, 3, 3, 3⟩, ⟨1, 4, 4, 4, 4, 4, 4⟩,
    ⟨1, 6, 6, 6, 6, 6, 6⟩, ⟨1, 0, 0, 0, 0, 0, 0⟩⟩

theorem texts_pairManifest : pairManifest.Texts := by
  unfold Manifest.Texts
  decide +kernel

theorem manifest_page_pair :
    ∃ text manifest page,
      @manifestText .reference JsonLibrary.referenceIndented pairManifest = .ok text ∧
      JsonLibrary.reference.parse text = some manifest ∧
      readIndex .reference manifest = some (pairManifest.options.measured.map Measured.entry) ∧
      htmlReport .reference manifest = some page := by
  obtain ⟨hwritten, hread, ⟨page, hpage⟩, -⟩ := manifest_page JsonLibrary.reference_lawful
    JsonLibrary.reference_indents pairManifest
  obtain ⟨text, htext⟩ := hwritten.2 texts_pairManifest
  obtain ⟨manifest, hparse, hindex, -, -, hsame⟩ := hread text htext
  exact ⟨text, manifest, page, htext, hparse, hindex, hsame.trans hpage⟩

end Shown

end BengalMarket.Benchmark
