import BengalMarket.Benchmark.Contents
import BengalMarket.Benchmark.Page

namespace BengalMarket.Benchmark

open Directories (Path FileTree)

section Indexes

variable {ι : Type} [DecidableEq ι] {J : JsonLibrary} {output : String} {s : System ι}
  {options : ι → Options} {tree : FileTree String}
  {dumpIndented : Nat → J.Value → Except String Bytes}

def unlisted : List Path := [["fixture.sha256"], ["manifest.json"], ["report.html"]]

/-- The index that is read from the manifest of a published bundle lists each of its other files, no
report twice, and where it lists a report there is one that names the engine of the entry. -/
theorem published_index (hindents : J.Indents dumpIndented) {labels : List (ι × Action)}
    (hrun : Transition.run (step J output) (System.start options tree) labels = some s)
    (hexclusive :
      Transition.Throughout (step J output) (Exclusive output) (System.start options tree) labels)
    {i : ι} {number : Nat} (hpublished : (i, .published number) ∈ s.log) {m : Manifest}
    {text : Bytes} (hoptions : m.options = options i)
    (hwritten : manifestText dumpIndented m = .ok text)
    (hfile : s.tree.readFile output ["manifest.json"] = some text) :
    ∃ index, ((s.tree.readFile output ["manifest.json"]).bind J.parse).bind (readIndex J) =
        some index ∧
      index.length = 2 * (options i).runs ∧ (index.map IndexEntry.report).Nodup ∧
      (∀ entry ∈ index, ∃ path engine report, entry.report = genericString path ∧
        entry.engine = ascii engine ∧ s.tree.readFile output path = some report ∧
        (parseReport J report engine).isSome) ∧
      ∀ path ∉ unlisted, ∀ data, s.tree.content number path = some (.file data) →
        ∃ entry ∈ index, entry.report = genericString path ∨ entry.error = genericString path := by
  have horderly := orderly_run hrun hexclusive
  refine ⟨(options i).measured.map Measured.entry, ?_, ?_, nodup_index _, ?_, ?_⟩
  · rw [hfile, Option.bind_some, parse_manifestText hindents hwritten, Option.bind_some,
      readIndex_manifestRead, hoptions]
  · rw [List.length_map, length_measured]
  · rintro _ hentry
    obtain ⟨r, hr, rfl⟩ := List.mem_map.1 hentry
    obtain ⟨report, hread, hparse⟩ := horderly.reports hpublished hr
    exact ⟨r.report, r.engine, report, r.report_entry, r.engine_entry, hread, hparse⟩
  · intro path hpath data hdata
    have hmem := (horderly.files hpublished path).1 ⟨data, hdata⟩
    rw [Options.bundle, List.mem_append, List.mem_flatMap] at hmem
    obtain hthree | ⟨r, hr, hfile⟩ := hmem
    · exact absurd hthree hpath
    · refine ⟨r.entry, List.mem_map_of_mem hr, ?_⟩
      rw [r.report_entry, r.error_entry]
      rcases List.mem_pair.1 hfile with rfl | rfl
      · exact .inl rfl
      · exact .inr rfl

end Indexes

section Runs

def pairText : Bytes := JsonText.indented 2 (manifestRead pairManifest : JsonText.Plain) ++ [0x0A]

def recording : List (Unit × Action) :=
  [((), .proceed), ((), .proceed), ((), .proceed), ((), .proceed)] ++ sha256Labels () ++
    sha256Labels () ++ textLabels () digestText ++ replayLabels () "bengal" ++
    replayLabels () "standard" ++ textLabels () pairText ++ textLabels () (ascii "page") ++
    [((), .proceed)]

theorem published_index_recording :
    ∃ s index, Transition.run (step .reference "evidence")
        (System.start (fun _ => { runs := 1, warmups := 0 }) .empty) recording = some s ∧
      ((s.tree.readFile "evidence" ["manifest.json"]).bind JsonLibrary.reference.parse).bind
        (readIndex .reference) = some index ∧
      index.length = 2 ∧
      ∀ path ∉ unlisted, ∀ data, s.tree.content 0 path = some (.file data) →
        ∃ entry ∈ index, entry.report = genericString path ∨ entry.error = genericString path := by
  obtain ⟨hrun, hexclusive⟩ : ((Transition.run (step .reference "evidence")
      (System.start (fun _ => { runs := 1, warmups := 0 }) .empty) recording).any fun s =>
        ((), .published 0) ∈ s.log &&
          s.tree.readFile "evidence" ["manifest.json"] == some pairText) = true ∧
      Transition.Throughout (step .reference "evidence") (Exclusive "evidence")
        (System.start (fun _ => { runs := 1, warmups := 0 }) .empty) recording := by
    decide +kernel
  obtain ⟨s, hs, hstate⟩ := (Option.any_eq_true ..).1 hrun
  rw [Bool.and_eq_true, decide_eq_true_eq, beq_iff_eq] at hstate
  obtain ⟨hpublished, hfile⟩ := hstate
  have hwritten : @manifestText .reference JsonLibrary.referenceIndented pairManifest =
      .ok pairText :=
    (manifestText_eq_ok_iff JsonLibrary.reference_indents).2 ⟨texts_pairManifest, rfl⟩
  obtain ⟨index, hindex, hlength, -, -, hlisted⟩ := published_index JsonLibrary.reference_indents
    hs hexclusive hpublished rfl hwritten hfile
  exact ⟨s, index, hs, hindex, hlength, hlisted⟩

end Runs

end BengalMarket.Benchmark
