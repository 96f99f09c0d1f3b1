import BengalMarket.Benchmark.Schedule
import Mathlib.Data.Set.Insert

namespace BengalMarket.Benchmark

open Directories (Path)

/-- The files of a directory, those that can be written to, those whose bytes are the text that was
read last, and those whose bytes passed the check of a report. -/
structure Book where
  present : Set Path := ∅
  opened : Set Path := ∅
  read : Set Path := ∅
  verified : Set (Path × String) := ∅

namespace Book

def after (b : Book) : Task → Book
  | .openFile path => {
      present := insert path b.present
      opened := insert path b.opened
      read := b.read \ {path}
      verified := {v ∈ b.verified | v.1 ≠ path} }
  | .child _ | .stream => { b with opened := ∅ }
  | .readText path => { b with read := {p | p = path ∧ p ∉ b.opened} }
  | .check .digest => b
  | .check (.report engine) => { b with
      verified := b.verified ∪ {v | v.1 ∈ b.read ∧ v.2 = engine} }
  | .remove path => { b with
      present := b.present \ {path}
      read := b.read \ {path}
      verified := {v ∈ b.verified | v.1 ≠ path} }

def afterAll (b : Book) (tasks : List Task) : Book := tasks.foldl after b

@[simp] theorem afterAll_append (b : Book) (tasks tasks' : List Task) :
    b.afterAll (tasks ++ tasks') = (b.afterAll tasks).afterAll tasks' := List.foldl_append

theorem afterAll_concat (b : Book) (tasks : List Task) (task : Task) :
    b.afterAll (tasks ++ [task]) = (b.afterAll tasks).after task := afterAll_append ..

section Present

variable {b : Book} {p : Path}

theorem present_sha256 : p ∈ (b.afterAll sha256).present ↔
    p ∈ b.present ∧ p ≠ ["sha256.stdout"] ∧ p ≠ ["sha256.stderr"] := by
  simp only [sha256, runProcess, afterAll, List.cons_append, List.nil_append, List.foldl_cons,
    List.foldl_nil, after, Set.mem_sdiff, Set.mem_insert_iff, Set.mem_singleton_iff]
  generalize ["sha256.stdout"] = standardOutput, ["sha256.stderr"] = standardError
  tauto

theorem present_writeText {path : Path} :
    p ∈ (b.afterAll (writeText path)).present ↔ p = path ∨ p ∈ b.present := Iff.rfl

theorem present_warmup {iteration order : Nat} {engine : String} :
    p ∈ (b.afterAll (runReplay iteration order engine false)).present ↔
      p ∈ b.present ∧ p ≠ [stem iteration order engine false ++ ".json"] ∧
        p ≠ [stem iteration order engine false ++ ".stderr.txt"] := by
  simp only [runReplay, runProcess, afterAll, Bool.false_eq_true, if_false, List.cons_append,
    List.nil_append, List.foldl_cons, List.foldl_nil, after, Set.mem_sdiff, Set.mem_insert_iff,
    Set.mem_singleton_iff]
  generalize [stem iteration order engine false ++ ".json"] = standardOutput,
    [stem iteration order engine false ++ ".stderr.txt"] = standardError
  tauto

theorem present_measured (r : Measured) :
    p ∈ (b.afterAll (runReplay r.iteration r.order r.engine true)).present ↔
      p ∈ b.present ∨ p = r.report ∨ p = r.error := by
  simp only [runReplay, runProcess, afterAll, if_true, List.cons_append, List.nil_append,
    List.append_nil, List.foldl_cons, List.foldl_nil, after, Set.mem_insert_iff, Measured.report,
    Measured.error, Measured.stem]
  generalize ["runs", stem r.iteration r.order r.engine true ++ ".json"] = standardOutput,
    ["runs", stem r.iteration r.order r.engine true ++ ".stderr.txt"] = standardError
  tauto

theorem verified_afterAll {v : Path × String} (tasks : List Task) (hv : v ∈ b.verified)
    (hopen : .openFile v.1 ∉ tasks) (hremove : .remove v.1 ∉ tasks) :
    v ∈ (b.afterAll tasks).verified := by
  induction tasks generalizing b with
  | nil => exact hv
  | cons task tasks ih =>
    rw [List.mem_cons, not_or] at hopen hremove
    refine ih (b := b.after task) ?_ hopen.2 hremove.2
    cases task with
    | openFile path => exact ⟨hv, fun heq => hopen.1 (by rw [heq])⟩
    | remove path => exact ⟨hv, fun heq => hremove.1 (by rw [heq])⟩
    | check c =>
      cases c with
      | digest => exact hv
      | report engine => exact Or.inl hv
    | child limit | stream | readText path => exact hv

theorem verified_measured (b : Book) (r : Measured) : (r.report, r.engine) ∈
    (b.afterAll (runReplay r.iteration r.order r.engine true)).verified := by
  simp [runReplay, runProcess, afterAll, after, Measured.report, Measured.stem]

end Present

end Book

section Bundles

variable {p : Path} {options : Options}

def Options.bundle (options : Options) : List Path :=
  [["fixture.sha256"], ["manifest.json"], ["report.html"]] ++
    options.measured.flatMap fun r => [r.report, r.error]

def measure (replays : List Measured) : List Task :=
  replays.flatMap fun r => runReplay r.iteration r.order r.engine true

def warmUp (count : Nat) : List Task := (List.range' 1 count).flatMap (runPair false)

def Options.before (options : Options) : List Task :=
  sha256 ++ sha256 ++ writeText ["fixture.sha256"] ++ warmUp options.warmups

theorem Options.tasks_eq (options : Options) : options.tasks = options.before ++
    measure options.measured ++ (writeText ["manifest.json"] ++ writeText ["report.html"]) := by
  have hmeasured : (List.range' 1 options.runs).flatMap (runPair true) =
      measure options.measured := by
    rw [measure, Options.measured, List.flatMap_assoc]
    exact congrArg (List.flatMap · _) (funext (runPair_eq true))
  simp only [Options.tasks, Options.before, warmUp, hmeasured, List.append_assoc]

theorem Book.present_measure (b : Book) (replays : List Measured) :
    p ∈ (b.afterAll (measure replays)).present ↔
      p ∈ b.present ∨ ∃ r ∈ replays, p = r.report ∨ p = r.error := by
  induction replays generalizing b with
  | nil => simp [measure, Book.afterAll]
  | cons r replays ih =>
    rw [measure, List.flatMap_cons, Book.afterAll_append]
    have hrest := ih (b.afterAll (runReplay r.iteration r.order r.engine true))
    rw [measure] at hrest
    rw [hrest, Book.present_measured]
    simp only [List.mem_cons, exists_eq_or_imp, or_assoc]

theorem Book.present_warmUp {b : Book} (hb : ∀ q ∈ b.present, q = ["fixture.sha256"])
    (replays : List Measured) : (b.afterAll (replays.flatMap fun r =>
      runReplay r.iteration r.order r.engine false)).present = b.present := by
  induction replays generalizing b with
  | nil => rfl
  | cons r replays ih =>
    have hone : (b.afterAll (runReplay r.iteration r.order r.engine false)).present =
        b.present := by
      ext q
      rw [Book.present_warmup]
      refine ⟨And.left, fun hq => ⟨hq, ?_⟩⟩
      rw [hb q hq]
      exact ⟨(warmup_ne_fixture _ _ _ _).symm, (warmup_ne_fixture _ _ _ _).symm⟩
    rw [List.flatMap_cons, Book.afterAll_append, ih (hone ▸ hb), hone]

theorem present_before (options : Options) :
    (Book.afterAll {} options.before).present = {["fixture.sha256"]} := by
  have hempty : (Book.afterAll {} (sha256 ++ sha256)).present = ∅ := by
    ext q
    simp [Book.present_sha256]
  have hfixture : (Book.afterAll {}
      (sha256 ++ sha256 ++ writeText ["fixture.sha256"])).present = {["fixture.sha256"]} := by
    ext q
    rw [Book.afterAll_append, Book.present_writeText, hempty]
    simp
  have hpairs : warmUp options.warmups = ((List.range' 1 options.warmups).flatMap pair).flatMap
      fun r => runReplay r.iteration r.order r.engine false := by
    rw [warmUp, List.flatMap_assoc]
    exact congrArg (List.flatMap · _) (funext (runPair_eq false))
  rw [Options.before, Book.afterAll_append, hpairs, Book.present_warmUp, hfixture]
  intro q hq
  rw [hfixture] at hq
  exact hq

theorem present_tasks : p ∈ (Book.afterAll {} options.tasks).present ↔ p ∈ options.bundle := by
  rw [Options.tasks_eq, Book.afterAll_append, Book.afterAll_append, Book.afterAll_append,
    Book.present_writeText, Book.present_writeText, Book.present_measure, present_before]
  simp only [Options.bundle, Set.mem_singleton_iff, List.mem_append, List.mem_cons,
    List.not_mem_nil, or_false, List.mem_flatMap]
  constructor
  · rintro (hreport | hmanifest | hfixture | hmeasured)
    · exact .inl (.inr (.inr hreport))
    · exact .inl (.inr (.inl hmanifest))
    · exact .inl (.inl hfixture)
    · exact .inr hmeasured
  · rintro ((hfixture | hmanifest | hreport) | hmeasured)
    · exact .inr (.inr (.inl hfixture))
    · exact .inr (.inl hmanifest)
    · exact .inl hreport
    · exact .inr (.inr (.inr hmeasured))

theorem openFile_mem_measure {replays : List Measured} (h : .openFile p ∈ measure replays) :
    ∃ r ∈ replays, p = r.report ∨ p = r.error := by
  obtain ⟨r, hr, htask⟩ := List.mem_flatMap.1 h
  refine ⟨r, hr, ?_⟩
  simpa [runReplay, runProcess, Measured.report, Measured.error, Measured.stem] using htask

theorem remove_not_mem_measure (replays : List Measured) : .remove p ∉ measure replays := by
  intro h
  obtain ⟨r, -, htask⟩ := List.mem_flatMap.1 h
  simp [runReplay, runProcess] at htask

theorem verified_tasks {r : Measured} (hr : r ∈ options.measured) :
    (r.report, r.engine) ∈ (Book.afterAll {} options.tasks).verified := by
  obtain ⟨earlier, later, hsplit⟩ := List.append_of_mem hr
  have hnodup := nodup_measured options
  rw [hsplit] at hnodup
  have hlater : r ∉ later :=
    (List.nodup_cons.1 (hnodup.sublist (List.sublist_append_right _ _))).1
  have hmeasure : measure options.measured = measure earlier ++
      (runReplay r.iteration r.order r.engine true ++ measure later) := by
    rw [hsplit]
    simp [measure]
  have htasks : options.tasks = options.before ++ measure earlier ++
      (runReplay r.iteration r.order r.engine true ++
        (measure later ++ (writeText ["manifest.json"] ++ writeText ["report.html"]))) := by
    rw [Options.tasks_eq, hmeasure]
    simp only [List.append_assoc]
  rw [htasks, Book.afterAll_append, Book.afterAll_append]
  refine Book.verified_afterAll _ (Book.verified_measured _ r) (fun hopen => ?_) fun hremove => ?_
  · rcases List.mem_append.1 hopen with hmeasured | hwritten
    · obtain ⟨other, hother, heq | heq⟩ := openFile_mem_measure hmeasured
      · exact hlater (report_injective heq ▸ hother)
      · exact error_ne_report _ _ heq.symm
    · simp [writeText, Measured.report] at hwritten
  · rcases List.mem_append.1 hremove with hmeasured | hwritten
    · exact remove_not_mem_measure _ hmeasured
    · simp [writeText] at hwritten

end Bundles

end BengalMarket.Benchmark
