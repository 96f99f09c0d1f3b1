import BengalMarket.Benchmark.Evidence
import BengalMarket.Library.JsonParser

namespace BengalMarket.Benchmark

open Directories (Path FileTree)
open Directories.FileTree (Extends)

variable {J : JsonLibrary} {output : String} {t : FileTree String} {inst other : Instance}
  {a : Action} {m : Move}

section Owners

def Stage.Early : Stage → Prop
  | .checkingOutput | .checkingWorking | .makingWorking => True
  | _ => False

def Stage.Working : Stage → Prop
  | .makingRuns | .running _ => True
  | _ => False

/-- An invocation and its directory, which keeps the working path until it is published. -/
structure Owner (output : String) (t : FileTree String) (inst : Instance) : Prop where
  bound : ∀ number ∈ inst.directory, number < t.directories.length
  held : ∀ number ∈ inst.directory, inst.stage ≠ .published →
    t.entry (working output) = some (.directory number)
  early : inst.stage.Early → inst.directory = none
  placed : inst.stage.Working → ∃ number, inst.directory = some number
  descriptors : ∀ file offset, (file, offset) ∈ inst.descriptors →
    ∃ number, inst.directory = some number ∧ t.home file = some number

variable {after : FileTree String}

theorem Owner.own (h : Owner output t inst) (hworking : inst.stage.Working)
    (hstage : inst.stage ≠ .published) (hextended : Extends t after) {file : Nat}
    (hown : Own output t after inst file) :
    ∃ number, inst.directory = some number ∧ after.home file = some number := by
  rcases hown with ⟨offset, hmem⟩ | ⟨number, hentry, hhome⟩
  · obtain ⟨number, hdirectory, hhome⟩ := h.descriptors file offset hmem
    exact ⟨number, hdirectory, hextended.home _ _ hhome⟩
  · obtain ⟨own, hdirectory⟩ := h.placed hworking
    have hheld := h.held own hdirectory hstage
    rw [hentry] at hheld
    cases hheld
    exact ⟨number, hdirectory, hhome⟩

theorem Owner.extended (h : Owner output t inst) (hextended : Extends t after)
    (hheld : ∀ number ∈ inst.directory, inst.stage ≠ .published →
      t.entry (working output) = some (.directory number) →
      after.entry (working output) = some (.directory number)) : Owner output after inst where
  bound number hnumber := Nat.lt_of_lt_of_le (h.bound number hnumber) hextended.length
  held number hnumber hstage := hheld number hnumber hstage (h.held number hnumber hstage)
  early := h.early
  placed := h.placed
  descriptors file offset hmem := by
    obtain ⟨number, hdirectory, hhome⟩ := h.descriptors file offset hmem
    exact ⟨number, hdirectory, hextended.home _ _ hhome⟩

theorem Owner.atStage (h : Owner output t inst) {stage : Stage} (hstage : inst.stage ≠ .published)
    (hearly : stage.Early → inst.stage.Early) (hworking : stage.Working → inst.stage.Working) :
    Owner output t { inst with stage := stage } where
  bound := h.bound
  held number hnumber _ := h.held number hnumber hstage
  early hs := h.early (hearly hs)
  placed hs := h.placed (hworking hs)
  descriptors := h.descriptors

theorem Owner.fail (h : Owner output t inst) (hstage : inst.stage ≠ .published) :
    Owner output t inst.fail where
  bound := h.bound
  held number hnumber _ := h.held number hnumber hstage
  early := nofun
  placed := nofun
  descriptors := nofun

theorem Owner.effects (h : Owner output t inst) (hm : Moved output t inst a m) {effect : Effect}
    (hmem : effect ∈ m.effects) : ∃ number, m.after.directory = some number ∧
      (effect = .published number ∨ ∃ file, m.tree.home file = some number ∧
        (effect = .opened file ∨ ∃ data, effect = .wrote file data)) := by
  cases hm with
  | failed | checkedOutput | checkedWorking | made | madeRuns => cases hmem
  | ran hran =>
    obtain ⟨tasks, hbefore⟩ := hran.before
    obtain ⟨file, hown, heffect⟩ := hran.effects effect hmem
    obtain ⟨number, hdirectory, hhome⟩ :=
      h.own (by simp [hbefore, Stage.Working]) (by simp [hbefore]) hran.extended hown
    exact ⟨number, hran.directory.trans hdirectory, .inr ⟨file, hhome, heffect⟩⟩
  | published hstage hrename heffects =>
    obtain ⟨number, rfl, hentry⟩ := heffects effect hmem
    obtain ⟨own, hown⟩ := h.placed (by simp [hstage, Stage.Working])
    have hheld := h.held own hown (by simp [hstage])
    rw [hentry] at hheld
    cases hheld
    exact ⟨number, hown, .inl rfl⟩

variable (hexclusive : inst.stage = .makingWorking → a = .proceed →
  t.entry (working output) = none)

include hexclusive

theorem fresh_made {number : Nat} (hstage : inst.stage = .makingWorking) (hproceed : a = .proceed)
    (h : t.createDirectory (working output) = some (number, after)) :
    number = t.directories.length ∧ number < after.directories.length ∧
      after.entry (working output) = some (.directory number) := by
  have hnone := hexclusive hstage hproceed
  obtain ⟨-, ⟨hentry, -⟩ | ⟨-, hnumber, hlength, hentry⟩⟩ := FileTree.createDirectory_spec h
  · rw [hnone] at hentry
    cases hentry
  · exact ⟨hnumber, hlength, by rw [hentry, Function.update_self]⟩

theorem Owner.moved (h : Owner output t inst) (hm : Moved output t inst a m) :
    Owner output m.tree m.after := by
  have hextended := hm.extended
  cases hm with
  | failed hstage => exact h.fail hstage
  | checkedOutput hstage hnone =>
    exact h.atStage (by simp [hstage]) (fun _ => by simp [hstage, Stage.Early]) nofun
  | checkedWorking hstage =>
    exact h.atStage (by simp [hstage]) (fun _ => by simp [hstage, Stage.Early]) nofun
  | made hstage hproceed hcreate =>
    obtain ⟨-, hlength, hentry⟩ := fresh_made hexclusive hstage hproceed hcreate
    refine ⟨?_, ?_, nofun, fun _ => ⟨_, rfl⟩, fun file offset hmem => ?_⟩
    · rintro _ ⟨⟩
      exact hlength
    · rintro _ ⟨⟩ -
      exact hentry
    · obtain ⟨number, hdirectory, -⟩ := h.descriptors file offset hmem
      rw [h.early (by simp [hstage, Stage.Early])] at hdirectory
      cases hdirectory
  | madeRuns hstage hcreate =>
    obtain ⟨number, -, hentry, -⟩ := FileTree.createBelow_spec hcreate
    refine (h.extended hextended fun _ _ _ => ?_).atStage (by simp [hstage]) nofun fun _ => ?_
    · rw [hentry]
      exact id
    · simp [hstage, Stage.Working]
  | ran hran =>
    obtain ⟨tasks, hbefore⟩ := hran.before
    obtain ⟨rest, hafter⟩ := hran.after
    have hworking : inst.stage.Working := by simp [hbefore, Stage.Working]
    have hstage : inst.stage ≠ .published := by simp [hbefore]
    refine ⟨fun number hnumber => ?_, fun number hnumber _ => ?_, fun hearly => ?_, fun _ => ?_,
      fun file offset hmem => ?_⟩
    · rw [hran.directory] at hnumber
      exact Nat.lt_of_lt_of_le (h.bound number hnumber) hran.extended.length
    · rw [hran.directory] at hnumber
      rw [hran.entry]
      exact h.held number hnumber hstage
    · rw [hafter] at hearly
      cases hearly
    · rw [hran.directory]
      exact h.placed hworking
    · rw [hran.directory]
      exact h.own hworking hstage hran.extended (hran.descriptors file offset hmem)
  | published hstage hrename =>
    refine ⟨fun number hnumber => Nat.lt_of_lt_of_le (h.bound number hnumber) hextended.length,
      fun _ _ hne => absurd rfl hne, nofun, nofun, fun file offset hmem => ?_⟩
    obtain ⟨number, hdirectory, hhome⟩ := h.descriptors file offset hmem
    exact ⟨number, hdirectory, hextended.home _ _ hhome⟩

theorem Owner.others (h : Owner output t other) (hinst : Owner output t inst)
    (hdistinct : ∀ number, inst.directory = some number → other.directory ≠ some number)
    (hm : Moved output t inst a m) : Owner output m.tree other := by
  cases hm with
  | failed | checkedOutput | checkedWorking => exact h
  | made hstage hproceed hcreate =>
    refine h.extended (FileTree.createDirectory_spec hcreate).1 fun number _ _ hentry => ?_
    rw [hexclusive hstage hproceed] at hentry
    cases hentry
  | madeRuns hstage hcreate =>
    obtain ⟨number, -, hentry, -, hextended⟩ := FileTree.createBelow_spec hcreate
    exact h.extended hextended fun _ _ _ => by rw [hentry]; exact id
  | ran hran => exact h.extended hran.extended fun _ _ _ => by rw [hran.entry]; exact id
  | published hstage hrename =>
    rcases FileTree.rename_spec hrename with rfl | ⟨rfl, -⟩
    · exact h
    · refine h.extended FileTree.extends_move fun number hnumber _ hentry => ?_
      obtain ⟨own, hown⟩ := hinst.placed (by simp [hstage, Stage.Working])
      have hheld := hinst.held own hown (by simp [hstage])
      rw [hentry] at hheld
      cases hheld
      exact absurd hnumber (hdistinct number hown)

theorem Owner.moved_directory (h : Owner output t inst) (hm : Moved output t inst a m) :
    m.after.directory = inst.directory ∨
      inst.directory = none ∧ m.after.directory = some t.directories.length := by
  cases hm with
  | failed | checkedOutput | checkedWorking | madeRuns | published => exact .inl rfl
  | ran hran => exact .inl hran.directory
  | made hstage hproceed hcreate =>
    obtain ⟨hnumber, -⟩ := fresh_made hexclusive hstage hproceed hcreate
    exact .inr ⟨h.early (by simp [hstage, Stage.Early]), congrArg some hnumber⟩

end Owners

section Systems

variable {ι : Type} {s u : System ι} {i : ι}

def WrittenBy (log : List (ι × Effect)) (i : ι) (file : Nat) : Prop :=
  (i, .opened file) ∈ log ∨ ∃ data, (i, .wrote file data) ∈ log

def Unmixed (output : String) (s : System ι) : Prop :=
  ∀ number, s.tree.entry output = some (.directory number) →
    (∃ i, (i, .published number) ∈ s.log) →
    ∃ i, ∀ path file, (path, .file file) ∈ s.tree.nodes number →
      ∀ j, WrittenBy s.log j file → j = i

/-- The working directory is created where there is none. -/
def Exclusive (output : String) (s : System ι) : ι × Action → Prop
  | (i, a) => (s.instances i).stage = .makingWorking → a = .proceed →
    s.tree.entry (working output) = none

instance (s : System ι) : ∀ label, Decidable (Exclusive output s label)
  | (i, a) => inferInstanceAs (Decidable ((s.instances i).stage = .makingWorking →
    a = .proceed → s.tree.entry (working output) = none))

/-- What holds between the invocations when the working directory is always created anew. -/
structure Separate (output : String) (s : System ι) : Prop where
  owner : ∀ i, Owner output s.tree (s.instances i)
  distinct : ∀ {i j number}, (s.instances i).directory = some number →
    (s.instances j).directory = some number → i = j
  written : ∀ i file, WrittenBy s.log i file →
    ∃ number, (s.instances i).directory = some number ∧ s.tree.home file = some number
  published : ∀ i number, (i, .published number) ∈ s.log →
    (s.instances i).directory = some number

theorem Separate.unmixed (h : Separate output s) : Unmixed output s := by
  rintro number - ⟨i, hpublished⟩
  refine ⟨i, fun path file hfile j hwritten => ?_⟩
  obtain ⟨own, hown, hhome⟩ := h.written j file hwritten
  rw [s.tree.home_of_mem hfile] at hhome
  cases hhome
  exact h.distinct hown (h.published i number hpublished)

variable (hs : Stepped output s u i a m)

include hs

variable (h : Separate output s) (hexclusive : Exclusive output s (i, a))

include h hexclusive

theorem Separate.step_owner (j : ι) : Owner output u.tree (u.instances j) := by
  rw [hs.tree]
  by_cases hne : j = i
  · subst hne
    rw [hs.self]
    exact (h.owner j).moved hexclusive hs.moved
  · rw [hs.others j hne]
    refine (h.owner j).others hexclusive (h.owner i) (fun number hi hj => ?_) hs.moved
    exact hne (h.distinct hj hi)

theorem Separate.step_directory (j : ι) :
    (u.instances j).directory = (s.instances j).directory ∨ j = i ∧
      (s.instances j).directory = none ∧
      (u.instances j).directory = some s.tree.directories.length := by
  by_cases hne : j = i
  · subst hne
    rw [hs.self]
    exact ((h.owner j).moved_directory hexclusive hs.moved).imp_right fun hnew => ⟨rfl, hnew⟩
  · exact .inl (by rw [hs.others j hne])

theorem Separate.step_kept {j : ι} {number : Nat}
    (hj : (s.instances j).directory = some number) : (u.instances j).directory = some number := by
  rcases h.step_directory hs hexclusive j with hsame | ⟨-, hnone, -⟩
  · exact hsame.trans hj
  · rw [hnone] at hj
    cases hj

theorem Separate.step_distinct {j k : ι} {number : Nat}
    (hj : (u.instances j).directory = some number)
    (hk : (u.instances k).directory = some number) : j = k := by
  have hold {l : ι} (hl : (s.instances l).directory = some number) :
      number ≠ s.tree.directories.length := Nat.ne_of_lt ((h.owner l).bound number hl)
  rcases h.step_directory hs hexclusive j with hsj | ⟨hji, -, hnewj⟩ <;>
    rcases h.step_directory hs hexclusive k with hsk | ⟨hki, -, hnewk⟩
  · exact h.distinct (hsj.symm.trans hj) (hsk.symm.trans hk)
  · exact absurd (Option.some.inj (hk.symm.trans hnewk)) (hold (hsj.symm.trans hj))
  · exact absurd (Option.some.inj (hj.symm.trans hnewj)) (hold (hsk.symm.trans hk))
  · exact hji.trans hki.symm

theorem Separate.step_log {j : ι} {effect : Effect} (hmem : (j, effect) ∈ u.log) :
    (j, effect) ∈ s.log ∨ ∃ number, (u.instances j).directory = some number ∧
      (effect = .published number ∨ ∃ file, u.tree.home file = some number ∧
        (effect = .opened file ∨ ∃ data, effect = .wrote file data)) := by
  rcases hs.mem_log.1 hmem with hbefore | ⟨rfl, heffect⟩
  · exact .inl hbefore
  · rw [hs.self, hs.tree]
    exact .inr ((h.owner j).effects hs.moved heffect)

theorem Separate.step_written (j : ι) (file : Nat) (hwritten : WrittenBy u.log j file) :
    ∃ number, (u.instances j).directory = some number ∧ u.tree.home file = some number := by
  have hbefore (hold : WrittenBy s.log j file) :
      ∃ number, (u.instances j).directory = some number ∧ u.tree.home file = some number := by
    obtain ⟨number, hdirectory, hhome⟩ := h.written j file hold
    refine ⟨number, h.step_kept hs hexclusive hdirectory, ?_⟩
    rw [hs.tree]
    exact hs.moved.extended.home _ _ hhome
  rcases hwritten with hopened | ⟨data, hwrote⟩
  · rcases h.step_log hs hexclusive hopened with hold | ⟨number, hdirectory, hown⟩
    · exact hbefore (.inl hold)
    · rcases hown with heq | ⟨n, hhome, heq | ⟨_, heq⟩⟩ <;> cases heq
      exact ⟨number, hdirectory, hhome⟩
  · rcases h.step_log hs hexclusive hwrote with hold | ⟨number, hdirectory, hown⟩
    · exact hbefore (.inr ⟨data, hold⟩)
    · rcases hown with heq | ⟨n, hhome, heq | ⟨_, heq⟩⟩ <;> cases heq
      exact ⟨number, hdirectory, hhome⟩

theorem Separate.step_published (j : ι) (number : Nat)
    (hpublished : (j, .published number) ∈ u.log) :
    (u.instances j).directory = some number := by
  rcases h.step_log hs hexclusive hpublished with hold | ⟨own, hdirectory, hown⟩
  · exact h.step_kept hs hexclusive (h.published j number hold)
  · rcases hown with heq | ⟨n, -, heq | ⟨_, heq⟩⟩ <;> cases heq
    exact hdirectory

theorem Separate.step : Separate output u where
  owner := h.step_owner hs hexclusive
  distinct := h.step_distinct hs hexclusive
  written := h.step_written hs hexclusive
  published := h.step_published hs hexclusive

end Systems

def reportText (engine : String) : Bytes :=
  [ascii "\x7b\n", ascii "  \"bengal_version\": \"1.0.0\",\n", ascii "  \"engine\": \"",
    ascii engine, ascii "\",\n", ascii "  \"input\": \x7b\n", ascii "    \"frames\": 1,\n",
    ascii "    \"out_of_order\": 0,\n", ascii "    \"parse_errors\": 0,\n",
    ascii "    \"sequence_gaps\": 0\n", ascii "  \x7d,\n", ascii "  \"pipeline\": \x7b\n",
    ascii "    \"backpressure\": 0,\n", ascii "    \"checksum\": 7,\n",
    ascii "    \"dropped\": 0,\n", ascii "    \"elapsed_ns\": 900,\n", ascii "    \"events\": 1,\n",
    ascii "    \"latency_ns\": \x7b\n", ascii "      \"max\": 64,\n", ascii "      \"min\": 64,\n",
    ascii "      \"p50\": 64,\n", ascii "      \"p95\": 64,\n", ascii "      \"p99\": 64,\n",
    ascii "      \"samples\": 1\n", ascii "    \x7d\n", ascii "  \x7d,\n",
    ascii "  \"schema_version\": 1\n", ascii "\x7d\n"].flatten

def digestText : Bytes := List.replicate 64 97 ++ ascii "  capture.jsonl\n"

section Labels

variable {ι : Type} (i : ι)

def sha256Labels : List (ι × Action) :=
  [(i, .proceed), (i, .proceed), (i, .write 0 digestText), (i, .exit 0)] ++
    List.replicate 4 (i, .proceed)

def textLabels (text : Bytes) : List (ι × Action) :=
  [(i, .proceed), (i, .write 0 text), (i, .proceed)]

def replayLabels (engine : String) : List (ι × Action) :=
  [(i, .proceed), (i, .proceed), (i, .write 0 (reportText engine)), (i, .exit 0), (i, .proceed),
    (i, .proceed)]

def pairLabels : List (ι × Action) :=
  [(i, .proceed), (i, .proceed)] ++ sha256Labels i ++ sha256Labels i ++ textLabels i digestText ++
    replayLabels i "bengal" ++ replayLabels i "standard" ++ textLabels i (ascii "manifest") ++
    textLabels i (ascii "report")

end Labels

section Runs

variable {ι : Type} {options : ι → Options} {tree : FileTree String}

theorem owner_invoked (options : Options) : Owner output t (.invoked options) := by
  rcases invoked_cases options with heq | heq <;> rw [heq]
  · exact ⟨nofun, nofun, fun _ => rfl, nofun, nofun⟩
  · exact ⟨nofun, nofun, nofun, nofun, nofun⟩

theorem directory_invoked (options : Options) : (Instance.invoked options).directory = none := by
  rcases invoked_cases options with heq | heq <;> rw [heq]

theorem separate_start : Separate output (System.start options tree) where
  owner i := owner_invoked (options i)
  distinct {i j number} hi := by
    rw [System.start, directory_invoked] at hi
    cases hi
  written := by simp [WrittenBy, System.start]
  published := nofun

variable [DecidableEq ι] {s : System ι} {labels : List (ι × Action)}

/-- An output is never replaced, and in a run that creates every working directory where there is
none it holds the files of one invocation. -/
theorem bundles_of_exclusive
    (hrun : Transition.run (step J output) (System.start options tree) labels = some s) :
    (Transition.Throughout (step J output) (Exclusive output) (System.start options tree) labels →
      Unmixed output s) ∧
    ∀ earlier later r, labels = earlier ++ later →
      Transition.run (step J output) (System.start options tree) earlier = some r →
      ∀ e, r.tree.entry output = some e → s.tree.entry output = some e := by
  constructor
  · intro hexclusive
    refine (Transition.run_invariant_of_throughout (fun {s a t} h hok hstep => ?_)
      separate_start hexclusive hrun).unmixed
    obtain ⟨m, hstepped⟩ := stepped_of_step hstep
    exact h.step hstepped hok
  · rintro earlier later r rfl hearlier e hentry
    rw [Transition.run_append, hearlier] at hrun
    exact output_run (safe_run (fun i => safe_invoked (options i)) hearlier) hrun hentry

def sequential : List (Bool × Action) :=
  [(false, .proceed), (false, .proceed), (true, .proceed), (true, .proceed)] ++
    pairLabels false ++ [(false, .proceed)] ++ pairLabels true ++ [(true, .proceed)]

theorem bundles_of_exclusive_sequential :
    ∃ s, Transition.run (step .reference "evidence")
        (System.start (fun _ => { runs := 1, warmups := 0 }) .empty) sequential = some s ∧
      s.tree.entry "evidence" = some (.directory 0) ∧
      s.tree.entry (working "evidence") = some (.directory 1) ∧ Unmixed "evidence" s := by
  obtain ⟨hrun, hexclusive⟩ : ((Transition.run (step .reference "evidence")
      (System.start (fun _ => { runs := 1, warmups := 0 }) .empty) sequential).any fun s =>
        s.tree.entry "evidence" = some (.directory 0) ∧
        s.tree.entry (working "evidence") = some (.directory 1)) = true ∧
      Transition.Throughout (step .reference "evidence") (Exclusive "evidence")
        (System.start (fun _ => { runs := 1, warmups := 0 }) .empty) sequential := by
    decide +kernel
  obtain ⟨s, hs, hstate⟩ := (Option.any_eq_true ..).1 hrun
  obtain ⟨houtput, hworking⟩ := of_decide_eq_true hstate
  exact ⟨s, hs, houtput, hworking, (bundles_of_exclusive hs).1 hexclusive⟩

/-- Both invocations find no output and no working directory.  One makes its bundle; before the
rename the other takes up the directory, and its `sha256sum` writes after the rename. -/
def mixing : List (Bool × Action) :=
  [(false, .proceed), (false, .proceed), (true, .proceed), (true, .proceed)] ++
    pairLabels false ++ List.replicate 4 (true, .proceed) ++
    [(false, .proceed), (true, .write 0 digestText)]

theorem mixed :
    ¬ ∀ (labels : List (Bool × Action)) (s : System Bool),
      Transition.run (step .reference "evidence")
        (System.start (fun _ => { runs := 1, warmups := 0 }) .empty) labels = some s →
      Unmixed "evidence" s := by
  intro h
  have hrun : ((Transition.run (step .reference "evidence")
      (System.start (fun _ => { runs := 1, warmups := 0 }) .empty) mixing).any fun s =>
        s.tree.entry "evidence" = some (.directory 0) ∧ (false, .published 0) ∈ s.log ∧
        (["manifest.json"], .file 9) ∈ s.tree.nodes 0 ∧ (false, .opened 9) ∈ s.log ∧
        (["sha256.stdout"], .file 11) ∈ s.tree.nodes 0 ∧
        (true, .wrote 11 digestText) ∈ s.log) = true := by decide +kernel
  obtain ⟨s, hs, hstate⟩ := (Option.any_eq_true ..).1 hrun
  obtain ⟨hentry, hpublished, hmanifest, hopened, hdigest, hwrote⟩ := of_decide_eq_true hstate
  obtain ⟨i, hi⟩ := h mixing s hs 0 hentry ⟨_, hpublished⟩
  have hfalse : false = i := hi _ _ hmanifest _ (.inl hopened)
  have htrue : true = i := hi _ _ hdigest _ (.inr ⟨_, hwrote⟩)
  cases hfalse.trans htrue.symm

end Runs

end BengalMarket.Benchmark
