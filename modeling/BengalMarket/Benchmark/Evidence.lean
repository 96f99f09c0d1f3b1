import BengalMarket.Benchmark.Bundle

namespace BengalMarket.Benchmark

open Directories (Path FileTree)
open Directories.FileTree (Extends)

variable {J : JsonLibrary} {output : String} {t : FileTree String} {inst other : Instance}
  {a : Action} {m : Move}

def Own (output : String) (t after : FileTree String) (inst : Instance) (file : Nat) : Prop :=
  (∃ offset, (file, offset) ∈ inst.descriptors) ∨
    ∃ number, t.entry (working output) = some (.directory number) ∧ after.home file = some number

structure Ran (output : String) (t : FileTree String) (inst : Instance) (m : Move) : Prop where
  entry : m.tree.entry = t.entry
  extended : Extends t m.tree
  before : ∃ tasks, inst.stage = .running tasks
  after : ∃ tasks, m.after.stage = .running tasks
  directory : m.after.directory = inst.directory
  descriptors : ∀ file offset, (file, offset) ∈ m.after.descriptors → Own output t m.tree inst file
  effects : ∀ effect ∈ m.effects, ∃ file, Own output t m.tree inst file ∧
    (effect = .opened file ∨ ∃ data, effect = .wrote file data)

inductive Moved (output : String) (t : FileTree String) (inst : Instance) (a : Action) : Move → Prop
  | failed (hstage : inst.stage ≠ .published) : Moved output t inst a ⟨t, inst.fail, []⟩
  | checkedOutput (hstage : inst.stage = .checkingOutput) (h : t.entry output = none) :
      Moved output t inst a ⟨t, { inst with stage := .checkingWorking }, []⟩
  | checkedWorking (hstage : inst.stage = .checkingWorking) :
      Moved output t inst a ⟨t, { inst with stage := .makingWorking }, []⟩
  | made {number : Nat} {tree : FileTree String} (hstage : inst.stage = .makingWorking)
      (hproceed : a = .proceed) (h : t.createDirectory (working output) = some (number, tree)) :
      Moved output t inst a
        ⟨tree, { inst with stage := .makingRuns, directory := some number }, []⟩
  | madeRuns {tree : FileTree String} (hstage : inst.stage = .makingRuns)
      (h : t.createBelow (working output) ["runs"] = some tree) :
      Moved output t inst a ⟨tree, { inst with stage := .running inst.options.tasks }, []⟩
  | ran {m : Move} (h : Ran output t inst m) : Moved output t inst a m
  | published {tree : FileTree String} {effects : List Effect} (hstage : inst.stage = .running [])
      (h : t.rename (working output) output = some tree)
      (heffects : ∀ effect ∈ effects, ∃ number, effect = .published number ∧
        t.entry (working output) = some (.directory number)) :
      Moved output t inst a ⟨tree, { inst with stage := .published }, effects⟩

theorem ran_quiet {after : Instance} {tree : FileTree String} {tasks rest : List Task}
    (hstage : inst.stage = .running tasks) (hafter : after.stage = .running rest)
    (hdirectory : after.directory = inst.directory)
    (hdescriptors : ∀ p ∈ after.descriptors, p ∈ inst.descriptors)
    (hentry : tree.entry = t.entry) (hextended : Extends t tree) :
    Ran output t inst ⟨tree, after, []⟩ where
  entry := hentry
  extended := hextended
  before := ⟨tasks, hstage⟩
  after := ⟨rest, hafter⟩
  directory := hdirectory
  descriptors _ offset hmem := .inl ⟨offset, hdescriptors _ hmem⟩
  effects := nofun

theorem moved_perform {task : Task} {rest : List Task}
    (hstage : inst.stage = .running (task :: rest))
    (h : perform J output t inst rest task = some m) : Moved output t inst a m := by
  cases task with
  | openFile path =>
    simp only [perform, Option.some.injEq] at h
    subst h
    split
    · exact .failed (by simp [hstage])
    · rename_i file tree hopen
      obtain ⟨number, hworking, hentry, hhome, hextended⟩ := FileTree.openFile_spec hopen
      have hown : Own output t tree inst file := .inr ⟨number, hworking, hhome⟩
      refine .ran ⟨hentry, hextended, ⟨_, hstage⟩, ⟨rest, rfl⟩, rfl, fun n offset hmem => ?_, ?_⟩
      · rcases List.mem_append.1 hmem with hmem | hmem
        · exact .inl ⟨offset, hmem⟩
        · cases List.mem_singleton.1 hmem
          exact hown
      · rintro effect hmem
        exact ⟨file, hown, .inl (List.mem_singleton.1 hmem)⟩
  | child limit => simp [perform] at h
  | stream =>
    simp only [perform, Option.some.injEq] at h
    subst h
    exact .ran (ran_quiet hstage rfl rfl nofun rfl (.refl t))
  | readText path =>
    simp only [perform, Option.some.injEq] at h
    subst h
    split
    · exact .failed (by simp [hstage])
    · exact .ran (ran_quiet hstage rfl rfl (fun _ => id) rfl (.refl t))
  | check c =>
    simp only [perform, Option.some.injEq] at h
    subst h
    split
    · exact .ran (ran_quiet hstage rfl rfl (fun _ => id) rfl (.refl t))
    · exact .failed (by simp [hstage])
  | remove path =>
    simp only [perform, Option.some.injEq] at h
    subst h
    cases hremove : t.removeFile (working output) path with
    | none => exact .failed (by simp [hstage])
    | some tree =>
      obtain ⟨hentry, hextended⟩ := FileTree.removeFile_spec hremove
      exact .ran (ran_quiet hstage rfl rfl (fun _ => id) hentry hextended)

theorem moved_proceed (h : proceed J output t inst = some m) :
    Moved output t inst .proceed m := by
  unfold proceed at h
  split at h
  · rename_i hstage
    cases h
    split
    · exact .failed (by simp [hstage])
    · rename_i hnone
      exact .checkedOutput hstage (by simpa using hnone)
  · rename_i hstage
    cases h
    split
    · exact .failed (by simp [hstage])
    · exact .checkedWorking hstage
  · rename_i hstage
    simp only [Option.some.injEq] at h
    subst h
    split
    · exact .failed (by simp [hstage])
    · rename_i number tree hcreate
      exact .made hstage rfl hcreate
  · rename_i hstage
    cases h
    cases hcreate : t.createBelow (working output) ["runs"] with
    | none => exact .failed (by simp [hstage])
    | some tree => exact .madeRuns hstage hcreate
  · rename_i hstage
    exact moved_perform hstage h
  · rename_i hstage
    simp only [Option.some.injEq] at h
    subst h
    split
    · exact .failed (by simp [hstage])
    · rename_i tree hrename
      refine .published hstage hrename fun effect hmem => ?_
      split at hmem
      · rename_i number hworking
        exact ⟨number, List.mem_singleton.1 hmem, hworking⟩
      · cases hmem
  · cases h
  · cases h

theorem moved_write {descriptor : Nat} {data : Bytes} {tasks : List Task}
    (hstage : inst.stage = .running tasks) (h : write t inst descriptor data = some m) :
    Moved output t inst a m := by
  rw [write, Option.map_eq_some_iff] at h
  obtain ⟨⟨file, offset⟩, hget, rfl⟩ := h
  have hmem := List.mem_of_getElem? hget
  refine .ran ⟨rfl, FileTree.extends_write offset data, ⟨tasks, hstage⟩, ⟨tasks, hstage⟩, rfl,
    ?_, ?_⟩
  · intro n k hset
    rcases List.mem_or_eq_of_mem_set hset with hold | heq
    · exact .inl ⟨k, hold⟩
    · cases heq
      exact .inl ⟨offset, hmem⟩
  · intro effect heffect
    exact ⟨file, .inl ⟨offset, hmem⟩, .inr ⟨data, List.mem_singleton.1 heffect⟩⟩

theorem moved_of_move (h : move J output t inst a = some m) : Moved output t inst a m := by
  unfold move at h
  split at h
  · exact moved_proceed h
  · split at h
    · rename_i hstage
      exact moved_write hstage h
    · rename_i hstage
      exact moved_write hstage h
    · cases h
  · split at h
    · rename_i hstage
      cases h
      split
      · exact .failed (by simp [hstage])
      · exact .ran (ran_quiet hstage rfl rfl nofun rfl (.refl t))
    · cases h
  · split at h
    · cases h
    · cases h
    · rename_i hpublished hfailed
      cases h
      exact .failed hpublished

theorem Moved.extended (hm : Moved output t inst a m) : Extends t m.tree := by
  cases hm with
  | failed | checkedOutput | checkedWorking => exact .refl t
  | made hstage hproceed hcreate => exact (FileTree.createDirectory_spec hcreate).1
  | madeRuns hstage hcreate =>
    obtain ⟨number, -, -, -, hextended⟩ := FileTree.createBelow_spec hcreate
    exact hextended
  | ran hran => exact hran.extended
  | published hstage hrename =>
    rcases FileTree.rename_spec hrename with rfl | ⟨rfl, -⟩
    · exact .refl _
    · exact FileTree.extends_move

section Output

/-- The output is a directory that no rename replaces. -/
def Secured (output : String) (t : FileTree String) : Prop :=
  ∃ number, t.entry output = some (.directory number) ∧
    (t.nodes number).lookup ["runs"] = some .directory

/-- As long as the output is not secured, there is none for an invocation that has not thrown, and
what the invocation has created is there. -/
def Safe (output : String) (t : FileTree String) (inst : Instance) : Prop :=
  Secured output t ∨ match inst.stage with
    | .checkingOutput | .published | .failed => True
    | .checkingWorking | .makingWorking => t.entry output = none
    | .makingRuns =>
      t.entry output = none ∧ ∃ number, t.entry (working output) = some (.directory number)
    | .running _ => t.entry output = none ∧ ∃ number,
      t.entry (working output) = some (.directory number) ∧
        (t.nodes number).lookup ["runs"] = some .directory

structure Kept (output : String) (t after : FileTree String) : Prop where
  extended : Extends t after
  standing : ∀ e, t.entry output = some e → after.entry output = some e
  waiting : t.entry output = none → Secured output after ∨ after.entry output = none ∧
    ∀ number, t.entry (working output) = some (.directory number) →
      after.entry (working output) = some (.directory number)

variable {after : FileTree String}

theorem kept_of_entry (hentry : after.entry = t.entry) (hextended : Extends t after) :
    Kept output t after where
  extended := hextended
  standing _ h := hentry ▸ h
  waiting h := .inr ⟨hentry ▸ h, fun _ hworking => hentry ▸ hworking⟩

theorem kept_made {number : Nat}
    (h : t.createDirectory (working output) = some (number, after)) :
    Kept output t after ∧ (t.entry output = none → after.entry output = none) ∧
      after.entry (working output) = some (.directory number) := by
  obtain ⟨hextended, ⟨hentry, rfl⟩ | ⟨hnone, -, -, hentry⟩⟩ := FileTree.createDirectory_spec h
  · exact ⟨kept_of_entry rfl hextended, id, hentry⟩
  · have houtput : after.entry output = t.entry output := by
      rw [hentry, Function.update_of_ne (working_ne output).symm]
    refine ⟨⟨hextended, fun e he => houtput.trans he, fun h => .inr ⟨houtput.trans h, ?_⟩⟩,
      fun h => houtput.trans h, by rw [hentry, Function.update_self]⟩
    intro n hn
    rw [hnone] at hn
    cases hn

theorem Secured.kept (h : Secured output t) (hkept : Kept output t after) :
    Secured output after := by
  obtain ⟨number, hentry, hruns⟩ := h
  exact ⟨number, hkept.standing _ hentry, hkept.extended.subdirectory _ _ hruns⟩

theorem Safe.kept (h : Safe output t other) (hkept : Kept output t after) :
    Safe output after other := by
  rcases h with hsecured | hstage
  · exact .inl (hsecured.kept hkept)
  · unfold Safe
    split at hstage
    · exact .inr trivial
    · exact .inr trivial
    · exact .inr trivial
    · exact (hkept.waiting hstage).imp_right And.left
    · exact (hkept.waiting hstage).imp_right And.left
    · obtain ⟨hnone, number, hworking⟩ := hstage
      exact (hkept.waiting hnone).imp_right fun ⟨hafter, hsame⟩ =>
        ⟨hafter, number, hsame number hworking⟩
    · obtain ⟨hnone, number, hworking, hruns⟩ := hstage
      exact (hkept.waiting hnone).imp_right fun ⟨hafter, hsame⟩ =>
        ⟨hafter, number, hsame number hworking, hkept.extended.subdirectory _ _ hruns⟩

theorem Safe.publishing (h : Safe output t inst) (hstage : inst.stage = .running []) :
    Secured output t ∨ t.entry output = none ∧ ∃ number,
      t.entry (working output) = some (.directory number) ∧
        (t.nodes number).lookup ["runs"] = some .directory := by
  simpa only [Safe, hstage] using h

theorem Safe.kept_published (h : Safe output t inst) (hstage : inst.stage = .running [])
    (hrename : t.rename (working output) output = some after) : Kept output t after := by
  rcases FileTree.rename_spec hrename with rfl | ⟨rfl, hempty⟩
  · exact kept_of_entry rfl (.refl _)
  · rcases h.publishing hstage with ⟨number, hentry, hruns⟩ | ⟨hnone, number, hworking, hruns⟩
    · rw [hempty number hentry] at hruns
      cases hruns
    · refine ⟨FileTree.extends_move, fun e he => ?_, fun _ => .inl ⟨number, ?_, hruns⟩⟩
      · rw [hnone] at he
        cases he
      · rw [FileTree.entry_move_new, hworking]

theorem Safe.kept_moved (h : Safe output t inst) (hm : Moved output t inst a m) :
    Kept output t m.tree := by
  cases hm with
  | failed | checkedOutput | checkedWorking => exact kept_of_entry rfl (.refl t)
  | made hstage hproceed hcreate => exact (kept_made hcreate).1
  | madeRuns hstage hcreate =>
    obtain ⟨number, -, hentry, -, hextended⟩ := FileTree.createBelow_spec hcreate
    exact kept_of_entry hentry hextended
  | ran hran => exact kept_of_entry hran.entry hran.extended
  | published hstage hrename => exact h.kept_published hstage hrename

theorem Safe.moved (h : Safe output t inst) (hm : Moved output t inst a m) :
    Safe output m.tree m.after := by
  have hsecured (hsecured : Secured output t) : Safe output m.tree m.after :=
    .inl (hsecured.kept (h.kept_moved hm))
  cases hm with
  | failed => exact .inr trivial
  | checkedOutput hstage hnone => exact .inr hnone
  | checkedWorking hstage =>
    rcases h with hs | hbefore
    · exact hsecured hs
    · rw [hstage] at hbefore
      exact .inr hbefore
  | made hstage hproceed hcreate =>
    rcases h with hs | hbefore
    · exact hsecured hs
    · rw [hstage] at hbefore
      obtain ⟨-, hnone, hworking⟩ := kept_made hcreate
      exact .inr ⟨hnone hbefore, _, hworking⟩
  | madeRuns hstage hcreate =>
    obtain ⟨number, hworking, hentry, hruns, -⟩ := FileTree.createBelow_spec hcreate
    rcases h with hs | hbefore
    · exact hsecured hs
    · rw [hstage] at hbefore
      exact .inr ⟨hentry ▸ hbefore.1, number, hentry ▸ hworking, hruns⟩
  | ran hran =>
    obtain ⟨tasks, hbefore⟩ := hran.before
    obtain ⟨rest, hafter⟩ := hran.after
    have hkept : Safe output m.tree inst := h.kept (kept_of_entry hran.entry hran.extended)
    simpa only [Safe, hbefore, hafter] using hkept
  | published hstage hrename => exact .inr trivial

end Output

section Systems

variable {ι : Type} {s u : System ι} {i : ι}

structure Stepped (output : String) (s u : System ι) (i : ι) (a : Action) (m : Move) : Prop where
  moved : Moved output s.tree (s.instances i) a m
  tree : u.tree = m.tree
  self : u.instances i = m.after
  others : ∀ j ≠ i, u.instances j = s.instances j
  log : u.log = s.log ++ m.effects.map fun effect => (i, effect)

theorem stepped_of_step [DecidableEq ι] (h : step J output s (i, a) = some u) :
    ∃ m, Stepped output s u i a m := by
  rw [step, Option.map_eq_some_iff] at h
  obtain ⟨m, hmove, rfl⟩ := h
  exact ⟨m, moved_of_move hmove, rfl, Function.update_self .., fun j hne =>
    Function.update_of_ne hne .., rfl⟩

variable (hs : Stepped output s u i a m)

include hs

theorem Stepped.mem_log {j : ι} {effect : Effect} :
    (j, effect) ∈ u.log ↔ (j, effect) ∈ s.log ∨ j = i ∧ effect ∈ m.effects := by
  simp only [hs.log, List.mem_append, List.mem_map, Prod.mk.injEq]
  constructor
  · rintro (hmem | ⟨_, he, rfl, rfl⟩)
    · exact .inl hmem
    · exact .inr ⟨rfl, he⟩
  · rintro (hmem | ⟨rfl, he⟩)
    · exact .inl hmem
    · exact .inr ⟨effect, he, rfl, rfl⟩

theorem Stepped.safe (h : ∀ j, Safe output s.tree (s.instances j)) :
    Kept output s.tree u.tree ∧ ∀ j, Safe output u.tree (u.instances j) := by
  have hkept := (h i).kept_moved hs.moved
  rw [hs.tree]
  refine ⟨hkept, fun j => ?_⟩
  by_cases hne : j = i
  · subst hne
    rw [hs.self]
    exact (h j).moved hs.moved
  · rw [hs.others j hne]
    exact (h j).kept hkept

end Systems

section Runs

variable {ι : Type} [DecidableEq ι] {s u : System ι} {labels : List (ι × Action)}

theorem invoked_cases (options : Options) : Instance.invoked options = { options := options } ∨
    Instance.invoked options = { options := options, stage := .failed } := by
  unfold Instance.invoked
  split
  · exact .inr rfl
  · split
    · exact .inr rfl
    · exact .inl rfl

theorem safe_invoked (options : Options) : Safe output t (.invoked options) := by
  rcases invoked_cases options with heq | heq <;> rw [heq] <;> exact .inr trivial

theorem safe_run (h : ∀ i, Safe output s.tree (s.instances i))
    (hrun : Transition.run (step J output) s labels = some u) :
    ∀ i, Safe output u.tree (u.instances i) := by
  induction labels generalizing s with
  | nil =>
    cases hrun
    exact h
  | cons label labels ih =>
    obtain ⟨r, hstep, hrest⟩ := Transition.run_cons_eq_some hrun
    obtain ⟨m, hstepped⟩ := stepped_of_step hstep
    exact ih (hstepped.safe h).2 hrest

theorem output_run (h : ∀ i, Safe output s.tree (s.instances i))
    (hrun : Transition.run (step J output) s labels = some u) {e : Directories.Entry}
    (hentry : s.tree.entry output = some e) : u.tree.entry output = some e := by
  induction labels generalizing s with
  | nil =>
    cases hrun
    exact hentry
  | cons label labels ih =>
    obtain ⟨r, hstep, hrest⟩ := Transition.run_cons_eq_some hrun
    obtain ⟨m, hstepped⟩ := stepped_of_step hstep
    obtain ⟨hkept, hsafe⟩ := hstepped.safe h
    exact ih hsafe hrest (hkept.standing e hentry)

end Runs

end BengalMarket.Benchmark
