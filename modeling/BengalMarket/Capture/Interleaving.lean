import BengalMarket.Capture.Ownership

namespace BengalMarket.AtomicOutput

open Capture (temporary)
open FileSystem (Disk File)

variable {ι : Type}

def links (log : List (ι × Effect)) : List (ι × Nat) :=
  log.filterMap fun
    | (i, .linked number) => some (i, number)
    | _ => none

def dataOf (number : Nat) (log : List (ι × Effect)) : Bytes :=
  log.flatMap fun
    | (_, .wrote other data) => if other = number then data else []
    | _ => []

/-- The log tells what happened to the files, and every effect is one on the own file. -/
structure Logged (s : System ι) : Prop where
  created : ∀ i f, (i, .created f) ∈ s.log ↔ (s.instances i).file = some f
  wrote : ∀ i f data, (i, .wrote f data) ∈ s.log → (s.instances i).file = some f
  linked : ∀ i f, (i, .linked f) ∈ s.log ↔
    (s.instances i).published = true ∧ (s.instances i).file = some f
  unlinked : ∀ i f, (i, .unlinked f) ∈ s.log → (s.instances i).file = some f
  once : (links s.log).length ≤ 1
  data : ∀ i f file, (s.instances i).file = some f → s.disk.files[f]? = some file →
    file.data = dataOf f s.log

variable {destination : String} {start d : Disk String} {inst : Instance} {m : Move}

structure Effects (inst : Instance) (m : Move) : Prop where
  created : ∀ f, m.after.file = some f ↔ inst.file = some f ∨ .created f ∈ m.effects
  wrote : ∀ f data, .wrote f data ∈ m.effects → m.after.file = some f
  linked : ∀ f, m.after.published = true ∧ m.after.file = some f ↔
    (inst.published = true ∧ inst.file = some f) ∨ .linked f ∈ m.effects
  unlinked : ∀ f, .unlinked f ∈ m.effects → m.after.file = some f

theorem Sound.effects (h : Sound destination start d inst) (hm : Moved destination d inst m) :
    Effects inst m := by
  cases hm with
  | quiet hquiet => constructor <;> simp [hquiet.file, hquiet.published]
  | created hstage hcreate =>
    obtain ⟨hfile, -, hpublished, -⟩ := h.unpublished_of_stage hstage
    constructor <;> simp [hfile, hpublished, eq_comm]
  | wrote hfd hwrote =>
    obtain ⟨hfile, hpublished, -⟩ := h.file_of_fd hfd
    constructor <;> simp_all [hwrote.file, hwrote.published]
  | synced hstage hfd => constructor <;> simp
  | linked hstage hlink =>
    obtain ⟨hfile, -, hpublished, -⟩ := h.linking hstage (Disk.link_spec hlink).1
    constructor <;> simp [hfile, hpublished, eq_comm]
  | unlinked hstage hunlink =>
    obtain ⟨hfile, hpublished, -⟩ := h.unlinking hstage (Disk.unlink_spec hunlink).1
    constructor <;> simp [hfile, hpublished, eq_comm]
  | directorySynced => constructor <;> simp

theorem moved_data (i : ι) (hm : Moved destination d inst m) {n : Nat} {file : File}
    (hget : m.disk.files[n]? = some file) :
    (∃ old, d.files[n]? = some old ∧
      file.data = old.data ++ dataOf n (m.effects.map fun effect => (i, effect))) ∨
    n = d.files.length ∧ file.data = [] ∧ m.effects = [.created n] := by
  cases hm with
  | quiet | directorySynced => exact .inl ⟨file, hget, by simp [dataOf]⟩
  | created hstage hcreate =>
    obtain ⟨-, rfl, hfiles, -⟩ := Disk.create_spec hcreate
    rw [hfiles, List.getElem?_append] at hget
    split at hget
    · exact .inl ⟨file, hget, by simp [dataOf]⟩
    · rename_i hge
      obtain ⟨hlast, rfl⟩ := List.getElem?_eq_some_iff.1 hget
      rw [List.length_singleton] at hlast
      obtain rfl : n = d.files.length := by omega
      exact .inr ⟨rfl, by simp, rfl⟩
  | wrote hfd hwrote =>
    rename_i number taken after
    refine .inl ?_
    rw [Disk.append, Disk.getElem?_modify] at hget
    by_cases heq : number = n
    · rw [if_pos heq, Option.map_eq_some_iff] at hget
      obtain ⟨old, hold, rfl⟩ := hget
      exact ⟨old, hold, by simp [dataOf, heq]⟩
    · rw [if_neg heq] at hget
      exact ⟨file, hget, by simp [dataOf, heq]⟩
  | synced hstage hfd =>
    rename_i number
    refine .inl ?_
    rw [Disk.sync, Disk.getElem?_modify] at hget
    split at hget
    · rw [Option.map_eq_some_iff] at hget
      obtain ⟨old, hold, rfl⟩ := hget
      exact ⟨old, hold, by simp [dataOf]⟩
    · exact ⟨file, hget, by simp [dataOf]⟩
  | linked hstage hlink =>
    obtain ⟨-, -, hfiles, -⟩ := Disk.link_spec hlink
    exact .inl ⟨file, hfiles ▸ hget, by simp [dataOf]⟩
  | unlinked hstage hunlink =>
    obtain ⟨-, hfiles, -⟩ := Disk.unlink_spec hunlink
    exact .inl ⟨file, hfiles ▸ hget, by simp [dataOf]⟩

theorem moved_links (i : ι) (hm : Moved destination d inst m) :
    links (m.effects.map fun effect => (i, effect)) = [] ∨
      d.entry destination = none ∧
        ∃ f, links (m.effects.map fun effect => (i, effect)) = [(i, f)] := by
  cases hm with
  | linked hstage hlink => exact .inr ⟨(Disk.link_spec hlink).2.1, _, rfl⟩
  | _ => exact .inl rfl

section Steps

variable {s t : System ι} {i : ι}

theorem mem_links {j : ι} {f : Nat} {log : List (ι × Effect)} :
    (j, f) ∈ links log ↔ (j, .linked f) ∈ log := by
  rw [links, List.mem_filterMap]
  constructor
  · rintro ⟨⟨k, effect⟩, hmem, heq⟩
    cases effect <;> simp at heq
    obtain ⟨rfl, rfl⟩ := heq
    exact hmem
  · exact fun hmem => ⟨_, hmem, rfl⟩

theorem dataOf_eq_nil {f : Nat} {log : List (ι × Effect)}
    (h : ∀ j data, (j, Effect.wrote f data) ∉ log) : dataOf f log = [] := by
  rw [dataOf, List.flatMap_eq_nil_iff]
  rintro ⟨j, effect⟩ hmem
  cases effect with
  | wrote number data =>
    have hne : number ≠ f := fun heq => h j data (heq ▸ hmem)
    simp [hne]
  | created | linked | unlinked => rfl

theorem logged_start (destination : String) (disk : Disk String) :
    Logged (System.start destination disk : System ι) where
  created i f := by simp [System.start, file_opened]
  wrote := nofun
  linked i f := by simp [System.start, file_opened]
  unlinked := nofun
  once := Nat.zero_le _
  data i f file hfile := by simp [System.start, file_opened] at hfile

variable (hinv : Invariant destination start s) (h : Logged s)
  (hs : Stepped destination s t i m)

include hs

theorem Stepped.mem_log {j : ι} {effect : Effect} :
    (j, effect) ∈ t.log ↔ (j, effect) ∈ s.log ∨ j = i ∧ effect ∈ m.effects := by
  rw [hs.log, List.mem_append, List.mem_map]
  constructor
  · rintro (hmem | ⟨e, he, heq⟩)
    · exact .inl hmem
    · cases heq
      exact .inr ⟨rfl, he⟩
  · rintro (hmem | ⟨rfl, he⟩)
    · exact .inl hmem
    · exact .inr ⟨effect, he, rfl⟩

include hinv h

theorem Logged.step_created (j : ι) (f : Nat) :
    (j, .created f) ∈ t.log ↔ (t.instances j).file = some f := by
  have heffects := (hinv.sound i).effects hs.moved
  rw [hs.mem_log, h.created]
  by_cases hne : j = i
  · subst hne
    simp [hs.self, heffects.created]
  · simp [hne, hs.others j hne]

theorem Logged.step_file {j : ι} {f : Nat} (hfile : (s.instances j).file = some f) :
    (t.instances j).file = some f := by
  rw [← h.step_created hinv hs, hs.mem_log, h.created]
  exact .inl hfile

theorem Logged.step_once : (links t.log).length ≤ 1 := by
  have hsplit : links t.log =
      links s.log ++ links (m.effects.map fun effect => (i, effect)) := by
    rw [hs.log, links, List.filterMap_append]
    rfl
  rcases moved_links i hs.moved with hnone | ⟨hfree, f, hone⟩
  · rw [hsplit, hnone, List.append_nil]
    exact h.once
  · have hempty : links s.log = [] := by
      rw [List.eq_nil_iff_forall_not_mem]
      rintro ⟨j, g⟩ hmem
      obtain ⟨hpublished, -⟩ := (h.linked j g).1 (mem_links.1 hmem)
      obtain ⟨g, -, hentry, -⟩ := (hinv.sound j).published hpublished
      rw [hentry] at hfree
      cases hfree
    rw [hsplit, hempty, hone]
    exact Nat.le_refl 1

theorem Logged.step_data {j : ι} {f : Nat} {file : File}
    (hfile : (t.instances j).file = some f) (hget : t.disk.files[f]? = some file) :
    file.data = dataOf f t.log := by
  have hsplit : dataOf f t.log =
      dataOf f s.log ++ dataOf f (m.effects.map fun effect => (i, effect)) := by
    rw [hs.log, dataOf, List.flatMap_append]
    rfl
  rw [hs.disk] at hget
  rcases moved_data i hs.moved hget with ⟨old, hold, hdata⟩ | ⟨rfl, hempty, heffects⟩
  · have hlt := (List.getElem?_eq_some_iff.1 hold).1
    have hbefore : (s.instances j).file = some f := by
      by_cases hne : j = i
      · subst hne
        rw [hs.self] at hfile
        rcases (hinv.sound j).moved_file hs.moved with hsame | ⟨-, hnew⟩
        · exact hsame ▸ hfile
        · cases hfile.symm.trans hnew
          exact absurd hlt (Nat.lt_irrefl _)
      · exact hs.others j hne ▸ hfile
    rw [hdata, hsplit, h.data j f old hbefore hold]
  · have hfresh : dataOf s.disk.files.length s.log = [] := by
      refine dataOf_eq_nil fun k data hmem => ?_
      exact absurd ((hinv.sound k).stored _ (h.wrote k _ data hmem)).lt (Nat.lt_irrefl _)
    rw [hempty, hsplit, hfresh, heffects]
    rfl

theorem Logged.step : Logged t where
  created := h.step_created hinv hs
  wrote j f data hmem := by
    rcases hs.mem_log.1 hmem with hmem | ⟨rfl, hmem⟩
    · exact h.step_file hinv hs (h.wrote j f data hmem)
    · rw [hs.self]
      exact ((hinv.sound j).effects hs.moved).wrote f data hmem
  linked j f := by
    have heffects := (hinv.sound i).effects hs.moved
    rw [hs.mem_log, h.linked]
    by_cases hne : j = i
    · subst hne
      simp [hs.self, heffects.linked]
    · simp [hne, hs.others j hne]
  unlinked j f hmem := by
    rcases hs.mem_log.1 hmem with hmem | ⟨rfl, hmem⟩
    · exact h.step_file hinv hs (h.unlinked j f hmem)
    · rw [hs.self]
      exact ((hinv.sound j).effects hs.moved).unlinked f hmem
  once := h.step_once hinv hs
  data _ _ _ := h.step_data hinv hs

end Steps

section Runs

variable {s t : System ι} {i : ι}

theorem Invariant.step_content (h : Invariant destination start s)
    (hs : Stepped destination s t i m) {n : Nat} (hn : s.disk.entry destination = some n) :
    t.disk.entry destination = some n ∧ t.disk.files[n]? = s.disk.files[n]? := by
  have hfd : (s.instances i).fd ≠ some n := by
    intro hfd
    obtain ⟨hfile, hpublished⟩ := (h.sound i).fd n hfd
    rcases h.known (some n) (hn ▸ List.mem_cons_self) with hstart | ⟨j, f, hother, hj, heq⟩
    · exact absurd (start.exists_file hstart) (Nat.not_lt.2 ((h.sound i).fresh n hfile).1)
    · cases heq
      rw [h.distinct hfile hj, hother] at hpublished
      cases hpublished
  refine ⟨h.step_destination hs hn, ?_⟩
  rw [hs.disk]
  exact (moved_files hs.moved).2 n (s.disk.lt_of_entry hn) hfd

variable [DecidableEq ι] {disk : Disk String} {earlier later labels : List (ι × Action)}

theorem keep {a : ι × Action} (h : Invariant destination start s ∧ Logged s)
    (hs : step destination s a = some t) : Invariant destination start t ∧ Logged t := by
  obtain ⟨m, hstepped⟩ := stepped_of_step hs
  exact ⟨h.1.step hstepped, h.2.step h.1 hstepped⟩

theorem holds_of_run
    (h : Transition.run (step destination) (System.start destination disk) labels = some s) :
    Invariant destination disk s ∧ Logged s :=
  Transition.run_invariant keep ⟨invariant_start destination disk, logged_start destination disk⟩ h

theorem run_content (h : Invariant destination start s ∧ Logged s)
    (hrun : Transition.run (step destination) s labels = some t) {n : Nat}
    (hn : s.disk.entry destination = some n) :
    t.disk.entry destination = some n ∧ t.disk.files[n]? = s.disk.files[n]? := by
  induction labels generalizing s with
  | nil =>
    cases hrun
    exact ⟨hn, rfl⟩
  | cons a labels ih =>
    obtain ⟨u, hstep, hrest⟩ := Transition.run_cons_eq_some hrun
    obtain ⟨m, hstepped⟩ := stepped_of_step hstep
    obtain ⟨hentry, hsame⟩ := h.1.step_content hstepped hn
    obtain ⟨hafter, hfile⟩ := ih (keep h hstep) hrest hentry
    exact ⟨hafter, hfile.trans hsame⟩

/-- Recorders of one destination never overwrite or mix, however their system calls interleave. -/
theorem never_mixed
    (hearlier : Transition.run (step destination) (System.start destination disk) earlier = some s)
    (hlater : Transition.run (step destination) s later = some t) :
    (∀ data, s.disk.content destination = some data → t.disk.content destination = some data) ∧
    (∀ data, t.disk.content destination = some data →
      disk.content destination = some data ∨
      ∃ i f, (i, .created f) ∈ t.log ∧ (i, .linked f) ∈ t.log ∧ dataOf f t.log = data ∧
        ∀ j part, (j, .wrote f part) ∈ t.log → j = i) ∧
    (links t.log).length ≤ 1 ∧
    (∀ i f, (∃ data, (i, .wrote f data) ∈ t.log) ∨ (i, .unlinked f) ∈ t.log →
      (i, .created f) ∈ t.log ∧ ∀ j, (j, .created f) ∈ t.log → j = i) := by
  have hs := holds_of_run hearlier
  obtain ⟨hinv, hlogged⟩ : Invariant destination disk t ∧ Logged t :=
    Transition.run_invariant keep hs hlater
  have hentry {d : Disk String} {data : Bytes} (hdata : d.content destination = some data) :
      ∃ n, d.entry destination = some n ∧ ∃ file, d.files[n]? = some file ∧ file.data = data := by
    simpa [Disk.content, Option.bind_eq_some_iff] using hdata
  refine ⟨fun data hdata => ?_, fun data hdata => ?_, hlogged.once, fun i f heffect => ?_⟩
  · obtain ⟨n, hn, file, hget, rfl⟩ := hentry hdata
    obtain ⟨hafter, hsame⟩ := run_content hs hlater hn
    simp [Disk.content, hafter, hsame, hget]
  · obtain ⟨n, hn, file, hget, rfl⟩ := hentry hdata
    rcases hinv.origin n hn with hstart | ⟨i, hpublished, hfile⟩
    · have hsame := hinv.kept n (disk.lt_of_entry hstart)
      exact .inl (by simp [Disk.content, hstart, ← hsame, hget])
    · refine .inr ⟨i, n, (hlogged.created i n).2 hfile, (hlogged.linked i n).2 ⟨hpublished, hfile⟩,
        (hlogged.data i n file hfile hget).symm, fun j part hwrote => ?_⟩
      exact hinv.distinct (hlogged.wrote j n part hwrote) hfile
  · have hfile : (t.instances i).file = some f := by
      rcases heffect with ⟨data, hwrote⟩ | hunlinked
      · exact hlogged.wrote i f data hwrote
      · exact hlogged.unlinked i f hunlinked
    refine ⟨(hlogged.created i f).2 hfile, fun j hj => ?_⟩
    exact hinv.distinct ((hlogged.created j f).1 hj) hfile

def commitLabels (i : ι) : List (ι × Action) :=
  (i, .call .commit) :: List.replicate 7 (i, .answer .ok)

/-- Two recorders find no destination; one of them publishes. -/
def raceWon : List (Bool × Action) :=
  [(false, .answer .ok), (true, .answer .ok), (false, .answer .ok), (false, .call (.write [1])),
    (false, .answer (.write ⟨1, false, ""⟩))] ++ commitLabels false

def raceLost : List (Bool × Action) :=
  [(true, .answer .ok), (true, .call (.write [2])), (true, .answer (.write ⟨1, false, ""⟩)),
    (true, .call .commit), (true, .answer .ok), (true, .answer .ok),
    (true, .answer (.error "File exists"))]

theorem never_mixed_race :
    ∃ s t, Transition.run (step "log") (System.start "log" .empty) raceWon = some s ∧
      Transition.run (step "log") s raceLost = some t ∧ s.disk.content "log" = some [1] ∧
      t.disk.content "log" = some [1] ∧ (true, .wrote 1 [2]) ∈ t.log ∧
      ∀ j, (j, .created 1) ∈ t.log → j = true := by
  obtain ⟨s, t, hs, ht, hcontent, hwrote⟩ :
      ∃ s t, Transition.run (step "log") (System.start "log" .empty) raceWon = some s ∧
        Transition.run (step "log") s raceLost = some t ∧ s.disk.content "log" = some [1] ∧
        (true, .wrote 1 [2]) ∈ t.log := ⟨_, _, rfl, rfl, rfl, by decide⟩
  obtain ⟨hkept, -, -, hown⟩ := never_mixed hs ht
  exact ⟨s, t, hs, ht, hcontent, hkept _ hcontent, hwrote, (hown true 1 (.inl ⟨_, hwrote⟩)).2⟩

end Runs

end BengalMarket.AtomicOutput
