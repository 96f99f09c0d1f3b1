import BengalMarket.Capture.AtomicOutput

namespace BengalMarket.AtomicOutput

open Capture (temporary temporary_ne)
open FileSystem (Disk File)

structure Stored (d : Disk String) (inst : Instance) (number : Nat) : Prop where
  file : ∃ file, d.files[number]? = some file ∧ (inst.torn = false → inst.Content file.data) ∧
    (inst.Settled → file.synced = true)

/-- The destination names the file and the partial name does not, also after a crash. -/
structure Durable (destination : String) (d : Disk String) (number : Nat) : Prop where
  lasting : ∀ entry ∈ d.possible destination, entry = some number
  gone : some number ∉ d.possible (temporary destination)

structure Sound (destination : String) (start d : Disk String) (inst : Instance) : Prop where
  consistent : inst.Consistent
  fd : ∀ f ∈ inst.fd, inst.file = some f ∧ inst.published = false
  fresh : ∀ f ∈ inst.file, start.files.length ≤ f ∧ start.entry (temporary destination) = none
  stored : ∀ f ∈ inst.file, Stored d inst f
  named : ∀ f ∈ inst.file, inst.removed = false → d.entry (temporary destination) = some f
  unnamed : ∀ f ∈ inst.file, inst.removed = true → d.entry (temporary destination) ≠ some f
  published : inst.published = true → ∃ f, inst.file = some f ∧
    d.entry destination = some f ∧ start.entry destination = none
  removed : inst.removed = true → inst.published = true
  finished : inst.Finished → inst.removed = true ∧ ∀ f ∈ inst.file, Durable destination d f

variable {destination : String} {start d : Disk String} {inst other : Instance} {m : Move}

theorem Stored.lt {number : Nat} (h : Stored d inst number) : number < d.files.length := by
  obtain ⟨file, hfile, -⟩ := h.file
  exact (List.getElem?_eq_some_iff.1 hfile).1

section Mover

variable (h : Sound destination start d inst)

include h

theorem Sound.unpublished_of_stage (hstage : inst.stage = .creating) :
    inst.file = none ∧ inst.written = [] ∧ inst.published = false ∧ inst.removed = false := by
  have hconsistent := h.consistent
  simp only [Instance.Consistent, hstage] at hconsistent
  have hpublished : inst.published = false := by
    by_contra hcontra
    obtain ⟨f, hf, -⟩ := h.published (by simpa using hcontra)
    rw [hconsistent.1] at hf
    cases hf
  refine ⟨hconsistent.1, hconsistent.2, hpublished, ?_⟩
  by_contra hcontra
  rw [h.removed (by simpa using hcontra)] at hpublished
  cases hpublished

theorem Sound.file_of_fd {f : Nat} (hfd : inst.fd = some f) :
    inst.file = some f ∧ inst.published = false ∧ inst.removed = false := by
  obtain ⟨hfile, hpublished⟩ := h.fd f hfd
  refine ⟨hfile, hpublished, ?_⟩
  by_contra hcontra
  rw [h.removed (by simpa using hcontra)] at hpublished
  cases hpublished

theorem Sound.unfinished (hremoved : inst.removed = false) : ¬ inst.Finished := by
  intro hfinished
  rw [(h.finished hfinished).1] at hremoved
  cases hremoved

theorem Sound.quiet {after : Instance} (hquiet : Quiet inst after) :
    Sound destination start d after where
  consistent := hquiet.consistent h.consistent h.fd
  fd f hf := by
    rcases hquiet.fd with hfd | hfd <;> rw [hfd] at hf
    · rw [hquiet.file, hquiet.published]
      exact h.fd f hf
    · cases hf
  fresh := hquiet.file ▸ h.fresh
  stored f hf := by
    obtain ⟨file, hfile, hcontent, hsynced⟩ := (h.stored f (hquiet.file ▸ hf)).file
    refine ⟨file, hfile, fun htorn => ?_, fun hsettled => hsynced (hquiet.settled hsettled)⟩
    obtain ⟨hbefore, hafter⟩ := hquiet.content htorn
    exact hafter _ (hcontent hbefore)
  named f hf hremoved := h.named f (hquiet.file ▸ hf) (hquiet.removed ▸ hremoved)
  unnamed f hf hremoved := h.unnamed f (hquiet.file ▸ hf) (hquiet.removed ▸ hremoved)
  published hpublished := by
    rw [hquiet.file]
    exact h.published (hquiet.published ▸ hpublished)
  removed hremoved := hquiet.published ▸ h.removed (hquiet.removed ▸ hremoved)
  finished hfinished := by
    rw [hquiet.removed, hquiet.file]
    exact h.finished (hquiet.finished hfinished)

theorem Sound.created {number : Nat} {disk : Disk String} (hstage : inst.stage = .creating)
    (hcreate : d.create (temporary destination) = some (number, disk))
    (hstale : ∀ n, start.entry (temporary destination) = some n →
      d.entry (temporary destination) = some n)
    (hlength : start.files.length ≤ d.files.length) :
    Sound destination start disk { inst with
      stage := .idle, fd := some number, file := some number, result := .ok () } := by
  obtain ⟨-, hwritten, hpublished, hremoved⟩ := h.unpublished_of_stage hstage
  obtain ⟨hnone, rfl, hfiles, hchanged⟩ := Disk.create_spec hcreate
  have hstart : start.entry (temporary destination) = none := by
    cases hentry : start.entry (temporary destination) with
    | none => rfl
    | some n => rw [hstale n hentry] at hnone; cases hnone
  constructor
  · trivial
  · rintro _ ⟨⟩
    exact ⟨rfl, hpublished⟩
  · rintro _ ⟨⟩
    exact ⟨hlength, hstart⟩
  · rintro _ ⟨⟩
    refine ⟨⟨[], false⟩, by simp [hfiles], fun _ => by simp [Instance.Content, hwritten], ?_⟩
    simp [Instance.Settled, hpublished]
  · rintro _ ⟨⟩ -
    exact hchanged.entry_self
  · rintro _ ⟨⟩ htrue
    rw [hremoved] at htrue
    cases htrue
  · intro htrue
    rw [hpublished] at htrue
    cases htrue
  · intro htrue
    rw [hremoved] at htrue
    cases htrue
  · intro hfinished
    exact (h.unfinished hremoved (finished_of_stage hfinished (by simp) rfl)).elim

theorem Sound.wrote {number : Nat} {taken : Bytes} {after : Instance}
    (hfd : inst.fd = some number) (hwrote : Wrote inst taken after) :
    Sound destination start (d.append number taken) after := by
  obtain ⟨hfile, hpublished, hremoved⟩ := h.file_of_fd hfd
  constructor
  · exact hwrote.consistent
  · rw [hwrote.fd, hwrote.file, hwrote.published]
    exact h.fd
  · rw [hwrote.file]
    exact h.fresh
  · intro f hf
    rw [hwrote.file, hfile] at hf
    cases hf
    obtain ⟨file, hget, hcontent, -⟩ := (h.stored number hfile).file
    refine ⟨⟨file.data ++ taken, false⟩, ?_, fun htorn => ?_, fun hsettled => ?_⟩
    · rw [Disk.append, Disk.getElem?_modify, if_pos rfl, hget]
      rfl
    · exact hwrote.content _ (hcontent (hwrote.torn ▸ htorn))
    · rw [hwrote.settled hsettled] at hpublished
      cases hpublished
  · rw [hwrote.file, hwrote.removed]
    exact h.named
  · rw [hwrote.file, hwrote.removed]
    exact h.unnamed
  · rw [hwrote.file, hwrote.published]
    exact h.published
  · rw [hwrote.published, hwrote.removed]
    exact h.removed
  · exact fun hfinished => absurd (hwrote.finished hfinished) (h.unfinished hremoved)

theorem Sound.synced {number : Nat} (hstage : inst.stage = .syncing)
    (hfd : inst.fd = some number) :
    Sound destination start (d.sync number) { inst with stage := .closing } := by
  obtain ⟨hfile, -, hremoved⟩ := h.file_of_fd hfd
  refine ⟨?_, h.fd, h.fresh, ?_, h.named, h.unnamed, h.published, h.removed, ?_⟩
  · simp [Instance.Consistent, hfd]
  · intro f hf
    rw [hfile] at hf
    cases hf
    obtain ⟨file, hget, hcontent, -⟩ := (h.stored number hfile).file
    refine ⟨⟨file.data, true⟩, ?_, fun htorn => ?_, fun _ => rfl⟩
    · rw [Disk.sync, Disk.getElem?_modify, if_pos rfl, hget]
      rfl
    · exact content_of_stage (hcontent htorn) (by simp [hstage]) (by simp) rfl
  · exact fun hfinished => (h.unfinished hremoved (finished_of_stage hfinished (by simp) rfl)).elim

theorem Sound.linking (hstage : inst.stage = .linking) {number : Nat}
    (hnamed : d.entry (temporary destination) = some number) :
    inst.file = some number ∧ inst.fd = none ∧ inst.published = false ∧ inst.removed = false := by
  have hconsistent := h.consistent
  simp only [Instance.Consistent, hstage, Option.isSome_iff_exists] at hconsistent
  obtain ⟨hfd, ⟨f, hf⟩, hpublished⟩ := hconsistent
  have hremoved : inst.removed = false := by
    by_contra hcontra
    rw [h.removed (by simpa using hcontra)] at hpublished
    cases hpublished
  have hsame := Option.some.inj ((h.named f hf hremoved).symm.trans hnamed)
  exact ⟨hsame ▸ hf, hfd, hpublished, hremoved⟩

theorem Sound.unlinking (hstage : inst.stage = .unlinking) {number : Nat}
    (hnamed : d.entry (temporary destination) = some number) :
    inst.file = some number ∧ inst.published = true ∧ inst.removed = false := by
  have hconsistent := h.consistent
  simp only [Instance.Consistent, hstage] at hconsistent
  obtain ⟨hpublished, hremoved⟩ := hconsistent
  obtain ⟨f, hf, -⟩ := h.published hpublished
  have hsame := Option.some.inj ((h.named f hf hremoved).symm.trans hnamed)
  exact ⟨hsame ▸ hf, hpublished, hremoved⟩

theorem Sound.linked {number : Nat} {disk : Disk String} (hstage : inst.stage = .linking)
    (hlink : d.link (temporary destination) destination = some (number, disk))
    (hdestination : d.entry destination = none → start.entry destination = none) :
    Sound destination start disk { inst with stage := .unlinking, published := true } := by
  obtain ⟨hnamed, hfree, hfiles, hchanged⟩ := Disk.link_spec hlink
  obtain ⟨hf, hfd, -, hremoved⟩ := h.linking hstage hnamed
  have htemporary := hchanged.entry_of_ne (temporary_ne destination)
  refine ⟨⟨rfl, hremoved⟩, ?_, h.fresh, ?_, ?_, ?_, ?_, fun _ => rfl, ?_⟩
  · intro g hg
    rw [hfd] at hg
    cases hg
  · intro g hg
    obtain ⟨file, hget, hcontent, hsynced⟩ := (h.stored g hg).file
    refine ⟨file, hfiles ▸ hget, fun htorn => ?_, fun _ => hsynced (.inr (.inl hstage))⟩
    exact content_of_stage (hcontent htorn) (by simp [hstage]) (by simp) rfl
  · rw [htemporary]
    exact h.named
  · rw [htemporary]
    exact h.unnamed
  · exact fun _ => ⟨number, hf, hchanged.entry_self, hdestination hfree⟩
  · exact fun hfinished => (h.unfinished hremoved (finished_of_stage hfinished (by simp) rfl)).elim

theorem Sound.unlinked {number : Nat} {disk : Disk String} (hstage : inst.stage = .unlinking)
    (hunlink : d.unlink (temporary destination) = some (number, disk)) :
    Sound destination start disk { inst with stage := .openingDirectory, removed := true } := by
  obtain ⟨hnamed, hfiles, hchanged⟩ := Disk.unlink_spec hunlink
  obtain ⟨-, hpublished, hremoved⟩ := h.unlinking hstage hnamed
  have hdestination := hchanged.entry_of_ne (temporary_ne destination).symm
  obtain ⟨f, hf, hentry, hstart⟩ := h.published hpublished
  refine ⟨rfl, h.fd, h.fresh, ?_, ?_, ?_, ?_, fun _ => hpublished, ?_⟩
  · intro g hg
    obtain ⟨file, hget, hcontent, hsynced⟩ := (h.stored g hg).file
    refine ⟨file, hfiles ▸ hget, fun htorn => ?_, fun _ => hsynced (.inr (.inr hpublished))⟩
    exact content_of_stage (hcontent htorn) (by simp [hstage]) (by simp) rfl
  · intro g _ hfalse
    cases hfalse
  · intro g _ _
    rw [hchanged.entry_self]
    nofun
  · exact fun _ => ⟨f, hf, hdestination ▸ hentry, hstart⟩
  · exact fun hfinished => (h.unfinished hremoved (finished_of_stage hfinished (by simp) rfl)).elim

theorem Sound.directorySynced (hstage : inst.stage = .syncingDirectory) :
    Sound destination start d.syncDirectory { inst with stage := .closingDirectory } := by
  have hremoved : inst.removed = true := by
    simpa only [Instance.Consistent, hstage] using h.consistent
  have hpublished := h.removed hremoved
  refine ⟨hremoved, h.fd, h.fresh, ?_, h.named, h.unnamed, h.published, h.removed, ?_⟩
  · intro g hg
    obtain ⟨file, hget, hcontent, hsynced⟩ := (h.stored g hg).file
    refine ⟨file, hget, fun htorn => ?_, fun _ => hsynced (.inr (.inr hpublished))⟩
    exact content_of_stage (hcontent htorn) (by simp [hstage]) (by simp) rfl
  · refine fun _ => ⟨hremoved, fun f hf => ⟨?_, ?_⟩⟩
    · obtain ⟨g, hg, hentry, -⟩ := h.published hpublished
      cases hf.symm.trans hg
      rw [Disk.possible_syncDirectory, List.forall_mem_singleton]
      exact hentry
    · rw [Disk.possible_syncDirectory, List.mem_singleton]
      exact fun heq => h.unnamed f hf hremoved heq.symm

end Mover

section Others

variable (h : Sound destination start d other)

include h

theorem Sound.of_disk {disk : Disk String}
    (hfiles : ∀ f ∈ other.file, disk.files[f]? = d.files[f]?)
    (hnamed : ∀ f ∈ other.file, other.removed = false →
      disk.entry (temporary destination) = some f)
    (hunnamed : ∀ f ∈ other.file, some f ∈ disk.possible (temporary destination) →
      some f ∈ d.possible (temporary destination))
    (hentry : ∀ f ∈ other.file, disk.entry (temporary destination) = some f →
      d.entry (temporary destination) = some f)
    (hdestination : other.published = true → disk.entry destination = d.entry destination ∧
      ∀ entry ∈ disk.possible destination, entry ∈ d.possible destination) :
    Sound destination start disk other where
  consistent := h.consistent
  fd := h.fd
  fresh := h.fresh
  stored f hf := by
    obtain ⟨file, hget, hrest⟩ := (h.stored f hf).file
    exact ⟨file, (hfiles f hf).trans hget, hrest⟩
  named := hnamed
  unnamed f hf hremoved heq := h.unnamed f hf hremoved (hentry f hf heq)
  published hpublished := by
    rw [(hdestination hpublished).1]
    exact h.published hpublished
  removed := h.removed
  finished hfinished := by
    obtain ⟨hremoved, hdurable⟩ := h.finished hfinished
    have hpossible := (hdestination (h.removed hremoved)).2
    refine ⟨hremoved, fun f hf => ⟨fun entry hmem => ?_, fun hmem => ?_⟩⟩
    · exact (hdurable f hf).lasting entry (hpossible entry hmem)
    · exact (hdurable f hf).gone (hunnamed f hf hmem)

theorem Sound.of_modify {number : Nat} (f : File → File) (hne : other.file ≠ some number) :
    Sound destination start (d.modify number f) other := by
  refine h.of_disk (fun g hg => ?_) h.named (fun _ _ => id) (fun _ _ => id)
    (fun _ => ⟨rfl, fun _ => id⟩)
  have hdifferent : ¬ number = g := fun heq => hne (heq ▸ hg)
  rw [Disk.getElem?_modify, if_neg hdifferent]

theorem Sound.of_syncDirectory : Sound destination start d.syncDirectory other := by
  have hsubset (name : String) : ∀ entry ∈ d.syncDirectory.possible name,
      entry ∈ d.possible name := by
    intro entry hmem
    rw [Disk.possible_syncDirectory, List.mem_singleton] at hmem
    exact hmem ▸ List.mem_cons_self
  exact h.of_disk (fun _ _ => rfl) h.named (fun _ _ => hsubset _ _) (fun _ _ => id)
    (fun _ => ⟨rfl, hsubset _⟩)

theorem Sound.of_created {number : Nat} {disk : Disk String}
    (hcreate : d.create (temporary destination) = some (number, disk)) :
    Sound destination start disk other := by
  obtain ⟨hnone, rfl, hfiles, hchanged⟩ := Disk.create_spec hcreate
  have hne {f : Nat} (hf : f ∈ other.file) : d.files.length ≠ f := Nat.ne_of_gt (h.stored f hf).lt
  have hdestination := (temporary_ne destination).symm
  refine h.of_disk (fun f hf => ?_) (fun f hf hremoved => ?_) (fun f hf hmem => ?_)
    (fun f hf heq => ?_) (fun _ => ?_)
  · rw [hfiles, List.getElem?_append_left (h.stored f hf).lt]
  · rw [h.named f hf hremoved] at hnone
    cases hnone
  · rw [hchanged.possible_self, List.mem_cons] at hmem
    exact hmem.resolve_left fun heq => hne hf (Option.some.inj heq).symm
  · rw [hchanged.entry_self] at heq
    exact absurd (Option.some.inj heq) (hne hf)
  · rw [hchanged.entry_of_ne hdestination, hchanged.possible_of_ne hdestination]
    exact ⟨rfl, fun _ => id⟩

theorem Sound.of_linked {number : Nat} {disk : Disk String}
    (hlink : d.link (temporary destination) destination = some (number, disk)) :
    Sound destination start disk other := by
  obtain ⟨-, hfree, hfiles, hchanged⟩ := Disk.link_spec hlink
  have htemporary := temporary_ne destination
  refine h.of_disk (fun f _ => by rw [hfiles]) ?_ ?_ ?_ (fun hpublished => ?_)
  · rw [hchanged.entry_of_ne htemporary]
    exact h.named
  · rw [hchanged.possible_of_ne htemporary]
    exact fun _ _ => id
  · rw [hchanged.entry_of_ne htemporary]
    exact fun _ _ => id
  · obtain ⟨f, -, hentry, -⟩ := h.published hpublished
    rw [hentry] at hfree
    cases hfree

theorem Sound.of_unlinked {number : Nat} {disk : Disk String} (hne : other.file ≠ some number)
    (hunlink : d.unlink (temporary destination) = some (number, disk)) :
    Sound destination start disk other := by
  obtain ⟨hnamed, hfiles, hchanged⟩ := Disk.unlink_spec hunlink
  have hdestination := (temporary_ne destination).symm
  refine h.of_disk (fun f _ => by rw [hfiles]) (fun f hf hremoved => ?_) (fun f hf hmem => ?_)
    (fun f hf heq => ?_) (fun _ => ?_)
  · rw [h.named f hf hremoved] at hnamed
    exact absurd (hnamed ▸ hf) hne
  · rw [hchanged.possible_self, List.mem_cons] at hmem
    exact hmem.resolve_left nofun
  · rw [hchanged.entry_self] at heq
    cases heq
  · rw [hchanged.entry_of_ne hdestination, hchanged.possible_of_ne hdestination]
    exact ⟨rfl, fun _ => id⟩

end Others

section Systems

variable {ι : Type} {s t : System ι}

structure Invariant (destination : String) (start : Disk String) (s : System ι) : Prop where
  sound : ∀ i, Sound destination start s.disk (s.instances i)
  distinct : ∀ {i j f}, (s.instances i).file = some f → (s.instances j).file = some f → i = j
  stale : ∀ n, start.entry (temporary destination) = some n →
    s.disk.entry (temporary destination) = some n
  standing : ∀ n, start.entry destination = some n → s.disk.entry destination = some n
  held : ∀ n, s.disk.entry (temporary destination) = some n →
    start.entry (temporary destination) = some n ∨
      ∃ i, (s.instances i).file = some n ∧ (s.instances i).removed = false
  origin : ∀ n, s.disk.entry destination = some n → start.entry destination = some n ∨
    ∃ i, (s.instances i).published = true ∧ (s.instances i).file = some n
  known : ∀ entry ∈ s.disk.possible destination, entry ∈ start.possible destination ∨
    ∃ i f, (s.instances i).published = true ∧ (s.instances i).file = some f ∧ entry = some f
  length : start.files.length ≤ s.disk.files.length
  kept : ∀ n < start.files.length, s.disk.files[n]? = start.files[n]?

structure Stepped (destination : String) (s t : System ι) (i : ι) (m : Move) : Prop where
  moved : Moved destination s.disk (s.instances i) m
  disk : t.disk = m.disk
  self : t.instances i = m.after
  others : ∀ j ≠ i, t.instances j = s.instances j
  log : t.log = s.log ++ m.effects.map fun effect => (i, effect)

theorem stepped_of_step [DecidableEq ι] {i : ι} {a : Action}
    (h : step destination s (i, a) = some t) : ∃ m, Stepped destination s t i m := by
  rw [step, Option.map_eq_some_iff] at h
  obtain ⟨m, hmove, rfl⟩ := h
  exact ⟨m, moved_of_move hmove, rfl, Function.update_self .., fun j hne =>
    Function.update_of_ne hne .., rfl⟩

theorem opened_cases (destination : String) :
    Instance.opened destination = {} ∨ ∃ what, Instance.opened destination =
      { stage := .gone, result := .error what } := by
  unfold Instance.opened
  split
  · exact .inl rfl
  · exact .inr ⟨_, rfl⟩

theorem sound_opened (destination : String) (d : Disk String) :
    Sound destination d d (Instance.opened destination) := by
  rcases opened_cases destination with heq | ⟨what, heq⟩ <;> rw [heq]
  · exact ⟨⟨rfl, rfl⟩, nofun, nofun, nofun, nofun, nofun, nofun, nofun, nofun⟩
  · exact ⟨trivial, nofun, nofun, nofun, nofun, nofun, nofun, nofun, nofun⟩

theorem file_opened (destination : String) : (Instance.opened destination).file = none := by
  rcases opened_cases destination with heq | ⟨what, heq⟩ <;> rw [heq]

theorem invariant_start (destination : String) (disk : Disk String) :
    Invariant destination disk (System.start destination disk : System ι) where
  sound _ := sound_opened destination disk
  distinct hi := by
    rw [System.start, file_opened] at hi
    cases hi
  stale _ := id
  standing _ := id
  held _ := .inl
  origin _ := .inl
  known _ := .inl
  length := Nat.le_refl _
  kept _ _ := rfl

theorem Sound.moved {inst : Instance} {d : Disk String} (h : Sound destination start d inst)
    (hstale : ∀ n, start.entry (temporary destination) = some n →
      d.entry (temporary destination) = some n)
    (hstanding : ∀ n, start.entry destination = some n → d.entry destination = some n)
    (hlength : start.files.length ≤ d.files.length) (hm : Moved destination d inst m) :
    Sound destination start m.disk m.after := by
  cases hm with
  | quiet hquiet => exact h.quiet hquiet
  | created hstage hcreate => exact h.created hstage hcreate hstale hlength
  | wrote hfd hwrote => exact h.wrote hfd hwrote
  | synced hstage hfd => exact h.synced hstage hfd
  | linked hstage hlink =>
    refine h.linked hstage hlink fun hnone => ?_
    cases hentry : start.entry destination with
    | none => rfl
    | some n => rw [hstanding n hentry] at hnone; cases hnone
  | unlinked hstage hunlink => exact h.unlinked hstage hunlink
  | directorySynced hstage => exact h.directorySynced hstage

theorem Sound.others {inst : Instance} {d : Disk String} (h : Sound destination start d other)
    (hinst : Sound destination start d inst)
    (hdistinct : ∀ f, inst.file = some f → other.file ≠ some f) (hm : Moved destination d inst m) :
    Sound destination start m.disk other := by
  cases hm with
  | quiet => exact h
  | created hstage hcreate => exact h.of_created hcreate
  | wrote hfd => exact h.of_modify _ (hdistinct _ (hinst.fd _ hfd).1)
  | synced hstage hfd => exact h.of_modify _ (hdistinct _ (hinst.fd _ hfd).1)
  | linked hstage hlink => exact h.of_linked hlink
  | unlinked hstage hunlink =>
    have hfile := (hinst.unlinking hstage (Disk.unlink_spec hunlink).1).1
    exact h.of_unlinked (hdistinct _ hfile) hunlink
  | directorySynced => exact h.of_syncDirectory

theorem Sound.moved_temporary {inst : Instance} {d : Disk String}
    (h : Sound destination start d inst) (hm : Moved destination d inst m) :
    (m.disk.entry (temporary destination) = d.entry (temporary destination) ∧
      m.after.file = inst.file ∧ m.after.removed = inst.removed) ∨
    (d.entry (temporary destination) = none ∧ inst.file = none ∧ m.after.removed = false ∧
      m.after.file = some d.files.length ∧
      m.disk.entry (temporary destination) = some d.files.length) ∨
    ∃ f, inst.file = some f ∧ m.after.file = some f ∧
      d.entry (temporary destination) = some f ∧ m.disk.entry (temporary destination) = none := by
  cases hm with
  | quiet hquiet => exact .inl ⟨rfl, hquiet.file, hquiet.removed⟩
  | created hstage hcreate =>
    obtain ⟨hfile, -, -, hremoved⟩ := h.unpublished_of_stage hstage
    obtain ⟨hnone, rfl, -, hchanged⟩ := Disk.create_spec hcreate
    exact .inr (.inl ⟨hnone, hfile, hremoved, rfl, hchanged.entry_self⟩)
  | wrote hfd hwrote => exact .inl ⟨rfl, hwrote.file, hwrote.removed⟩
  | synced => exact .inl ⟨rfl, rfl, rfl⟩
  | linked hstage hlink =>
    obtain ⟨-, -, -, hchanged⟩ := Disk.link_spec hlink
    exact .inl ⟨hchanged.entry_of_ne (temporary_ne destination), rfl, rfl⟩
  | unlinked hstage hunlink =>
    obtain ⟨hnamed, -, hchanged⟩ := Disk.unlink_spec hunlink
    have hfile := (h.unlinking hstage hnamed).1
    exact .inr (.inr ⟨_, hfile, hfile, hnamed, hchanged.entry_self⟩)
  | directorySynced => exact .inl ⟨rfl, rfl, rfl⟩

theorem Sound.moved_destination {inst : Instance} {d : Disk String}
    (h : Sound destination start d inst) (hm : Moved destination d inst m) :
    (m.disk.entry destination = d.entry destination ∧ m.after.published = inst.published ∧
      ∀ entry ∈ m.disk.possible destination, entry ∈ d.possible destination) ∨
    ∃ f, d.entry destination = none ∧ m.disk.entry destination = some f ∧
      inst.published = false ∧ m.after.published = true ∧ m.after.file = some f ∧
      m.effects = [.linked f] ∧ m.disk.possible destination = some f :: d.possible destination := by
  have hne := (temporary_ne destination).symm
  cases hm with
  | quiet hquiet => exact .inl ⟨rfl, hquiet.published, fun _ => id⟩
  | created hstage hcreate =>
    obtain ⟨-, -, -, hchanged⟩ := Disk.create_spec hcreate
    refine .inl ⟨hchanged.entry_of_ne hne, rfl, ?_⟩
    rw [hchanged.possible_of_ne hne]
    exact fun _ => id
  | wrote hfd hwrote => exact .inl ⟨rfl, hwrote.published, fun _ => id⟩
  | synced => exact .inl ⟨rfl, rfl, fun _ => id⟩
  | linked hstage hlink =>
    obtain ⟨hnamed, hfree, -, hchanged⟩ := Disk.link_spec hlink
    obtain ⟨hfile, -, hpublished, -⟩ := h.linking hstage hnamed
    exact .inr ⟨_, hfree, hchanged.entry_self, hpublished, rfl, hfile, rfl,
      hchanged.possible_self⟩
  | unlinked hstage hunlink =>
    obtain ⟨-, -, hchanged⟩ := Disk.unlink_spec hunlink
    refine .inl ⟨hchanged.entry_of_ne hne, rfl, ?_⟩
    rw [hchanged.possible_of_ne hne]
    exact fun _ => id
  | directorySynced =>
    refine .inl ⟨rfl, rfl, fun entry hmem => ?_⟩
    rw [Disk.possible_syncDirectory, List.mem_singleton] at hmem
    exact hmem ▸ List.mem_cons_self

theorem moved_files {inst : Instance} {d : Disk String} (hm : Moved destination d inst m) :
    d.files.length ≤ m.disk.files.length ∧ ∀ n < d.files.length, inst.fd ≠ some n →
      m.disk.files[n]? = d.files[n]? := by
  have hmodify {number : Nat} (f : File → File) (hfd : inst.fd = some number) :
      d.files.length ≤ (d.modify number f).files.length ∧ ∀ n < d.files.length,
        inst.fd ≠ some n → (d.modify number f).files[n]? = d.files[n]? := by
    refine ⟨Nat.le_of_eq (List.length_modify ..).symm, fun n _ hne => ?_⟩
    have hdifferent : ¬ number = n := fun heq => hne (heq ▸ hfd)
    rw [Disk.getElem?_modify, if_neg hdifferent]
  cases hm with
  | quiet | directorySynced => exact ⟨Nat.le_refl _, fun _ _ _ => rfl⟩
  | created hstage hcreate =>
    obtain ⟨-, -, hfiles, -⟩ := Disk.create_spec hcreate
    refine ⟨by simp [hfiles], fun n hn _ => ?_⟩
    rw [hfiles, List.getElem?_append_left hn]
  | wrote hfd => exact hmodify _ hfd
  | synced hstage hfd => exact hmodify _ hfd
  | linked hstage hlink =>
    obtain ⟨-, -, hfiles, -⟩ := Disk.link_spec hlink
    rw [hfiles]
    exact ⟨Nat.le_refl _, fun _ _ _ => rfl⟩
  | unlinked hstage hunlink =>
    obtain ⟨-, hfiles, -⟩ := Disk.unlink_spec hunlink
    rw [hfiles]
    exact ⟨Nat.le_refl _, fun _ _ _ => rfl⟩

theorem Sound.moved_file {inst : Instance} {d : Disk String} (h : Sound destination start d inst)
    (hm : Moved destination d inst m) :
    m.after.file = inst.file ∨ inst.file = none ∧ m.after.file = some d.files.length := by
  rcases h.moved_temporary hm with ⟨-, hfile, -⟩ | ⟨-, hnone, -, hfile, -⟩ | ⟨f, hfile, hafter, -⟩
  · exact .inl hfile
  · exact .inr ⟨hnone, hfile⟩
  · exact .inl (hafter.trans hfile.symm)

variable {i : ι} (h : Invariant destination start s) (hs : Stepped destination s t i m)

include h hs

theorem Invariant.other_file {j : ι} (hne : j ≠ i) {f : Nat} (hi : (t.instances i).file = some f) :
    (t.instances j).file ≠ some f := by
  rw [hs.self] at hi
  rw [hs.others j hne]
  intro hj
  rcases (h.sound i).moved_file hs.moved with hfile | ⟨-, hfile⟩
  · exact hne (h.distinct hj (hfile ▸ hi))
  · cases hi.symm.trans hfile
    exact absurd ((h.sound j).stored _ hj).lt (Nat.lt_irrefl _)

theorem Invariant.step_sound (j : ι) : Sound destination start t.disk (t.instances j) := by
  by_cases hne : j = i
  · subst hne
    rw [hs.disk, hs.self]
    exact (h.sound j).moved h.stale h.standing h.length hs.moved
  · rw [hs.disk, hs.others j hne]
    exact (h.sound j).others (h.sound i) (fun f hf hj => hne (h.distinct hj hf)) hs.moved

theorem Invariant.step_distinct {j k : ι} {f : Nat} (hj : (t.instances j).file = some f)
    (hk : (t.instances k).file = some f) : j = k := by
  by_cases hji : j = i
  · subst hji
    by_contra hne
    exact h.other_file hs (Ne.symm hne) hj hk
  · by_cases hki : k = i
    · subst hki
      exact absurd hj (h.other_file hs hji hk)
    · rw [hs.others j hji] at hj
      rw [hs.others k hki] at hk
      exact h.distinct hj hk

theorem Invariant.step_stale {n : Nat} (hn : start.entry (temporary destination) = some n) :
    t.disk.entry (temporary destination) = some n := by
  have hstale := h.stale n hn
  rw [hs.disk]
  rcases (h.sound i).moved_temporary hs.moved with ⟨hentry, -⟩ | ⟨hnone, -⟩ | ⟨f, hfile, -⟩
  · exact hentry.trans hstale
  · rw [hstale] at hnone
    cases hnone
  · rw [((h.sound i).fresh f hfile).2] at hn
    cases hn

theorem Invariant.step_destination {n : Nat} (hn : s.disk.entry destination = some n) :
    t.disk.entry destination = some n := by
  rw [hs.disk]
  rcases (h.sound i).moved_destination hs.moved with ⟨hentry, -⟩ | ⟨f, hnone, -⟩
  · exact hentry.trans hn
  · rw [hn] at hnone
    cases hnone

theorem Invariant.step_held {n : Nat} (hn : t.disk.entry (temporary destination) = some n) :
    start.entry (temporary destination) = some n ∨
      ∃ j, (t.instances j).file = some n ∧ (t.instances j).removed = false := by
  rw [hs.disk] at hn
  rcases (h.sound i).moved_temporary hs.moved with
    ⟨hentry, hfile, hremoved⟩ | ⟨-, -, hremoved, hfile, hentry⟩ | ⟨f, -, -, -, hnone⟩
  · rcases h.held n (hentry ▸ hn) with hstart | ⟨j, hj, hheld⟩
    · exact .inl hstart
    · refine .inr ⟨j, ?_⟩
      by_cases hne : j = i
      · subst hne
        rw [hs.self, hfile, hremoved]
        exact ⟨hj, hheld⟩
      · rw [hs.others j hne]
        exact ⟨hj, hheld⟩
  · refine .inr ⟨i, ?_⟩
    rw [hs.self]
    exact ⟨hfile.trans (hentry.symm.trans hn), hremoved⟩
  · rw [hnone] at hn
    cases hn

theorem Invariant.step_published {j : ι} {f : Nat} (hpublished : (s.instances j).published = true)
    (hfile : (s.instances j).file = some f) :
    (t.instances j).published = true ∧ (t.instances j).file = some f := by
  by_cases hne : j = i
  · subst hne
    rw [hs.self]
    refine ⟨?_, ?_⟩
    · rcases (h.sound j).moved_destination hs.moved with ⟨-, hsame, -⟩ | ⟨-, -, -, hfalse, -⟩
      · exact hsame.trans hpublished
      · rw [hpublished] at hfalse
        cases hfalse
    · rcases (h.sound j).moved_file hs.moved with hsame | ⟨hnone, -⟩
      · exact hsame.trans hfile
      · rw [hfile] at hnone
        cases hnone
  · rw [hs.others j hne]
    exact ⟨hpublished, hfile⟩

theorem Invariant.step_origin {n : Nat} (hn : t.disk.entry destination = some n) :
    start.entry destination = some n ∨
      ∃ j, (t.instances j).published = true ∧ (t.instances j).file = some n := by
  rw [hs.disk] at hn
  rcases (h.sound i).moved_destination hs.moved with
    ⟨hentry, -⟩ | ⟨f, -, hentry, -, hpublished, hfile, -⟩
  · rcases h.origin n (hentry ▸ hn) with hstart | ⟨j, hpublished, hfile⟩
    · exact .inl hstart
    · exact .inr ⟨j, h.step_published hs hpublished hfile⟩
  · rw [hn] at hentry
    cases hentry
    exact .inr ⟨i, hs.self ▸ hpublished, hs.self ▸ hfile⟩

theorem Invariant.step_known {entry : Option Nat} (hentry : entry ∈ t.disk.possible destination) :
    entry ∈ start.possible destination ∨
      ∃ j f, (t.instances j).published = true ∧ (t.instances j).file = some f ∧
        entry = some f := by
  have hbefore {entry : Option Nat} (hmem : entry ∈ s.disk.possible destination) :
      entry ∈ start.possible destination ∨ ∃ j f, (t.instances j).published = true ∧
        (t.instances j).file = some f ∧ entry = some f := by
    rcases h.known entry hmem with hstart | ⟨j, f, hpublished, hfile, heq⟩
    · exact .inl hstart
    · obtain ⟨hpublished, hfile⟩ := h.step_published hs hpublished hfile
      exact .inr ⟨j, f, hpublished, hfile, heq⟩
  rw [hs.disk] at hentry
  rcases (h.sound i).moved_destination hs.moved with
    ⟨-, -, hsubset⟩ | ⟨f, -, -, -, hpublished, hfile, -, hpossible⟩
  · exact hbefore (hsubset entry hentry)
  · rw [hpossible, List.mem_cons] at hentry
    rcases hentry with rfl | hentry
    · exact .inr ⟨i, f, hs.self ▸ hpublished, hs.self ▸ hfile, rfl⟩
    · exact hbefore hentry

theorem Invariant.step_kept {n : Nat} (hn : n < start.files.length) :
    t.disk.files[n]? = start.files[n]? := by
  rw [hs.disk, (moved_files hs.moved).2 n (Nat.lt_of_lt_of_le hn h.length) fun hfd => ?_]
  · exact h.kept n hn
  · have hfile := ((h.sound i).fd n hfd).1
    exact absurd hn (Nat.not_lt.2 ((h.sound i).fresh n hfile).1)

theorem Invariant.step : Invariant destination start t where
  sound := h.step_sound hs
  distinct := h.step_distinct hs
  stale _ := h.step_stale hs
  standing n hn := h.step_destination hs (h.standing n hn)
  held _ := h.step_held hs
  origin _ := h.step_origin hs
  known _ := h.step_known hs
  length := Nat.le_trans h.length (hs.disk ▸ (moved_files hs.moved).1)
  kept _ := h.step_kept hs

end Systems

end BengalMarket.AtomicOutput
