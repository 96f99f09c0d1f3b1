import BengalMarket.Capture.Core
import BengalMarket.Library.FileSystem
import BengalMarket.Library.Transition

/-! The class `atomic_output`, system call by system call, for any number of instances on one
destination.  A label is a call of a method by the owner of an instance, or the answer of the
kernel to the system call that the instance waits for. -/

namespace BengalMarket.AtomicOutput

open Capture (WriteResult temporary systemError parentPath namesFile)
open FileSystem (Disk File)

/-- Where an instance is.  From `checking` to `creating` the constructor runs, from `syncing` to
`closingDirectory` it is `commit`; `droppingDirectory` closes the directory that could not be
synced.  A write has data left, data of later writes of the same call, and the argument. -/
inductive Stage
  | checking
  | creating
  | idle
  | writing (data : Bytes) (later : List Bytes) (argument : Bytes)
  | syncing
  | closing
  | linking
  | unlinking
  | openingDirectory
  | syncingDirectory
  | droppingDirectory (what : String)
  | closingDirectory
  | destroying
  | gone
  deriving DecidableEq

/-- `result` is how the last call ended.  The last five fields are history: the file that was
created, whether it got the name of the destination and lost its own, the arguments of the writes
that returned, and whether a write threw. -/
structure Instance where
  stage : Stage := .checking
  fd : Option Nat := none
  committed : Bool := false
  result : Except String Unit := .ok ()
  file : Option Nat := none
  published : Bool := false
  removed : Bool := false
  written : Bytes := []
  torn : Bool := false

inductive Call
  | write (data : Bytes)
  | writeLine (line : Bytes)
  | commit
  | destroy

inductive Answer
  | ok
  | error (what : String)
  | write (result : WriteResult)

inductive Action
  | call (c : Call)
  | answer (a : Answer)

inductive Effect
  | created (number : Nat)
  | wrote (number : Nat) (data : Bytes)
  | linked (number : Nat)
  | unlinked (number : Nat)
  deriving DecidableEq

structure Move where
  disk : Disk String
  after : Instance
  effects : List Effect := []

namespace Instance

def opened (destination : String) : Instance :=
  if namesFile destination then {}
  else { stage := .gone, result := .error "output must name a file" }

def leave (inst : Instance) (result : Except String Unit) : Instance :=
  { inst with stage := .gone, result := result }

def throw (inst : Instance) (what : String) : Instance :=
  { inst with stage := .idle, result := .error what }

def next (inst : Instance) (argument : Bytes) : List Bytes → Instance
  | [] => { inst with stage := .idle, result := .ok (), written := inst.written ++ argument }
  | [] :: later => inst.next argument later
  | (byte :: data) :: later => { inst with stage := .writing (byte :: data) later argument }

def call (inst : Instance) : Call → Instance
  | .write data => inst.next data [data]
  | .writeLine line => inst.next (line ++ [Lines.newline]) [line, [Lines.newline]]
  | .commit =>
    if inst.committed then inst.throw "output already committed"
    else { inst with stage := .syncing }
  | .destroy =>
    if inst.fd.isSome then { inst with stage := .destroying } else { inst with stage := .gone }

end Instance

/-- The answer to a `write`; a descriptor that is closed takes nothing. -/
def answerWrite (destination : String) (disk : Disk String) (inst : Instance) (data : Bytes)
    (later : List Bytes) (argument : Bytes) (result : WriteResult) : Option Move :=
  if result.value < 0 && result.interrupted then some { disk, after := inst }
  else if result.value ≤ 0 then
    some { disk, after := { inst.throw (systemError "failed writing partial output"
      (temporary destination) result.error) with torn := true } }
  else inst.fd.map fun number =>
    let taken := data.take result.value.toNat
    { disk := disk.append number taken
      after := inst.next argument (data.drop result.value.toNat :: later)
      effects := [.wrote number taken] }

def succeed (destination : String) (disk : Disk String) (inst : Instance) : Option Move :=
  match inst.stage with
  | .checking =>
    if (disk.entry destination).isSome then
      some { disk, after := inst.leave (.error ("output already exists: " ++ destination)) }
    else some { disk, after := { inst with stage := .creating } }
  | .creating =>
    (disk.create (temporary destination)).map fun (number, disk) =>
      { disk
        after := { inst with
          stage := .idle, fd := some number, file := some number, result := .ok () }
        effects := [.created number] }
  | .syncing =>
    inst.fd.map fun number =>
      { disk := disk.sync number, after := { inst with stage := .closing } }
  | .closing => some { disk, after := { inst with stage := .linking, fd := none } }
  | .linking =>
    (disk.link (temporary destination) destination).map fun (number, disk) =>
      { disk
        after := { inst with stage := .unlinking, published := true }
        effects := [.linked number] }
  | .unlinking =>
    (disk.unlink (temporary destination)).map fun (number, disk) =>
      { disk
        after := { inst with stage := .openingDirectory, removed := true }
        effects := [.unlinked number] }
  | .openingDirectory => some { disk, after := { inst with stage := .syncingDirectory } }
  | .syncingDirectory =>
    some { disk := disk.syncDirectory, after := { inst with stage := .closingDirectory } }
  | .droppingDirectory what =>
    some { disk, after := inst.throw (systemError "failed syncing output directory"
      (parentPath destination) what) }
  | .closingDirectory =>
    some { disk, after := { inst with stage := .idle, committed := true, result := .ok () } }
  | .destroying => some { disk, after := { inst with stage := .gone, fd := none } }
  | .idle | .gone | .writing .. => none

/-- The system call that an instance waits for, when it fails; it has no effect then, except that
a descriptor is closed in any case. -/
def fail (destination what : String) (inst : Instance) : Option Instance :=
  match inst.stage with
  | .checking => some (inst.leave (.error what))
  | .creating =>
    some (inst.leave (.error (systemError "cannot create partial output"
      (temporary destination) what)))
  | .syncing =>
    some (inst.throw (systemError "failed syncing partial output" (temporary destination) what))
  | .closing =>
    some { inst.throw (systemError "failed closing partial output"
      (temporary destination) what) with fd := none }
  | .linking => some (inst.throw (systemError "failed publishing output" destination what))
  | .unlinking =>
    some (inst.throw (systemError "published output but failed removing partial output"
      (temporary destination) what))
  | .openingDirectory =>
    some (inst.throw (systemError "failed opening output directory" (parentPath destination) what))
  | .syncingDirectory => some { inst with stage := .droppingDirectory what }
  | .droppingDirectory cause =>
    some (inst.throw (systemError "failed syncing output directory" (parentPath destination) cause))
  | .closingDirectory =>
    some (inst.throw (systemError "failed closing output directory" (parentPath destination) what))
  | .destroying => some { inst with stage := .gone, fd := none }
  | .idle | .gone | .writing .. => none

def move (destination : String) (disk : Disk String) (inst : Instance) : Action → Option Move
  | .call c => if inst.stage = .idle then some { disk, after := inst.call c } else none
  | .answer .ok => succeed destination disk inst
  | .answer (.error what) =>
    (fail destination what inst).map fun after => { disk, after }
  | .answer (.write result) =>
    match inst.stage with
    | .writing data later argument =>
      answerWrite destination disk inst data later argument result
    | _ => none

structure System (ι : Type) where
  disk : Disk String
  instances : ι → Instance
  log : List (ι × Effect) := []

variable {ι : Type} [DecidableEq ι]

def System.start (destination : String) (disk : Disk String) : System ι where
  disk := disk
  instances _ := Instance.opened destination

def step (destination : String) (s : System ι) : ι × Action → Option (System ι)
  | (i, a) => (move destination s.disk (s.instances i) a).map fun m =>
    { disk := m.disk
      instances := Function.update s.instances i m.after
      log := s.log ++ m.effects.map fun effect => (i, effect) }

section Moves

def Instance.Consistent (inst : Instance) : Prop :=
  match inst.stage with
  | .checking | .creating => inst.file = none ∧ inst.written = []
  | .closing => inst.fd.isSome = true
  | .linking => inst.fd = none ∧ inst.file.isSome = true ∧ inst.published = false
  | .unlinking => inst.published = true ∧ inst.removed = false
  | .openingDirectory | .syncingDirectory | .droppingDirectory _ | .closingDirectory =>
    inst.removed = true
  | _ => True

/-- The data of its file, as an instance knows it; without a descriptor nothing is added. -/
def Instance.Content (inst : Instance) (data : Bytes) : Prop :=
  match inst.stage with
  | .writing rest later argument =>
    ∃ taken, data = inst.written ++ taken ∧ argument = taken ++ (rest ++ later.flatten) ∧
      (inst.fd = none → taken = [])
  | _ => data = inst.written

def Instance.Settled (inst : Instance) : Prop :=
  inst.stage = .closing ∨ inst.stage = .linking ∨ inst.published = true

def Instance.Finished (inst : Instance) : Prop :=
  inst.stage = .closingDirectory ∨ inst.committed = true

structure Quiet (before after : Instance) : Prop where
  file : after.file = before.file
  published : after.published = before.published
  removed : after.removed = before.removed
  fd : after.fd = before.fd ∨ after.fd = none
  consistent : before.Consistent → (∀ f ∈ before.fd, before.file = some f ∧
    before.published = false) → after.Consistent
  content : after.torn = false → before.torn = false ∧
    ∀ data, before.Content data → after.Content data
  settled : after.Settled → before.Settled
  finished : after.Finished → before.Finished

structure Wrote (before : Instance) (taken : Bytes) (after : Instance) : Prop where
  file : after.file = before.file
  published : after.published = before.published
  removed : after.removed = before.removed
  fd : after.fd = before.fd
  consistent : after.Consistent
  torn : after.torn = before.torn
  content : ∀ data, before.Content data → after.Content (data ++ taken)
  settled : after.Settled → before.published = true
  finished : after.Finished → before.Finished

inductive Moved (destination : String) (d : Disk String) (inst : Instance) : Move → Prop
  | quiet {after : Instance} (h : Quiet inst after) : Moved destination d inst ⟨d, after, []⟩
  | created {number : Nat} {disk : Disk String} (hstage : inst.stage = .creating)
      (h : d.create (temporary destination) = some (number, disk)) :
      Moved destination d inst ⟨disk, { inst with
        stage := .idle, fd := some number, file := some number, result := .ok () },
        [.created number]⟩
  | wrote {number : Nat} {taken : Bytes} {after : Instance} (hfd : inst.fd = some number)
      (h : Wrote inst taken after) :
      Moved destination d inst ⟨d.append number taken, after, [.wrote number taken]⟩
  | synced {number : Nat} (hstage : inst.stage = .syncing) (hfd : inst.fd = some number) :
      Moved destination d inst ⟨d.sync number, { inst with stage := .closing }, []⟩
  | linked {number : Nat} {disk : Disk String} (hstage : inst.stage = .linking)
      (h : d.link (temporary destination) destination = some (number, disk)) :
      Moved destination d inst ⟨disk, { inst with stage := .unlinking, published := true },
        [.linked number]⟩
  | unlinked {number : Nat} {disk : Disk String} (hstage : inst.stage = .unlinking)
      (h : d.unlink (temporary destination) = some (number, disk)) :
      Moved destination d inst ⟨disk, { inst with stage := .openingDirectory, removed := true },
        [.unlinked number]⟩
  | directorySynced (hstage : inst.stage = .syncingDirectory) :
      Moved destination d inst ⟨d.syncDirectory, { inst with stage := .closingDirectory }, []⟩

theorem next_cases (inst : Instance) (argument : Bytes) (pending : List Bytes) :
    (pending.flatten = [] ∧ inst.next argument pending =
      { inst with stage := .idle, result := .ok (), written := inst.written ++ argument }) ∨
    ∃ data later, data ++ later.flatten = pending.flatten ∧
      inst.next argument pending = { inst with stage := .writing data later argument } := by
  induction pending with
  | nil => exact .inl ⟨rfl, rfl⟩
  | cons data later ih =>
    cases data with
    | nil => simpa [Instance.next] using ih
    | cons byte data => exact .inr ⟨byte :: data, later, rfl, rfl⟩

theorem wrote_next {inst : Instance} {taken argument : Bytes} {pending : List Bytes}
    (h : ∀ data, inst.Content data → ∃ before, data = inst.written ++ before ∧
      argument = before ++ (taken ++ pending.flatten) ∧
      (inst.fd = none → before ++ taken = [])) :
    Wrote inst taken (inst.next argument pending) := by
  rcases next_cases inst argument pending with ⟨hempty, heq⟩ | ⟨data, later, hsplit, heq⟩
  · rw [heq]
    refine ⟨rfl, rfl, rfl, rfl, trivial, rfl, fun content hcontent => ?_, ?_, ?_⟩
    · obtain ⟨before, rfl, rfl, -⟩ := h content hcontent
      simp [Instance.Content, hempty]
    · rintro (hstage | hstage | hpublished)
      · cases hstage
      · cases hstage
      · exact hpublished
    · rintro (hstage | hcommitted)
      · cases hstage
      · exact .inr hcommitted
  · rw [heq]
    refine ⟨rfl, rfl, rfl, rfl, trivial, rfl, fun content hcontent => ?_, ?_, ?_⟩
    · obtain ⟨before, rfl, rfl, hclosed⟩ := h content hcontent
      exact ⟨before ++ taken, by simp, by simp [hsplit], hclosed⟩
    · rintro (hstage | hstage | hpublished)
      · cases hstage
      · cases hstage
      · exact hpublished
    · rintro (hstage | hcommitted)
      · cases hstage
      · exact .inr hcommitted

theorem Instance.Content.eq_written {inst : Instance} {data : Bytes} (h : inst.Content data)
    (hfd : inst.fd = none) : data = inst.written := by
  unfold Instance.Content at h
  split at h
  · obtain ⟨taken, rfl, -, hclosed⟩ := h
    rw [hclosed hfd, List.append_nil]
  · exact h

theorem content_iff {inst : Instance} (h : ∀ rest later argument,
    inst.stage ≠ .writing rest later argument) (data : Bytes) :
    inst.Content data ↔ data = inst.written := by
  unfold Instance.Content
  split
  · rename_i rest later argument hstage
    exact absurd hstage (h rest later argument)
  · rfl

theorem content_of_stage {inst after : Instance} {data : Bytes} (h : inst.Content data)
    (hbefore : ∀ rest later argument, inst.stage ≠ .writing rest later argument)
    (hafter : ∀ rest later argument, after.stage ≠ .writing rest later argument)
    (hwritten : after.written = inst.written) : after.Content data := by
  rw [content_iff hbefore] at h
  rw [content_iff hafter, h, hwritten]

structure SameButStage (before after : Instance) : Prop where
  file : after.file = before.file
  published : after.published = before.published
  removed : after.removed = before.removed
  written : after.written = before.written
  torn : after.torn = before.torn
  fd : after.fd = before.fd ∨ after.fd = none
  calm : ∀ rest later argument, before.stage ≠ .writing rest later argument

variable {inst after : Instance}

theorem SameButStage.content (h : SameButStage inst after)
    (hcalm : ∀ rest later argument, after.stage ≠ .writing rest later argument) :
    after.torn = false → inst.torn = false ∧ ∀ data, inst.Content data → after.Content data :=
  fun htorn => ⟨h.torn.symm.trans htorn,
    fun _ hdata => content_of_stage hdata h.calm hcalm h.written⟩

theorem settled_of_stage (h : after.Settled) (hclosing : after.stage ≠ .closing)
    (hlinking : after.stage ≠ .linking) (hpublished : after.published = inst.published) :
    inst.Settled := by
  rcases h with hstage | hstage | htrue
  · exact absurd hstage hclosing
  · exact absurd hstage hlinking
  · exact .inr (.inr (hpublished ▸ htrue))

theorem finished_of_stage (h : after.Finished) (hclosing : after.stage ≠ .closingDirectory)
    (hcommitted : after.committed = inst.committed) : inst.Finished := by
  rcases h with hstage | htrue
  · exact absurd hstage hclosing
  · exact .inr (hcommitted ▸ htrue)

def Stage.Free : Stage → Prop
  | .idle | .syncing | .destroying | .gone => True
  | _ => False

theorem quiet_free (h : SameButStage inst after) (hcommitted : after.committed = inst.committed)
    (hfree : after.stage.Free) : Quiet inst after := by
  have hne {stage : Stage} (hstage : ¬ stage.Free) : after.stage ≠ stage :=
    fun heq => hstage (heq ▸ hfree)
  have hcalm : ∀ rest later argument, after.stage ≠ .writing rest later argument :=
    fun _ _ _ => hne nofun
  refine ⟨h.file, h.published, h.removed, h.fd, fun _ _ => ?_, h.content hcalm, ?_, ?_⟩
  · unfold Instance.Consistent
    cases hstage : after.stage <;> simp_all [Stage.Free]
  · exact fun hsettled => settled_of_stage hsettled (hne nofun) (hne nofun) h.published
  · exact fun hfinished => finished_of_stage hfinished (hne nofun) hcommitted

theorem quiet_of_wrote (h : Wrote inst [] after) : Quiet inst after where
  file := h.file
  published := h.published
  removed := h.removed
  fd := .inl h.fd
  consistent _ _ := h.consistent
  content htorn := ⟨h.torn.symm.trans htorn, fun data hdata => by
    simpa using h.content data hdata⟩
  settled hsettled := .inr (.inr (h.settled hsettled))
  finished := h.finished

theorem quiet_refl (inst : Instance) : Quiet inst inst :=
  ⟨rfl, rfl, rfl, .inl rfl, fun h _ => h, fun h => ⟨h, fun _ => id⟩, id, id⟩

theorem quiet_torn (inst : Instance) (what : String) :
    Quiet inst { inst.throw what with torn := true } where
  file := rfl
  published := rfl
  removed := rfl
  fd := .inl rfl
  consistent _ _ := trivial
  content htorn := nomatch htorn
  settled h := settled_of_stage h nofun nofun rfl
  finished h := finished_of_stage h nofun rfl

variable {destination what : String} {d : Disk String} {m : Move}

theorem sameButStage {fd : Option Nat} {stage : Stage} {committed : Bool}
    {result : Except String Unit} (hfd : fd = inst.fd ∨ fd = none)
    (hcalm : ∀ rest later argument, inst.stage ≠ .writing rest later argument) :
    SameButStage inst { inst with
      stage := stage, result := result, fd := fd, committed := committed } :=
  ⟨rfl, rfl, rfl, rfl, rfl, hfd, hcalm⟩

theorem quiet_fail (h : fail destination what inst = some after) : Quiet inst after := by
  cases hstage : inst.stage with
  | idle | gone | writing => simp [fail, hstage] at h
  | syncingDirectory =>
    simp only [fail, hstage, Option.some.injEq] at h
    subst h
    refine ⟨rfl, rfl, rfl, .inl rfl, fun hconsistent _ => ?_, ?_,
      fun hsettled => settled_of_stage hsettled nofun nofun rfl,
      fun hfinished => finished_of_stage hfinished nofun rfl⟩
    · simpa [Instance.Consistent, hstage] using hconsistent
    · exact (sameButStage (.inl rfl) (by simp [hstage])).content (by simp)
  | closing | destroying =>
    simp only [fail, hstage, Option.some.injEq] at h
    subst h
    exact quiet_free (sameButStage (.inr rfl) (by simp [hstage])) rfl trivial
  | checking | creating | syncing | linking | unlinking | openingDirectory | droppingDirectory
  | closingDirectory =>
    simp only [fail, hstage, Option.some.injEq] at h
    subst h
    exact quiet_free (sameButStage (.inl rfl) (by simp [hstage])) rfl trivial

theorem moved_succeed (h : succeed destination d inst = some m) : Moved destination d inst m := by
  cases hstage : inst.stage with
  | idle | gone | writing => simp [succeed, hstage] at h
  | checking =>
    simp only [succeed, hstage] at h
    split at h <;> cases h
    · exact .quiet (quiet_free (sameButStage (.inl rfl) (by simp [hstage])) rfl trivial)
    · refine .quiet ⟨rfl, rfl, rfl, .inl rfl, fun hconsistent _ => ?_, ?_,
        fun hsettled => settled_of_stage hsettled nofun nofun rfl,
      fun hfinished => finished_of_stage hfinished nofun rfl⟩
      · simpa [Instance.Consistent, hstage] using hconsistent
      · exact (sameButStage (.inl rfl) (by simp [hstage])).content (by simp)
  | creating =>
    simp only [succeed, hstage, Option.map_eq_some_iff] at h
    obtain ⟨⟨number, disk⟩, hcreate, rfl⟩ := h
    exact .created hstage hcreate
  | syncing =>
    simp only [succeed, hstage, Option.map_eq_some_iff] at h
    obtain ⟨number, hfd, rfl⟩ := h
    exact .synced hstage hfd
  | closing =>
    simp only [succeed, hstage, Option.some.injEq] at h
    subst h
    refine .quiet ⟨rfl, rfl, rfl, .inr rfl, fun hconsistent howned => ?_, ?_, fun _ => .inl hstage,
      fun hfinished => finished_of_stage hfinished nofun rfl⟩
    · simp only [Instance.Consistent, hstage, Option.isSome_iff_exists] at hconsistent
      obtain ⟨f, hf⟩ := hconsistent
      obtain ⟨hfile, hpublished⟩ := howned f hf
      simp [Instance.Consistent, hfile, hpublished]
    · exact (sameButStage (.inr rfl) (by simp [hstage])).content (by simp)
  | linking =>
    simp only [succeed, hstage, Option.map_eq_some_iff] at h
    obtain ⟨⟨number, disk⟩, hlink, rfl⟩ := h
    exact .linked hstage hlink
  | unlinking =>
    simp only [succeed, hstage, Option.map_eq_some_iff] at h
    obtain ⟨⟨number, disk⟩, hunlink, rfl⟩ := h
    exact .unlinked hstage hunlink
  | openingDirectory =>
    simp only [succeed, hstage, Option.some.injEq] at h
    subst h
    refine .quiet ⟨rfl, rfl, rfl, .inl rfl, fun hconsistent _ => ?_, ?_,
      fun hsettled => settled_of_stage hsettled nofun nofun rfl,
      fun hfinished => finished_of_stage hfinished nofun rfl⟩
    · simpa [Instance.Consistent, hstage] using hconsistent
    · exact (sameButStage (.inl rfl) (by simp [hstage])).content (by simp)
  | syncingDirectory =>
    simp only [succeed, hstage, Option.some.injEq] at h
    subst h
    exact .directorySynced hstage
  | droppingDirectory =>
    simp only [succeed, hstage, Option.some.injEq] at h
    subst h
    exact .quiet (quiet_free (sameButStage (.inl rfl) (by simp [hstage])) rfl trivial)
  | closingDirectory =>
    simp only [succeed, hstage, Option.some.injEq] at h
    subst h
    exact .quiet ⟨rfl, rfl, rfl, .inl rfl, fun _ _ => trivial,
      (sameButStage (.inl rfl) (by simp [hstage])).content (by simp),
      fun hsettled => settled_of_stage hsettled nofun nofun rfl, fun _ => .inl hstage⟩
  | destroying =>
    simp only [succeed, hstage, Option.some.injEq] at h
    subst h
    exact .quiet (quiet_free (sameButStage (.inr rfl) (by simp [hstage])) rfl trivial)

theorem quiet_call (hidle : inst.stage = .idle) (c : Call) : Quiet inst (inst.call c) := by
  have hcontent {argument : Bytes} {pending : List Bytes} (h : argument = pending.flatten)
      (data : Bytes) (hdata : inst.Content data) : ∃ before, data = inst.written ++ before ∧
        argument = before ++ ([] ++ pending.flatten) ∧ (inst.fd = none → before ++ [] = []) := by
    rw [content_iff (by simp [hidle])] at hdata
    exact ⟨[], by simp [hdata], by simp [h], fun _ => rfl⟩
  cases c with
  | write data => exact quiet_of_wrote (wrote_next (hcontent (by simp)))
  | writeLine line => exact quiet_of_wrote (wrote_next (hcontent (by simp)))
  | commit =>
    rw [Instance.call]
    split <;> exact quiet_free (sameButStage (.inl rfl) (by simp [hidle])) rfl trivial
  | destroy =>
    rw [Instance.call]
    split <;> exact quiet_free (sameButStage (.inl rfl) (by simp [hidle])) rfl trivial

theorem moved_answerWrite {data : Bytes} {later : List Bytes} {argument : Bytes}
    {result : WriteResult} (hstage : inst.stage = .writing data later argument)
    (h : answerWrite destination d inst data later argument result = some m) :
    Moved destination d inst m := by
  unfold answerWrite at h
  split at h
  · cases h
    exact .quiet (quiet_refl inst)
  · split at h
    · cases h
      exact .quiet (quiet_torn inst _)
    · simp only [Option.map_eq_some_iff] at h
      obtain ⟨number, hfd, rfl⟩ := h
      refine .wrote hfd (wrote_next fun content hcontent => ?_)
      simp only [Instance.Content, hstage] at hcontent
      obtain ⟨before, hbefore, hargument, -⟩ := hcontent
      refine ⟨before, hbefore, ?_, fun hnone => ?_⟩
      · rw [List.flatten_cons, ← List.append_assoc (data.take _), List.take_append_drop]
        exact hargument
      · rw [hfd] at hnone
        cases hnone

theorem moved_of_move {a : Action} (h : move destination d inst a = some m) :
    Moved destination d inst m := by
  unfold move at h
  split at h
  · split at h
    · rename_i hidle
      cases h
      exact .quiet (quiet_call hidle _)
    · cases h
  · exact moved_succeed h
  · simp only [Option.map_eq_some_iff] at h
    obtain ⟨after, hfail, rfl⟩ := h
    exact .quiet (quiet_fail hfail)
  · split at h
    · rename_i hstage
      exact moved_answerWrite hstage h
    · cases h

end Moves

end BengalMarket.AtomicOutput
