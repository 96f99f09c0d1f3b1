import BengalMarket.Benchmark.Book
import BengalMarket.Benchmark.Separation
import BengalMarket.Library.Contents

namespace BengalMarket.Benchmark

open Directories (Path FileTree Content)

section Instances

variable {J : JsonLibrary} {output : String} {t after : FileTree String} {inst other : Instance}
  {number : Nat} {b : Book} {a : Action} {m : Move}

structure Accounts (J : JsonLibrary) (t : FileTree String) (number : Nat) (inst : Instance)
    (b : Book) : Prop where
  unshared : FileTree.Unshared number t
  present : ∀ p, p ∈ b.present ↔ ∃ data, t.content number p = some (.file data)
  directory : ∀ p, t.content number p = some .directory ↔ p = ["runs"]
  opened : ∀ file offset, (file, offset) ∈ inst.descriptors →
    ∀ p, (t.nodes number).lookup p = some (.file file) → p ∈ b.opened
  read : ∀ p ∈ b.read, t.content number p = some (.file inst.text) ∧ p ∉ b.opened
  verified : ∀ v ∈ b.verified, (∃ data, t.content number v.1 = some (.file data) ∧
    (parseReport J data v.2).isSome) ∧ v.1 ∉ b.opened

theorem Accounts.unchanged (h : Accounts J t number inst b)
    (hunchanged : FileTree.Unchanged number t after) : Accounts J after number inst b where
  unshared := hunchanged.unshared h.unshared
  present p := by rw [hunchanged.content, h.present]
  directory p := by rw [hunchanged.content, h.directory]
  opened file offset hmem p hlookup := h.opened file offset hmem p (hunchanged.nodes ▸ hlookup)
  read p hp := by
    rw [hunchanged.content]
    exact h.read p hp
  verified v hv := by
    rw [hunchanged.content]
    exact h.verified v hv

theorem Accounts.closed (h : Accounts J t number inst b) {stage : Stage} :
    Accounts J t number { inst with stage := stage, descriptors := [] }
      { b with opened := ∅ } where
  unshared := h.unshared
  present := h.present
  directory := h.directory
  opened := nofun
  read p hp := ⟨(h.read p hp).1, id⟩
  verified v hv := ⟨(h.verified v hv).1, id⟩

theorem Accounts.atStage (h : Accounts J t number inst b) (stage : Stage) :
    Accounts J t number { inst with stage := stage } b where
  unshared := h.unshared
  present := h.present
  directory := h.directory
  opened := h.opened
  read := h.read
  verified := h.verified

theorem Accounts.openFile (h : Accounts J t number inst b) {path : Path} {file : Nat}
    {stage : Stage} (hopened : FileTree.Opened t number path file after) :
    Accounts J after number
      { inst with stage := stage, descriptors := inst.descriptors ++ [(file, 0)] }
      (b.after (.openFile path)) where
  unshared := hopened.unshared
  present p := by
    by_cases hp : p = path
    · subst hp
      simp [Book.after, hopened.empty]
    · rw [hopened.others p hp, ← h.present]
      simp [Book.after, hp]
  directory p := by
    by_cases hp : p = path
    · subst hp
      have hne := mt (h.directory p).2 hopened.file
      simp [hopened.empty, hne]
    · rw [hopened.others p hp, h.directory]
  opened f offset hmem p hlookup := by
    by_cases hp : p = path
    · exact Or.inl hp
    · rcases List.mem_append.1 hmem with hold | hnew
      · rw [hopened.kept p hp] at hlookup
        exact Or.inr (h.opened f offset hold p hlookup)
      · cases List.mem_singleton.1 hnew
        exact absurd (hopened.unshared (FileTree.lookup_mem hlookup)
          (FileTree.lookup_mem hopened.lookup)) hp
  read p hp := by
    obtain ⟨hread, hne⟩ := hp
    rw [hopened.others p hne]
    exact ⟨(h.read p hread).1, fun hmem => hmem.elim hne (h.read p hread).2⟩
  verified v hv := by
    obtain ⟨hverified, hne⟩ := hv
    rw [hopened.others v.1 hne]
    exact ⟨(h.verified v hverified).1, fun hmem => hmem.elim hne (h.verified v hverified).2⟩

theorem Accounts.remove (h : Accounts J t number inst b) {path : Path} {stage : Stage}
    (hremoved : FileTree.Removed t number path after) :
    Accounts J after number { inst with stage := stage } (b.after (.remove path)) where
  unshared := hremoved.unshared
  present p := by
    by_cases hp : p = path
    · subst hp
      simp [Book.after, hremoved.gone]
    · rw [hremoved.others p hp, ← h.present]
      simp [Book.after, hp]
  directory p := by
    by_cases hp : p = path
    · subst hp
      have hne := mt (h.directory p).2 hremoved.file
      simp [hremoved.gone, hne]
    · rw [hremoved.others p hp, h.directory]
  opened f offset hmem p hlookup := by
    have hp : p ≠ path := by
      rintro rfl
      have hgone := FileTree.content_eq_none_iff.1 hremoved.gone
      rw [hgone] at hlookup
      cases hlookup
    rw [hremoved.kept p hp] at hlookup
    exact h.opened f offset hmem p hlookup
  read p hp := by
    obtain ⟨hread, hne⟩ := hp
    rw [hremoved.others p hne]
    exact h.read p hread
  verified v hv := by
    obtain ⟨hverified, hne⟩ := hv
    rw [hremoved.others v.1 hne]
    exact h.verified v hverified

theorem unshared_of_empty (hnone : ∀ p, t.content number p = none) :
    FileTree.Unshared number t := by
  intro file p q hp
  have hlookup : (t.nodes number).lookup p ≠ none := by
    rw [Ne, List.lookup_eq_none_iff]
    exact fun hall => absurd (hall _ hp) (by simp)
  exact absurd (FileTree.content_eq_none_iff.1 (hnone p)) hlookup

theorem accounts_made (hcreated : FileTree.Created t number ["runs"] after)
    (hnone : ∀ p, t.content number p = none) (hdescriptors : inst.descriptors = [])
    {stage : Stage} : Accounts J after number { inst with stage := stage } {} := by
  have hcontent (p : Path) (hp : p ≠ ["runs"]) : after.content number p = none :=
    (hcreated.others p hp).trans (hnone p)
  refine ⟨hcreated.unshared, fun p => ?_, fun p => ?_, ?_, nofun, nofun⟩
  · by_cases hp : p = ["runs"]
    · simp [hp, hcreated.directory]
    · simp [hcontent p hp]
  · by_cases hp : p = ["runs"]
    · simp [hp, hcreated.directory]
    · simp [hcontent p hp, hp]
  · intro file offset hmem
    rw [show ({ inst with stage := stage } : Instance).descriptors = [] from hdescriptors] at hmem
    cases hmem

theorem Accounts.write (h : Accounts J t number inst b) {descriptor : Nat} {data : Bytes}
    (hwrite : Benchmark.write t inst descriptor data = some m) :
    Accounts J m.tree number m.after b := by
  rw [Benchmark.write, Option.map_eq_some_iff] at hwrite
  obtain ⟨⟨file, offset⟩, hget, rfl⟩ := hwrite
  have hopened := h.opened file offset (List.mem_of_getElem? hget)
  have hother {p : Path} (hp : p ∉ b.opened) :
      (t.write file offset data).content number p = t.content number p :=
    FileTree.content_write_of_ne _ _ fun hlookup => hp (hopened p hlookup)
  refine ⟨FileTree.unshared_modify _ h.unshared, fun p => ?_, fun p => ?_, ?_, fun p hp => ?_,
    fun v hv => ?_⟩
  · rw [h.present]
    by_cases hlookup : (t.nodes number).lookup p = some (.file file)
    · obtain ⟨hbefore, hafter⟩ := FileTree.exists_content_write offset data hlookup
      exact ⟨fun _ => hafter, fun _ => hbefore⟩
    · rw [FileTree.content_write_of_ne _ _ hlookup]
  · rw [← h.directory]
    by_cases hlookup : (t.nodes number).lookup p = some (.file file)
    · obtain ⟨⟨before, hbefore⟩, written, hafter⟩ :=
        FileTree.exists_content_write offset data hlookup
      simp [hbefore, hafter]
    · rw [FileTree.content_write_of_ne _ _ hlookup]
  · intro f k hset p hlookup
    rcases List.mem_or_eq_of_mem_set hset with hold | heq
    · exact h.opened f k hold p hlookup
    · cases heq
      exact hopened p hlookup
  · rw [hother (h.read p hp).2]
    exact h.read p hp
  · rw [hother (h.verified v hv).2]
    exact h.verified v hv

def Booked (J : JsonLibrary) (t : FileTree String) (inst : Instance) : Prop :=
  match inst.stage with
  | .makingRuns => inst.descriptors = [] ∧
    ∀ number, inst.directory = some number → ∀ p, t.content number p = none
  | .running tasks => ∃ done, inst.options.tasks = done ++ tasks ∧
    ∀ number, inst.directory = some number → Accounts J t number inst (Book.afterAll {} done)
  | .published => ∀ number, inst.directory = some number →
    Accounts J t number inst (Book.afterAll {} inst.options.tasks)
  | _ => True

theorem Booked.unchanged (h : Booked J t inst)
    (hunchanged : ∀ number, inst.directory = some number →
      FileTree.Unchanged number t after) : Booked J after inst := by
  unfold Booked at h ⊢
  split at h
  · refine ⟨h.1, fun number hnumber p => ?_⟩
    rw [(hunchanged number hnumber).content]
    exact h.2 number hnumber p
  · obtain ⟨done, htasks, haccounts⟩ := h
    exact ⟨done, htasks, fun number hnumber =>
      (haccounts number hnumber).unchanged (hunchanged number hnumber)⟩
  · exact fun number hnumber => (h number hnumber).unchanged (hunchanged number hnumber)
  · trivial

def Does (J : JsonLibrary) (number : Nat) (inst : Instance) (b : Book) (task : Task)
    (rest : List Task) (m : Move) : Prop :=
  m.after = inst.fail ∨ m.after.stage = .running rest ∧ m.after.options = inst.options ∧
    m.after.directory = inst.directory ∧ Accounts J m.tree number m.after (b.after task)

theorem Accounts.perform (h : Accounts J t number inst b) {task : Task} {rest : List Task}
    (hentry : t.entry (working output) = some (.directory number))
    (hperform : Benchmark.perform J output t inst rest task = some m) :
    (∀ n ≠ number, FileTree.Unchanged n t m.tree) ∧ Does J number inst b task rest m := by
  cases task with
  | openFile path =>
    simp only [Benchmark.perform, Option.some.injEq] at hperform
    subst hperform
    split
    · exact ⟨fun n _ => .refl n t, .inl rfl⟩
    · rename_i file tree hopen
      have hopened := FileTree.opened_of_openFile h.unshared hentry hopen
      exact ⟨hopened.unchanged, .inr ⟨rfl, rfl, rfl, h.openFile hopened⟩⟩
  | child limit => simp [Benchmark.perform] at hperform
  | stream =>
    simp only [Benchmark.perform, Option.some.injEq] at hperform
    subst hperform
    exact ⟨fun n _ => .refl n t, .inr ⟨rfl, rfl, rfl, h.closed⟩⟩
  | readText path =>
    simp only [Benchmark.perform, Option.some.injEq] at hperform
    subst hperform
    refine ⟨fun n _ => .refl n t, ?_⟩
    rw [FileTree.readFile_eq hentry]
    split
    · exact .inl rfl
    · rename_i text hread
      refine .inr ⟨rfl, rfl, rfl, { h with read := ?_ }⟩
      rintro p ⟨rfl, hp⟩
      cases hcontent : t.content number p with
      | none => simp [hcontent] at hread
      | some content =>
        cases content with
        | directory => simp [hcontent] at hread
        | file data =>
          simp only [hcontent, Option.some.injEq] at hread
          exact ⟨congrArg (some ∘ Content.file) hread, hp⟩
  | check c =>
    simp only [Benchmark.perform, Option.some.injEq] at hperform
    subst hperform
    refine ⟨fun n _ => .refl n t, ?_⟩
    split
    · rename_i hpasses
      refine .inr ⟨rfl, rfl, rfl, ?_⟩
      cases c with
      | digest => exact h.atStage _
      | report engine =>
        refine { h with verified := ?_ }
        rintro v (hv | ⟨hread, rfl⟩)
        · exact h.verified v hv
        · obtain ⟨hcontent, hclosed⟩ := h.read v.1 hread
          exact ⟨⟨inst.text, hcontent, hpasses⟩, hclosed⟩
    · exact .inl rfl
  | remove path =>
    simp only [Benchmark.perform, Option.some.injEq] at hperform
    subst hperform
    cases hremove : t.removeFile (working output) path with
    | none => exact ⟨fun n _ => .refl n t, .inl rfl⟩
    | some tree =>
      have hremoved := FileTree.removed_of_removeFile h.unshared hentry hremove
      exact ⟨hremoved.unchanged, .inr ⟨rfl, rfl, rfl, h.remove hremoved⟩⟩

theorem unchanged_write {descriptor : Nat} {data : Bytes} (howner : Owner output t inst)
    (h : Benchmark.write t inst descriptor data = some m) {n : Nat}
    (hn : inst.directory ≠ some n) : FileTree.Unchanged n t m.tree := by
  rw [Benchmark.write, Option.map_eq_some_iff] at h
  obtain ⟨⟨file, offset⟩, hget, rfl⟩ := h
  obtain ⟨number, hdirectory, hhome⟩ :=
    howner.descriptors file offset (List.mem_of_getElem? hget)
  have hunchanged : FileTree.Unchanged n t (t.write file offset data) :=
    FileTree.unchanged_modify _ fun hfile => hn (by rw [hdirectory, ← hhome, hfile])
  exact hunchanged

theorem booked_write {descriptor : Nat} {data : Bytes} {tasks : List Task}
    (hstage : inst.stage = .running tasks) (hbooked : Booked J t inst)
    (h : Benchmark.write t inst descriptor data = some m) : Booked J m.tree m.after := by
  have hafter : m.after.stage = inst.stage ∧ m.after.options = inst.options ∧
      m.after.directory = inst.directory := by
    rw [Benchmark.write, Option.map_eq_some_iff] at h
    obtain ⟨_, -, rfl⟩ := h
    exact ⟨rfl, rfl, rfl⟩
  obtain ⟨hsame, hoptions, hdirectory⟩ := hafter
  rw [Booked, hstage] at hbooked
  obtain ⟨done, htasks, haccounts⟩ := hbooked
  rw [Booked, hsame, hstage]
  refine ⟨done, by rw [hoptions, htasks], fun number hnumber => ?_⟩
  rw [hdirectory] at hnumber
  exact (haccounts number hnumber).write h

theorem booked_fail : Booked J t inst.fail := trivial

theorem Accounts.exit (h : Accounts J t number inst b) {limit code : Nat} {rest : List Task} :
    Does J number inst b (.child limit) rest ⟨t, if limit < code then inst.fail
      else { inst with stage := .running rest, descriptors := [] }, []⟩ := by
  unfold Does
  split
  · exact .inl rfl
  · exact .inr ⟨rfl, rfl, rfl, h.closed⟩

variable (howner : Owner output t inst)
  (hexclusive : inst.stage = .makingWorking → a = .proceed → t.entry (working output) = none)

include howner

theorem booked_task {task : Task} {rest : List Task} (hstage : inst.stage = .running (task :: rest))
    (hbooked : Booked J t inst) (hdoes : ∀ number b, t.entry (working output) =
      some (.directory number) → Accounts J t number inst b →
      (∀ n ≠ number, FileTree.Unchanged n t m.tree) ∧ Does J number inst b task rest m) :
    Booked J m.tree m.after ∧ ∀ n, inst.directory ≠ some n → FileTree.Unchanged n t m.tree := by
  obtain ⟨number, hdirectory⟩ := howner.placed (by simp [hstage, Stage.Working])
  have hentry := howner.held number hdirectory (by simp [hstage])
  rw [Booked, hstage] at hbooked
  obtain ⟨done, htasks, hdone⟩ := hbooked
  obtain ⟨hunchanged, hafter⟩ := hdoes number _ hentry (hdone number hdirectory)
  refine ⟨?_, fun n hn => hunchanged n fun heq => hn (heq ▸ hdirectory)⟩
  rcases hafter with hfail | ⟨hnext, hoptions, hsame, haccounts⟩
  · rw [hfail]
    exact booked_fail
  · rw [Booked, hnext]
    refine ⟨done ++ [task], by rw [hoptions, htasks, List.append_assoc]; rfl, fun n hn => ?_⟩
    rw [hsame, hdirectory, Option.some.injEq] at hn
    subst hn
    rw [Book.afterAll_concat]
    exact haccounts

include hexclusive

theorem booked_proceed (hbooked : Booked J t inst) (h : proceed J output t inst = some m)
    (ha : a = .proceed) :
    Booked J m.tree m.after ∧ ∀ n, inst.directory ≠ some n → FileTree.Unchanged n t m.tree := by
  unfold proceed at h
  split at h
  · cases h
    refine ⟨?_, fun n _ => .refl n t⟩
    split
    · exact booked_fail
    · trivial
  · cases h
    refine ⟨?_, fun n _ => .refl n t⟩
    split
    · exact booked_fail
    · trivial
  · rename_i hstage
    simp only [Option.some.injEq] at h
    subst h
    split
    · exact ⟨booked_fail, fun n _ => .refl n t⟩
    · rename_i number tree hcreate
      refine ⟨⟨?_, ?_⟩, fun n _ => FileTree.unchanged_createDirectory hcreate n⟩
      · have hearly := howner.early (by simp [hstage, Stage.Early])
        refine List.eq_nil_iff_forall_not_mem.2 fun entry hmem => ?_
        obtain ⟨own, hown, -⟩ := howner.descriptors entry.1 entry.2 hmem
        rw [hearly] at hown
        cases hown
      · rintro n ⟨⟩ p
        obtain ⟨hnumber, -⟩ := fresh_made hexclusive hstage ha hcreate
        rw [FileTree.content_eq_none_iff, (FileTree.nodes_createDirectory hcreate number).1,
          FileTree.nodes_of_le hnumber.ge]
        rfl
  · rename_i hstage
    cases h
    obtain ⟨number, hdirectory⟩ := howner.placed (by simp [hstage, Stage.Working])
    have hentry := howner.held number hdirectory (by simp [hstage])
    rw [Booked, hstage] at hbooked
    obtain ⟨hdescriptors, hempty⟩ := hbooked
    have hnone := hempty number hdirectory
    cases hcreate : t.createBelow (working output) ["runs"] with
    | none => exact ⟨booked_fail, fun n _ => .refl n t⟩
    | some tree =>
      have hcreated := FileTree.created_of_createBelow (unshared_of_empty hnone) hentry hcreate
      refine ⟨⟨[], rfl, fun n hn => ?_⟩, fun n hn => hcreated.unchanged n fun heq =>
        hn (heq ▸ hdirectory)⟩
      have hnumber : number = n := Option.some.inj (hdirectory.symm.trans hn)
      exact hnumber ▸ accounts_made hcreated hnone hdescriptors
  · rename_i hstage
    exact booked_task howner hstage hbooked fun number b hentry haccounts =>
      haccounts.perform hentry h
  · rename_i hstage
    simp only [Option.some.injEq] at h
    subst h
    split
    · exact ⟨booked_fail, fun n _ => .refl n t⟩
    · rename_i tree hrename
      have hunchanged (n : Nat) : FileTree.Unchanged n t tree := by
        rcases FileTree.rename_spec hrename with rfl | ⟨rfl, -⟩
        · exact .refl n _
        · exact FileTree.unchanged_move n
      refine ⟨fun number hnumber => ?_, fun n _ => hunchanged n⟩
      rw [Booked, hstage] at hbooked
      obtain ⟨done, htasks, hdone⟩ := hbooked
      rw [List.append_nil] at htasks
      have haccounts := (hdone number hnumber).unchanged (hunchanged number)
      rw [htasks]
      exact haccounts.atStage _
  · cases h
  · cases h

theorem booked_move (hbooked : Booked J t inst) (h : move J output t inst a = some m) :
    Booked J m.tree m.after ∧ ∀ n, inst.directory ≠ some n → FileTree.Unchanged n t m.tree := by
  unfold move at h
  split at h
  · exact booked_proceed howner hexclusive hbooked h rfl
  · split at h
    · rename_i hstage
      exact ⟨booked_write hstage hbooked h, fun n hn => unchanged_write howner h hn⟩
    · rename_i hstage
      exact ⟨booked_write hstage hbooked h, fun n hn => unchanged_write howner h hn⟩
    · cases h
  · split at h
    · rename_i hstage
      cases h
      exact booked_task howner hstage hbooked fun number b _ haccounts =>
        ⟨fun n _ => .refl n t, haccounts.exit⟩
    · cases h
  · split at h
    · cases h
    · cases h
    · cases h
      exact ⟨booked_fail, fun n _ => .refl n t⟩

end Instances

section Systems

variable {ι : Type} [DecidableEq ι] {J : JsonLibrary} {output : String} {s u : System ι}
  {label : ι × Action}

theorem options_perform {t : FileTree String} {inst : Instance} {m : Move} {rest : List Task}
    {task : Task} (h : perform J output t inst rest task = some m) :
    m.after.options = inst.options := by
  cases task with
  | child limit => simp [perform] at h
  | openFile path =>
    simp only [perform, Option.some.injEq] at h
    subst h
    split <;> rfl
  | stream =>
    cases h
    rfl
  | readText path =>
    cases h
    dsimp only
    split <;> rfl
  | check c =>
    cases h
    dsimp only
    split <;> rfl
  | remove path =>
    cases h
    cases t.removeFile (working output) path <;> rfl

theorem options_proceed {t : FileTree String} {inst : Instance} {m : Move}
    (h : proceed J output t inst = some m) : m.after.options = inst.options := by
  unfold proceed at h
  split at h
  · cases h
    dsimp only
    split <;> rfl
  · cases h
    dsimp only
    split <;> rfl
  · cases h
    split <;> rfl
  · cases h
    cases t.createBelow (working output) ["runs"] <;> rfl
  · exact options_perform h
  · cases h
    split <;> rfl
  · cases h
  · cases h

theorem options_move {t : FileTree String} {inst : Instance} {a : Action} {m : Move}
    (h : move J output t inst a = some m) : m.after.options = inst.options := by
  have hwrite {descriptor : Nat} {data : Bytes}
      (h : Benchmark.write t inst descriptor data = some m) : m.after.options = inst.options := by
    rw [Benchmark.write, Option.map_eq_some_iff] at h
    obtain ⟨_, -, rfl⟩ := h
    rfl
  unfold move at h
  split at h
  · exact options_proceed h
  · split at h
    · exact hwrite h
    · exact hwrite h
    · cases h
  · split at h
    · cases h
      dsimp only
      split <;> rfl
    · cases h
  · split at h
    · cases h
    · cases h
    · cases h
      rfl

theorem Moved.published_effect {t : FileTree String} {inst : Instance} {a : Action} {m : Move}
    (hm : Moved output t inst a m) {number : Nat} (hmem : .published number ∈ m.effects) :
    m.after.stage = .published ∧ m.tree.entry output = some (.directory number) := by
  cases hm with
  | failed | checkedOutput | checkedWorking | made | madeRuns => cases hmem
  | ran hran =>
    obtain ⟨file, -, heq | ⟨data, heq⟩⟩ := hran.effects _ hmem <;> cases heq
  | published hstage hrename heffects =>
    obtain ⟨n, heq, hentry⟩ := heffects _ hmem
    cases heq
    exact ⟨rfl, (FileTree.entry_rename hrename).trans hentry⟩

theorem Moved.not_published {t : FileTree String} {inst : Instance} {a : Action} {m : Move}
    (hm : Moved output t inst a m) : inst.stage ≠ .published := by
  cases hm with
  | failed hstage => exact hstage
  | ran hran =>
    obtain ⟨tasks, hbefore⟩ := hran.before
    simp [hbefore]
  | checkedOutput hstage | checkedWorking hstage | made hstage | madeRuns hstage
  | published hstage => simp [hstage]

/-- What holds of all invocations when every working directory is created anew. -/
structure Orderly (J : JsonLibrary) (output : String) (options : ι → Options) (s : System ι) :
    Prop where
  separate : Separate output s
  safe : ∀ i, Safe output s.tree (s.instances i)
  booked : ∀ i, Booked J s.tree (s.instances i)
  options : ∀ i, (s.instances i).options = options i
  published : ∀ i number, (i, .published number) ∈ s.log →
    (s.instances i).stage = .published ∧ s.tree.entry output = some (.directory number)

variable {options : ι → Options} {tree : FileTree String}

omit [DecidableEq ι] in
theorem orderly_start : Orderly J output options (System.start options tree) where
  separate := separate_start
  safe i := safe_invoked (options i)
  booked i := by
    change Booked J tree (.invoked (options i))
    rcases invoked_cases (options i) with heq | heq <;> rw [heq] <;> trivial
  options i := by
    change (Instance.invoked (options i)).options = options i
    rcases invoked_cases (options i) with heq | heq <;> rw [heq]
  published i number hmem := by cases hmem

theorem Orderly.step (h : Orderly J output options s) (hexclusive : Exclusive output s label)
    (hstep : Benchmark.step J output s label = some u) : Orderly J output options u := by
  obtain ⟨i, a⟩ := label
  rw [Benchmark.step, Option.map_eq_some_iff] at hstep
  obtain ⟨m, hmove, hu⟩ := hstep
  have hs : Stepped output s u i a m := by
    subst hu
    exact ⟨moved_of_move hmove, rfl, Function.update_self .., fun j hne =>
      Function.update_of_ne hne .., rfl⟩
  obtain ⟨hbooked, hunchanged⟩ := booked_move (h.separate.owner i) hexclusive (h.booked i) hmove
  obtain ⟨hkept, hsafe⟩ := hs.safe h.safe
  refine ⟨h.separate.step hs hexclusive, hsafe, fun j => ?_, fun j => ?_, fun j number hmem => ?_⟩
  · by_cases hne : j = i
    · subst hne
      rw [hs.self, hs.tree]
      exact hbooked
    · rw [hs.others j hne, hs.tree]
      exact (h.booked j).unchanged fun number hj => hunchanged number fun hi =>
        hne (h.separate.distinct hj hi)
  · by_cases hne : j = i
    · subst hne
      rw [hs.self, options_move hmove]
      exact h.options j
    · rw [hs.others j hne]
      exact h.options j
  · rcases hs.mem_log.1 hmem with hold | ⟨rfl, hnew⟩
    · obtain ⟨hstage, hentry⟩ := h.published j number hold
      refine ⟨?_, hkept.standing _ hentry⟩
      by_cases hne : j = i
      · subst hne
        exact absurd hstage hs.moved.not_published
      · rw [hs.others j hne]
        exact hstage
    · rw [hs.self, hs.tree]
      exact hs.moved.published_effect hnew

omit [DecidableEq ι] in
theorem Orderly.accounts (h : Orderly J output options s) {i : ι} {number : Nat}
    (hpublished : (i, .published number) ∈ s.log) : s.tree.entry output = some (.directory number) ∧
      Accounts J s.tree number (s.instances i) (Book.afterAll {} (options i).tasks) := by
  obtain ⟨hstage, hentry⟩ := h.published i number hpublished
  have hbooked := h.booked i
  rw [Booked, hstage, h.options i] at hbooked
  exact ⟨hentry, hbooked number (h.separate.published i number hpublished)⟩

theorem orderly_run {labels : List (ι × Action)}
    (hrun : Transition.run (step J output) (System.start options tree) labels = some s)
    (hexclusive :
      Transition.Throughout (step J output) (Exclusive output) (System.start options tree) labels) :
    Orderly J output options s :=
  Transition.run_invariant_of_throughout (fun h hok hstep => h.step hok hstep) orderly_start
    hexclusive hrun

omit [DecidableEq ι] in
theorem Orderly.files (h : Orderly J output options s) {i : ι} {number : Nat}
    (hpublished : (i, .published number) ∈ s.log) (p : Path) :
    (∃ data, s.tree.content number p = some (.file data)) ↔ p ∈ (options i).bundle := by
  rw [← (h.accounts hpublished).2.present, present_tasks]

omit [DecidableEq ι] in
theorem Orderly.reports (h : Orderly J output options s) {i : ι} {number : Nat}
    (hpublished : (i, .published number) ∈ s.log) {r : Measured}
    (hr : r ∈ (options i).measured) : ∃ text, s.tree.readFile output r.report = some text ∧
      (parseReport J text r.engine).isSome := by
  obtain ⟨hentry, haccounts⟩ := h.accounts hpublished
  obtain ⟨⟨data, hcontent, hreport⟩, -⟩ := haccounts.verified _ (verified_tasks hr)
  refine ⟨data, ?_, hreport⟩
  rw [FileTree.readFile_eq hentry, hcontent]

/-- In a run that creates every working directory where there is none, a bundle that is published
stays at the output path, contains exactly the files of its benchmark, and the report of every
measured replay can be read there and names the engine of the replay. -/
theorem published_bundle {labels : List (ι × Action)}
    (hrun : Transition.run (step J output) (System.start options tree) labels = some s)
    (hexclusive :
      Transition.Throughout (step J output) (Exclusive output) (System.start options tree) labels)
    {i : ι} {number : Nat} (hpublished : (i, .published number) ∈ s.log) :
    s.tree.entry output = some (.directory number) ∧
      (∀ p, s.tree.content number p = some .directory ↔ p = ["runs"]) ∧
      (∀ p, (∃ data, s.tree.content number p = some (.file data)) ↔ p ∈ (options i).bundle) ∧
      ∀ r ∈ (options i).measured, ∃ text, s.tree.readFile output r.report = some text ∧
        (parseReport J text r.engine).isSome := by
  have horderly := orderly_run hrun hexclusive
  obtain ⟨hentry, haccounts⟩ := horderly.accounts hpublished
  exact ⟨hentry, haccounts.directory, horderly.files hpublished,
    fun r hr => horderly.reports hpublished hr⟩

theorem published_bundle_sequential :
    ∃ s, Transition.run (step .reference "evidence")
        (System.start (fun _ => { runs := 1, warmups := 0 }) .empty) sequential = some s ∧
      s.tree.entry "evidence" = some (.directory 0) ∧
      (∀ p, s.tree.content 0 p = some .directory ↔ p = ["runs"]) ∧
      (∀ p, (∃ data, s.tree.content 0 p = some (.file data)) ↔
        p ∈ ({ runs := 1, warmups := 0 } : Options).bundle) ∧
      ∀ r ∈ ({ runs := 1, warmups := 0 } : Options).measured, ∃ text,
        s.tree.readFile "evidence" r.report = some text ∧
          (parseReport .reference text r.engine).isSome := by
  obtain ⟨hrun, hexclusive⟩ : ((Transition.run (step .reference "evidence")
      (System.start (fun _ => { runs := 1, warmups := 0 }) .empty) sequential).any fun s =>
        (false, .published 0) ∈ s.log) = true ∧
      Transition.Throughout (step .reference "evidence") (Exclusive "evidence")
        (System.start (fun _ => { runs := 1, warmups := 0 }) .empty) sequential := by
    decide +kernel
  obtain ⟨s, hs, hpublished⟩ := (Option.any_eq_true ..).1 hrun
  exact ⟨s, hs, published_bundle hs hexclusive (of_decide_eq_true hpublished)⟩

end Systems

end BengalMarket.Benchmark
