import Mathlib.Data.List.Basic
import Mathlib.Logic.Function.Basic

namespace FileSystem

/-- `synced` says that nothing was written since the file was last synced. -/
structure File where
  data : List UInt8 := []
  synced : Bool := false
  deriving DecidableEq

/-- `entry` is the directory as it is seen; `earlier` is what the entry of a name was since the
directory was last synced.  Entries are numbers of files that exist. -/
structure Disk (Name : Type) where
  files : List File
  entry : Name → Option Nat
  earlier : Name → List (Option Nat)
  exists_file : ∀ {name number}, some number ∈ entry name :: earlier name → number < files.length

namespace Disk

variable {Name : Type}

def empty : Disk Name where
  files := []
  entry _ := none
  earlier _ := []
  exists_file h := by simp at h

theorem lt_of_entry (d : Disk Name) {name : Name} {number : Nat} (h : d.entry name = some number) :
    number < d.files.length := d.exists_file (List.mem_cons.2 (.inl h.symm))

/-- Everything that may be found under a name after a crash. -/
def possible (d : Disk Name) (name : Name) : List (Option Nat) := d.entry name :: d.earlier name

def content (d : Disk Name) (name : Name) : Option (List UInt8) :=
  (d.entry name).bind fun number => d.files[number]?.map File.data

def modify (d : Disk Name) (number : Nat) (f : File → File) : Disk Name where
  files := d.files.modify number f
  entry := d.entry
  earlier := d.earlier
  exists_file h := by
    rw [List.length_modify]
    exact d.exists_file h

def append (d : Disk Name) (number : Nat) (data : List UInt8) : Disk Name :=
  d.modify number fun file => { data := file.data ++ data, synced := false }

def sync (d : Disk Name) (number : Nat) : Disk Name :=
  d.modify number fun file => { file with synced := true }

def syncDirectory (d : Disk Name) : Disk Name where
  files := d.files
  entry := d.entry
  earlier _ := []
  exists_file h := d.lt_of_entry (List.mem_singleton.1 h).symm

section Modified

variable {d : Disk Name} {name : Name} {number : Nat}

@[simp] theorem possible_syncDirectory : d.syncDirectory.possible name = [d.entry name] := rfl

theorem getElem?_modify (f : File → File) (n : Nat) :
    (d.modify number f).files[n]? = if number = n then d.files[n]?.map f else d.files[n]? := by
  rw [modify, List.getElem?_modify]
  split <;> simp

end Modified

variable [DecidableEq Name]

theorem exists_file_update (d : Disk Name) {files : List File} {name : Name} {entry : Option Nat}
    (hfiles : d.files.length ≤ files.length) (hentry : ∀ number ∈ entry, number < files.length)
    {other : Name} {number : Nat}
    (h : some number ∈ Function.update d.entry name entry other ::
      Function.update d.earlier name (d.possible name) other) : number < files.length := by
  by_cases hname : other = name
  · subst hname
    rw [Function.update_self, Function.update_self, List.mem_cons] at h
    rcases h with h | h
    · exact hentry number h.symm
    · exact Nat.lt_of_lt_of_le (d.exists_file h) hfiles
  · rw [Function.update_of_ne hname, Function.update_of_ne hname] at h
    exact Nat.lt_of_lt_of_le (d.exists_file h) hfiles

def setEntry (d : Disk Name) (name : Name) (entry : Option Nat)
    (h : ∀ number ∈ entry, number < d.files.length) : Disk Name where
  files := d.files
  entry := Function.update d.entry name entry
  earlier := Function.update d.earlier name (d.possible name)
  exists_file := d.exists_file_update (Nat.le_refl _) h

def create (d : Disk Name) (name : Name) : Option (Nat × Disk Name) :=
  match d.entry name with
  | some _ => none
  | none => some (d.files.length, {
      files := d.files ++ [⟨[], false⟩]
      entry := Function.update d.entry name (some d.files.length)
      earlier := Function.update d.earlier name (d.possible name)
      exists_file := d.exists_file_update (by simp) (by simp) })

def link (d : Disk Name) (name new : Name) : Option (Nat × Disk Name) :=
  match h : d.entry name with
  | none => none
  | some number =>
    if d.entry new = none then
      some (number, d.setEntry new (some number) fun _ hnumber =>
        Option.some.inj hnumber ▸ d.lt_of_entry h)
    else none

def unlink (d : Disk Name) (name : Name) : Option (Nat × Disk Name) :=
  match d.entry name with
  | none => none
  | some number => some (number, d.setEntry name none fun _ h => nomatch h)

/-- A crash keeps what was synced; under a name it leaves any of its possible entries. -/
structure Crash {Name : Type} (before after : Disk Name) : Prop where
  entry : ∀ name, after.entry name ∈ before.possible name
  kept : ∀ (number : Nat) (file : File), before.files[number]? = some file → file.synced = true →
    after.files[number]? = some file

section Entries

variable {d after : Disk Name} {name other new : Name} {number : Nat}

structure Changed (d after : Disk Name) (name : Name) (entry : Option Nat) : Prop where
  entry : after.entry = Function.update d.entry name entry
  earlier : after.earlier = Function.update d.earlier name (d.possible name)

theorem Changed.entry_self {entry : Option Nat} (h : Changed d after name entry) :
    after.entry name = entry := by rw [h.entry, Function.update_self]

theorem Changed.entry_of_ne {entry : Option Nat} (h : Changed d after name entry)
    (hne : other ≠ name) : after.entry other = d.entry other := by
  rw [h.entry, Function.update_of_ne hne]

theorem Changed.possible_self {entry : Option Nat} (h : Changed d after name entry) :
    after.possible name = entry :: d.possible name := by
  rw [possible, h.entry_self, h.earlier, Function.update_self]

theorem Changed.possible_of_ne {entry : Option Nat} (h : Changed d after name entry)
    (hne : other ≠ name) : after.possible other = d.possible other := by
  rw [possible, h.entry_of_ne hne, h.earlier, Function.update_of_ne hne, possible]

theorem create_spec (h : d.create name = some (number, after)) :
    d.entry name = none ∧ number = d.files.length ∧ after.files = d.files ++ [⟨[], false⟩] ∧
      Changed d after name (some number) := by
  unfold create at h
  split at h
  · cases h
  · rename_i hnone
    cases h
    exact ⟨hnone, rfl, rfl, rfl, rfl⟩

theorem link_spec (h : d.link name new = some (number, after)) :
    d.entry name = some number ∧ d.entry new = none ∧ after.files = d.files ∧
      Changed d after new (some number) := by
  unfold link at h
  split at h
  · cases h
  · rename_i hentry
    split at h
    · rename_i hnone
      cases h
      exact ⟨hentry, hnone, rfl, rfl, rfl⟩
    · cases h

theorem unlink_spec (h : d.unlink name = some (number, after)) :
    d.entry name = some number ∧ after.files = d.files ∧ Changed d after name none := by
  unfold unlink at h
  split at h
  · cases h
  · rename_i hentry
    cases h
    exact ⟨hentry, rfl, rfl, rfl⟩

end Entries

end Disk

end FileSystem
