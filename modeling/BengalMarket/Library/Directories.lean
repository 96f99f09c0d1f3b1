import Mathlib.Data.List.Basic
import Mathlib.Logic.Function.Basic

namespace Directories

abbrev Path := List String

inductive Node
  | directory
  | file (number : Nat)
  deriving DecidableEq

abbrev Directory := List (Path × Node)

/-- `home` is the directory that the file was created in. -/
structure File where
  data : List UInt8 := []
  home : Nat
  deriving DecidableEq

inductive Entry
  | file
  | directory (number : Nat)
  deriving DecidableEq

/-- The numbers are those of directories and files that exist; no file changes its directory. -/
structure FileTree (Name : Type) where
  entry : Name → Option Entry
  directories : List Directory
  files : List File
  exists_directory : ∀ {name number}, entry name = some (.directory number) →
    number < directories.length
  stays : ∀ {number nodes path file}, directories[number]? = some nodes →
    (path, .file file) ∈ nodes → files[file]?.map File.home = some number

namespace FileTree

variable {Name : Type}

def empty : FileTree Name where
  entry _ := none
  directories := []
  files := []
  exists_directory h := by simp at h
  stays h := by simp at h

def nodes (t : FileTree Name) (number : Nat) : Directory := t.directories[number]?.getD []

def home (t : FileTree Name) (file : Nat) : Option Nat := t.files[file]?.map File.home

theorem home_of_mem (t : FileTree Name) {number file : Nat} {path : Path}
    (h : (path, .file file) ∈ t.nodes number) : t.home file = some number := by
  cases hnodes : t.directories[number]? with
  | none => simp [nodes, hnodes] at h
  | some nodes => exact t.stays hnodes (by simpa [FileTree.nodes, hnodes] using h)

theorem map_home_modify (files : List File) (f : List UInt8 → List UInt8) (file n : Nat) :
    (files.modify file fun old => { old with data := f old.data })[n]?.map File.home =
      files[n]?.map File.home := by
  rw [List.getElem?_modify]
  split <;> cases files[n]? <;> rfl

def modify (t : FileTree Name) (file : Nat) (f : List UInt8 → List UInt8) : FileTree Name where
  entry := t.entry
  directories := t.directories
  files := t.files.modify file fun old => { old with data := f old.data }
  exists_directory := t.exists_directory
  stays hnodes hmem := (map_home_modify ..).trans (t.stays hnodes hmem)

/-- A write at an offset; a gap before it is filled with zeros. -/
def write (t : FileTree Name) (file offset : Nat) (data : List UInt8) : FileTree Name :=
  t.modify file fun old => old.take offset ++ List.replicate (offset - old.length) 0 ++ data ++
    old.drop (offset + data.length)

def setNodes (t : FileTree Name) (number : Nat) (nodes : Directory)
    (h : ∀ {path file}, (path, .file file) ∈ nodes → t.home file = some number) :
    FileTree Name where
  entry := t.entry
  directories := t.directories.set number nodes
  files := t.files
  exists_directory hentry := by
    rw [List.length_set]
    exact t.exists_directory hentry
  stays {n old path file} hnodes hmem := by
    rw [List.getElem?_set] at hnodes
    split at hnodes
    · rename_i heq
      split at hnodes <;> cases hnodes
      exact heq ▸ h hmem
    · exact t.stays hnodes hmem

def addFile (t : FileTree Name) (number : Nat) (path : Path) : FileTree Name where
  entry := t.entry
  directories := t.directories.set number ((path, .file t.files.length) :: t.nodes number)
  files := t.files ++ [{ home := number }]
  exists_directory hentry := by
    rw [List.length_set]
    exact t.exists_directory hentry
  stays {n nodes other file} hnodes hmem := by
    have hold {k : Nat} (hhome : t.home file = some k) :
        (t.files ++ [{ home := number }])[file]?.map File.home = some k := by
      rw [home, Option.map_eq_some_iff] at hhome
      obtain ⟨old, hget, rfl⟩ := hhome
      rw [List.getElem?_append_left (List.getElem?_eq_some_iff.1 hget).1, hget]
      rfl
    rw [List.getElem?_set] at hnodes
    split at hnodes
    · rename_i heq
      split at hnodes <;> cases hnodes
      rcases List.mem_cons.1 hmem with hnew | hmem
      · cases hnew
        simp [heq]
      · exact hold (heq ▸ t.home_of_mem hmem)
    · exact hold (t.stays hnodes hmem)

def hasParent (nodes : Directory) (path : Path) : Bool :=
  path.dropLast.isEmpty || nodes.lookup path.dropLast == some .directory

/-- Opens a file for writing, creating or truncating it: its number. -/
def openFile (t : FileTree Name) (name : Name) (path : Path) : Option (Nat × FileTree Name) :=
  match t.entry name with
  | some (.directory number) =>
    if hasParent (t.nodes number) path then
      match (t.nodes number).lookup path with
      | some (.file file) => some (file, t.modify file fun _ => [])
      | some .directory => none
      | none => some (t.files.length, t.addFile number path)
    else none
  | _ => none

def readFile (t : FileTree Name) (name : Name) (path : Path) : Option (List UInt8) :=
  match t.entry name with
  | some (.directory number) =>
    match (t.nodes number).lookup path with
    | some (.file file) => t.files[file]?.map File.data
    | _ => none
  | _ => none

def removeFile (t : FileTree Name) (name : Name) (path : Path) : Option (FileTree Name) :=
  match t.entry name with
  | some (.directory number) =>
    match (t.nodes number).lookup path with
    | some (.file _) => some (t.setNodes number ((t.nodes number).filter (·.1 != path))
        fun h => t.home_of_mem (List.mem_of_mem_filter h))
    | some .directory => none
    | none => some t
  | some .file => none
  | none => some t

def createBelow (t : FileTree Name) (name : Name) (path : Path) : Option (FileTree Name) :=
  match t.entry name with
  | some (.directory number) =>
    if hasParent (t.nodes number) path then
      match (t.nodes number).lookup path with
      | some .directory => some t
      | some (.file _) => none
      | none => some (t.setNodes number ((path, .directory) :: t.nodes number) fun h => by
          rcases List.mem_cons.1 h with h | h
          · cases h
          · exact t.home_of_mem h)
    else none
  | _ => none

section Below

variable {t after : FileTree Name} {name : Name} {path : Path} {number file : Nat}

structure Extends (t after : FileTree Name) : Prop where
  length : t.directories.length ≤ after.directories.length
  subdirectory : ∀ number path, (t.nodes number).lookup path = some .directory →
    (after.nodes number).lookup path = some .directory
  home : ∀ file number, t.home file = some number → after.home file = some number

theorem Extends.refl (t : FileTree Name) : Extends t t :=
  ⟨Nat.le_refl _, fun _ _ => id, fun _ _ => id⟩

theorem home_modify (f : List UInt8 → List UInt8) (n : Nat) :
    (t.modify file f).home n = t.home n := map_home_modify ..

theorem extends_modify (f : List UInt8 → List UInt8) : Extends t (t.modify file f) :=
  ⟨Nat.le_refl _, fun _ _ => id, fun n _ h => (home_modify f n).trans h⟩

theorem extends_write (offset : Nat) (data : List UInt8) : Extends t (t.write file offset data) :=
  extends_modify _

theorem lookup_set (hnumber : number < t.directories.length) {nodes : Directory}
    (h : ∀ other, (t.nodes number).lookup other = some .directory →
      nodes.lookup other = some .directory) (n : Nat) (other : Path)
    (hlookup : (t.nodes n).lookup other = some .directory) :
    ((t.directories.set number nodes)[n]?.getD []).lookup other = some .directory := by
  rw [List.getElem?_set]
  by_cases heq : number = n
  · subst heq
    rw [if_pos rfl, if_pos hnumber]
    exact h other hlookup
  · rw [if_neg heq]
    exact hlookup

theorem extends_setNodes {nodes : Directory} {hhome}
    (hnumber : number < t.directories.length)
    (h : ∀ other, (t.nodes number).lookup other = some .directory →
      nodes.lookup other = some .directory) : Extends t (t.setNodes number nodes hhome) where
  length := Nat.le_of_eq (List.length_set ..).symm
  subdirectory := lookup_set hnumber h
  home _ _ := id

theorem lookup_cons_of_free {nodes : Directory} (hfree : nodes.lookup path = none) (node : Node)
    (other : Path) (h : nodes.lookup other = some .directory) :
    List.lookup other ((path, node) :: nodes) = some .directory := by
  have hne : other ≠ path := by
    rintro rfl
    rw [hfree] at h
    cases h
  rw [List.lookup_cons, beq_false_of_ne hne]
  exact h

theorem lookup_filter_of_ne {nodes : Directory} {other : Path} (hne : other ≠ path) :
    (nodes.filter (·.1 != path)).lookup other = nodes.lookup other := by
  induction nodes with
  | nil => rfl
  | cons pair nodes ih =>
    by_cases heq : pair.1 = path
    · rw [List.filter_cons_of_neg (by simp [heq]), List.lookup_cons, heq, beq_false_of_ne hne, ih]
    · rw [List.filter_cons_of_pos (by simp [heq]), List.lookup_cons, List.lookup_cons, ih]

theorem extends_addFile (hnumber : number < t.directories.length)
    (hfree : (t.nodes number).lookup path = none) : Extends t (t.addFile number path) where
  length := Nat.le_of_eq (List.length_set ..).symm
  subdirectory := lookup_set hnumber (lookup_cons_of_free hfree _)
  home n k h := by
    rw [home, Option.map_eq_some_iff] at h ⊢
    obtain ⟨old, hget, hhome⟩ := h
    exact ⟨old, (List.getElem?_append_left (List.getElem?_eq_some_iff.1 hget).1).trans hget, hhome⟩

theorem home_addFile : (t.addFile number path).home t.files.length = some number := by
  simp [home, addFile]

theorem lookup_mem {nodes : Directory} {node : Node} (h : nodes.lookup path = some node) :
    (path, node) ∈ nodes := by
  rw [List.lookup_eq_some_iff] at h
  obtain ⟨before, rest, rfl, -⟩ := h
  simp

theorem openFile_spec (h : t.openFile name path = some (file, after)) :
    ∃ number, t.entry name = some (.directory number) ∧ after.entry = t.entry ∧
      after.home file = some number ∧ Extends t after := by
  unfold openFile at h
  split at h
  · rename_i number hentry
    split at h
    · split at h
      · rename_i hlookup
        cases h
        refine ⟨number, hentry, rfl, ?_, extends_modify _⟩
        exact (home_modify _ _).trans (t.home_of_mem (lookup_mem hlookup))
      · cases h
      · rename_i hfree
        cases h
        have hnumber := t.exists_directory hentry
        exact ⟨number, hentry, rfl, home_addFile, extends_addFile hnumber hfree⟩
    · cases h
  · cases h

theorem removeFile_spec (h : t.removeFile name path = some after) :
    after.entry = t.entry ∧ Extends t after := by
  unfold removeFile at h
  split at h
  · rename_i number hentry
    split at h
    · rename_i hfile
      cases h
      refine ⟨rfl, extends_setNodes (t.exists_directory hentry) fun other hother => ?_⟩
      have hne : other ≠ path := by
        rintro rfl
        rw [hfile] at hother
        cases hother
      exact (lookup_filter_of_ne hne).trans hother
    · cases h
    · cases h
      exact ⟨rfl, .refl _⟩
  · cases h
  · cases h
    exact ⟨rfl, .refl _⟩

theorem createBelow_spec (h : t.createBelow name path = some after) :
    ∃ number, t.entry name = some (.directory number) ∧ after.entry = t.entry ∧
      (after.nodes number).lookup path = some .directory ∧ Extends t after := by
  unfold createBelow at h
  split at h
  · rename_i number hentry
    split at h
    · split at h
      · rename_i hlookup
        cases h
        exact ⟨number, hentry, rfl, hlookup, .refl _⟩
      · cases h
      · rename_i hfree
        cases h
        have hnumber := t.exists_directory hentry
        refine ⟨number, hentry, rfl, ?_, extends_setNodes hnumber (lookup_cons_of_free hfree _)⟩
        simp [nodes, setNodes, hnumber]
    · cases h
  · cases h

end Below

variable [DecidableEq Name]

/-- Creates a directory; one that exists is left as it is. -/
def createDirectory (t : FileTree Name) (name : Name) : Option (Nat × FileTree Name) :=
  match t.entry name with
  | some (.directory number) => some (number, t)
  | some .file => none
  | none => some (t.directories.length, {
      entry := Function.update t.entry name (some (.directory t.directories.length))
      directories := t.directories ++ [[]]
      files := t.files
      exists_directory := fun {other number} hentry => by
        rw [List.length_append, List.length_singleton]
        by_cases hname : other = name
        · rw [hname, Function.update_self] at hentry
          cases hentry
          exact Nat.lt_succ_self _
        · rw [Function.update_of_ne hname] at hentry
          exact Nat.lt_succ_of_lt (t.exists_directory hentry)
      stays := fun {number nodes path file} hnodes hmem => by
        rw [List.getElem?_append] at hnodes
        split at hnodes
        · exact t.stays hnodes hmem
        · rw [List.mem_singleton.1 (List.mem_of_getElem? hnodes)] at hmem
          cases hmem })

def move (t : FileTree Name) (old new : Name) : FileTree Name where
  entry := Function.update (Function.update t.entry old none) new (t.entry old)
  directories := t.directories
  files := t.files
  exists_directory {name number} hentry := by
    by_cases hnew : name = new
    · rw [hnew, Function.update_self] at hentry
      exact t.exists_directory hentry
    · rw [Function.update_of_ne hnew] at hentry
      by_cases hold : name = old
      · rw [hold, Function.update_self] at hentry
        cases hentry
      · rw [Function.update_of_ne hold] at hentry
        exact t.exists_directory hentry
  stays := t.stays

/-- A file replaces a file and a directory an empty one; nothing happens when both names are of
the same directory. -/
def rename (t : FileTree Name) (old new : Name) : Option (FileTree Name) :=
  match t.entry old, t.entry new with
  | none, _ => none
  | some _, none => some (t.move old new)
  | some .file, some .file => some (t.move old new)
  | some (.directory number), some (.directory other) =>
    if number = other then some t
    else if (t.nodes other).isEmpty then some (t.move old new)
    else none
  | some .file, some (.directory _) | some (.directory _), some .file => none

section Names

variable {t after : FileTree Name} {name old new : Name} {number : Nat}

theorem createDirectory_spec (h : t.createDirectory name = some (number, after)) :
    Extends t after ∧ ((t.entry name = some (.directory number) ∧ after = t) ∨
      (t.entry name = none ∧ number = t.directories.length ∧
        number < after.directories.length ∧
        after.entry = Function.update t.entry name (some (.directory number)))) := by
  unfold createDirectory at h
  split at h
  · rename_i hentry
    cases h
    exact ⟨.refl _, .inl ⟨hentry, rfl⟩⟩
  · cases h
  · rename_i hnone
    cases h
    refine ⟨⟨by simp, fun n path hlookup => ?_, fun _ _ => id⟩, .inr ⟨hnone, rfl, by simp, rfl⟩⟩
    have hn : n < t.directories.length := by
      by_contra hge
      rw [nodes, List.getElem?_eq_none (Nat.not_lt.1 hge)] at hlookup
      cases hlookup
    rw [nodes, List.getElem?_append_left hn]
    exact hlookup

theorem rename_spec (h : t.rename old new = some after) :
    after = t ∨ after = t.move old new ∧
      ∀ other, t.entry new = some (.directory other) → t.nodes other = [] := by
  unfold rename at h
  split at h
  · cases h
  · rename_i hnone
    cases h
    exact .inr ⟨rfl, by simp [hnone]⟩
  · rename_i hold hnew
    cases h
    exact .inr ⟨rfl, by simp [hnew]⟩
  · rename_i other hold hnew
    split at h
    · cases h
      exact .inl rfl
    · split at h
      · rename_i hempty
        cases h
        refine .inr ⟨rfl, fun n hn => ?_⟩
        rw [hnew] at hn
        cases hn
        exact List.isEmpty_iff.1 hempty
      · cases h
  · cases h
  · cases h

theorem extends_move : Extends t (t.move old new) := ⟨Nat.le_refl _, fun _ _ => id, fun _ _ => id⟩

theorem entry_move_new : (t.move old new).entry new = t.entry old := Function.update_self ..

end Names

end FileTree

end Directories
