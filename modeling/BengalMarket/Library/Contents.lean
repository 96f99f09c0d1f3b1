import BengalMarket.Library.Directories

namespace Directories

inductive Content
  | directory
  | file (data : List UInt8)
  deriving DecidableEq

namespace FileTree

variable {Name : Type}

def content (t : FileTree Name) (number : Nat) (path : Path) : Option Content :=
  match (t.nodes number).lookup path with
  | none => none
  | some .directory => some .directory
  | some (.file file) => t.files[file]?.map fun old => .file old.data

/-- No two paths of a directory name one file. -/
def Unshared (number : Nat) (t : FileTree Name) : Prop :=
  ∀ {file : Nat} {p q : Path}, (p, .file file) ∈ t.nodes number →
    (q, .file file) ∈ t.nodes number → p = q

structure Unchanged (number : Nat) (t after : FileTree Name) : Prop where
  nodes : after.nodes number = t.nodes number
  files : ∀ file, t.home file = some number → after.files[file]? = t.files[file]?

section Contents

variable {t after : FileTree Name} {number n file : Nat} {path q : Path}

theorem Unchanged.refl (number : Nat) (t : FileTree Name) : Unchanged number t t :=
  ⟨rfl, fun _ _ => rfl⟩

theorem Unchanged.unshared (h : Unchanged number t after) (hunshared : Unshared number t) :
    Unshared number after := by
  intro file p q hp hq
  rw [h.nodes] at hp hq
  exact hunshared hp hq

theorem Unchanged.content (h : Unchanged number t after) (path : Path) :
    after.content number path = t.content number path := by
  unfold FileTree.content
  rw [h.nodes]
  cases hlookup : (t.nodes number).lookup path with
  | none => rfl
  | some node =>
    cases node with
    | directory => rfl
    | file file => simp only [h.files file (t.home_of_mem (lookup_mem hlookup))]

theorem content_eq_none_iff :
    t.content number path = none ↔ (t.nodes number).lookup path = none := by
  unfold content
  cases hlookup : (t.nodes number).lookup path with
  | none => simp
  | some node =>
    cases node with
    | directory => simp
    | file file =>
      have hhome := t.home_of_mem (lookup_mem hlookup)
      rw [home, Option.map_eq_some_iff] at hhome
      obtain ⟨old, hold, -⟩ := hhome
      simp [hold]

theorem content_of_directory (h : (t.nodes number).lookup path = some .directory) :
    t.content number path = some .directory := by simp [content, h]

theorem content_of_file (h : (t.nodes number).lookup path = some (.file file)) :
    t.content number path = t.files[file]?.map fun old => .file old.data := by simp [content, h]

theorem file_lt_of_lookup (h : (t.nodes number).lookup path = some (.file file)) :
    file < t.files.length := by
  have hhome := t.home_of_mem (lookup_mem h)
  rw [home, Option.map_eq_some_iff] at hhome
  obtain ⟨old, hold, -⟩ := hhome
  exact (List.getElem?_eq_some_iff.1 hold).1

theorem readFile_eq {name : Name} (h : t.entry name = some (.directory number)) :
    t.readFile name path = match t.content number path with
      | some (.file data) => some data
      | _ => none := by
  unfold readFile content
  rw [h]
  cases hlookup : (t.nodes number).lookup path with
  | none => simp [hlookup]
  | some node =>
    cases node with
    | directory => simp [hlookup]
    | file file => cases hfile : t.files[file]? <;> simp [hlookup, hfile]

theorem lookup_cons_of_ne {nodes : Directory} {node : Node} (h : q ≠ path) :
    List.lookup q ((path, node) :: nodes) = nodes.lookup q := by
  rw [List.lookup_cons, beq_false_of_ne h]

theorem lookup_filter_self (nodes : Directory) :
    (nodes.filter (·.1 != path)).lookup path = none := by
  rw [List.lookup_eq_none_iff]
  intro pair hmem
  have hne : (pair.1 != path) = true := (List.mem_filter.1 hmem).2
  exact bne_comm.trans hne

section Modify

variable (f : List UInt8 → List UInt8)

theorem content_modify_of_ne (h : (t.nodes number).lookup q ≠ some (.file file)) :
    (t.modify file f).content number q = t.content number q := by
  have hnodes : (t.modify file f).nodes number = t.nodes number := rfl
  unfold content
  rw [hnodes]
  cases hlookup : (t.nodes number).lookup q with
  | none => rfl
  | some node =>
    cases node with
    | directory => rfl
    | file other =>
      have hne : file ≠ other := fun heq => h (by rw [hlookup, heq])
      simp [modify, hne]

theorem content_modify_self (h : (t.nodes number).lookup path = some (.file file)) :
    (t.modify file f).content number path =
      t.files[file]?.map fun old => .file (f old.data) := by
  have hsame : ((t.modify file f).nodes number).lookup path = some (.file file) := h
  rw [content_of_file hsame, modify]
  simp only [List.getElem?_modify_eq]
  cases t.files[file]? <;> rfl

theorem unshared_modify (h : Unshared number t) : Unshared number (t.modify file f) := h

theorem unchanged_modify (h : t.home file ≠ some n) : Unchanged n t (t.modify file f) where
  nodes := rfl
  files other hother := by
    have hne : file ≠ other := by
      rintro rfl
      exact h hother
    simp [modify, hne]

end Modify

theorem nodes_setNodes {nodes : Directory} {hhome} (hnumber : number < t.directories.length) :
    (t.setNodes number nodes hhome).nodes number = nodes := by
  simp [FileTree.nodes, setNodes, hnumber]

theorem nodes_setNodes_of_ne {nodes : Directory} {hhome} (hne : n ≠ number) :
    (t.setNodes number nodes hhome).nodes n = t.nodes n := by
  simp [FileTree.nodes, setNodes, List.getElem?_set_ne (Ne.symm hne)]

theorem unchanged_setNodes {nodes : Directory} {hhome} (hne : n ≠ number) :
    Unchanged n t (t.setNodes number nodes hhome) :=
  ⟨nodes_setNodes_of_ne hne, fun _ _ => rfl⟩

theorem unshared_setNodes {nodes : Directory} {hhome} (h : Unshared number t)
    (hnumber : number < t.directories.length)
    (hsub : ∀ {path file}, (path, .file file) ∈ nodes → (path, .file file) ∈ t.nodes number) :
    Unshared number (t.setNodes number nodes hhome) := by
  intro file p q hp hq
  rw [nodes_setNodes hnumber] at hp hq
  exact h (hsub hp) (hsub hq)

theorem content_setNodes {nodes : Directory} {hhome} (hnumber : number < t.directories.length)
    (h : nodes.lookup q = (t.nodes number).lookup q) :
    (t.setNodes number nodes hhome).content number q = t.content number q := by
  unfold content
  rw [nodes_setNodes hnumber, h]
  rfl

theorem nodes_addFile (hnumber : number < t.directories.length) :
    (t.addFile number path).nodes number = (path, .file t.files.length) :: t.nodes number := by
  simp [FileTree.nodes, addFile, hnumber]

theorem nodes_addFile_of_ne (hne : n ≠ number) :
    (t.addFile number path).nodes n = t.nodes n := by
  simp [FileTree.nodes, addFile, List.getElem?_set_ne (Ne.symm hne)]

theorem files_addFile (h : file < t.files.length) :
    (t.addFile number path).files[file]? = t.files[file]? :=
  List.getElem?_append_left h

theorem unchanged_addFile (hne : n ≠ number) : Unchanged n t (t.addFile number path) where
  nodes := nodes_addFile_of_ne hne
  files other hother := by
    rw [home, Option.map_eq_some_iff] at hother
    obtain ⟨old, hold, -⟩ := hother
    exact files_addFile (List.getElem?_eq_some_iff.1 hold).1

theorem file_lt_of_mem (h : (path, .file file) ∈ t.nodes number) : file < t.files.length := by
  have hhome := t.home_of_mem h
  rw [home, Option.map_eq_some_iff] at hhome
  obtain ⟨old, hold, -⟩ := hhome
  exact (List.getElem?_eq_some_iff.1 hold).1

theorem unshared_addFile (h : Unshared number t) (hnumber : number < t.directories.length) :
    Unshared number (t.addFile number path) := by
  intro file p q hp hq
  rw [nodes_addFile hnumber, List.mem_cons] at hp hq
  rcases hp with hp | hp <;> rcases hq with hq | hq
  · cases hp
    cases hq
    rfl
  · cases hp
    exact absurd (file_lt_of_mem hq) (Nat.lt_irrefl _)
  · cases hq
    exact absurd (file_lt_of_mem hp) (Nat.lt_irrefl _)
  · exact h hp hq

structure Opened (t : FileTree Name) (number : Nat) (path : Path) (file : Nat)
    (after : FileTree Name) : Prop where
  lookup : (after.nodes number).lookup path = some (.file file)
  kept : ∀ q ≠ path, (after.nodes number).lookup q = (t.nodes number).lookup q
  empty : after.content number path = some (.file [])
  file : t.content number path ≠ some .directory
  others : ∀ q ≠ path, after.content number q = t.content number q
  unchanged : ∀ n ≠ number, Unchanged n t after
  unshared : Unshared number after

theorem opened_of_openFile {name : Name} (hunshared : Unshared number t)
    (hentry : t.entry name = some (.directory number))
    (h : t.openFile name path = some (file, after)) : Opened t number path file after := by
  have hnumber := t.exists_directory hentry
  rw [openFile, hentry] at h
  dsimp only at h
  split at h
  · split at h
    · rename_i found hlookup
      cases h
      have hhome := t.home_of_mem (lookup_mem hlookup)
      refine ⟨hlookup, fun q _ => rfl, ?_, ?_, fun q hne => ?_, fun n hne => ?_,
        unshared_modify _ hunshared⟩
      · rw [content_modify_self _ hlookup, List.getElem?_eq_getElem (file_lt_of_lookup hlookup)]
        rfl
      · rw [content_of_file hlookup]
        cases t.files[file]? <;> simp
      · refine content_modify_of_ne _ fun hq => hne ?_
        exact hunshared (lookup_mem hq) (lookup_mem hlookup)
      · refine unchanged_modify _ fun hn => hne ?_
        exact Option.some.inj (hn.symm.trans hhome)
    · cases h
    · rename_i hfree
      cases h
      have hself : ((t.addFile number path).nodes number).lookup path =
          some (.file t.files.length) := by
        rw [nodes_addFile hnumber, List.lookup_cons_self]
      have hkept : ∀ q ≠ path, ((t.addFile number path).nodes number).lookup q =
          (t.nodes number).lookup q := fun q hne => by
        rw [nodes_addFile hnumber, lookup_cons_of_ne hne]
      refine ⟨hself, hkept, ?_, ?_, fun q hne => ?_, fun n hne => unchanged_addFile hne,
        unshared_addFile hunshared hnumber⟩
      · rw [content_of_file hself]
        simp [addFile]
      · rw [content_eq_none_iff.2 hfree]
        simp
      · unfold content
        rw [hkept q hne]
        cases hlookup : (t.nodes number).lookup q with
        | none => rfl
        | some node =>
          cases node with
          | directory => rfl
          | file other => simp only [files_addFile (file_lt_of_lookup hlookup)]
  · cases h

structure Removed (t : FileTree Name) (number : Nat) (path : Path) (after : FileTree Name) :
    Prop where
  gone : after.content number path = none
  kept : ∀ q ≠ path, (after.nodes number).lookup q = (t.nodes number).lookup q
  others : ∀ q ≠ path, after.content number q = t.content number q
  file : t.content number path ≠ some .directory
  unchanged : ∀ n ≠ number, Unchanged n t after
  unshared : Unshared number after

theorem removed_of_removeFile {name : Name} (hunshared : Unshared number t)
    (hentry : t.entry name = some (.directory number))
    (h : t.removeFile name path = some after) : Removed t number path after := by
  have hnumber := t.exists_directory hentry
  rw [removeFile, hentry] at h
  dsimp only at h
  split at h
  · rename_i found hlookup
    cases h
    have hkept (q : Path) (hne : q ≠ path) :
        ((t.nodes number).filter (·.1 != path)).lookup q = (t.nodes number).lookup q :=
      lookup_filter_of_ne hne
    refine ⟨?_, fun q hne => ?_, fun q hne => content_setNodes hnumber (hkept q hne), ?_,
      fun n hne => unchanged_setNodes hne,
      unshared_setNodes hunshared hnumber fun hmem => List.mem_of_mem_filter hmem⟩
    · rw [content_eq_none_iff, nodes_setNodes hnumber]
      exact lookup_filter_self _
    · rw [nodes_setNodes hnumber]
      exact hkept q hne
    · rw [content_of_file hlookup]
      cases t.files[found]? <;> simp
  · cases h
  · rename_i hfree
    cases h
    refine ⟨content_eq_none_iff.2 hfree, fun _ _ => rfl, fun _ _ => rfl, ?_,
      fun n _ => .refl n _, hunshared⟩
    rw [content_eq_none_iff.2 hfree]
    simp

structure Created (t : FileTree Name) (number : Nat) (path : Path) (after : FileTree Name) :
    Prop where
  directory : after.content number path = some .directory
  others : ∀ q ≠ path, after.content number q = t.content number q
  unchanged : ∀ n ≠ number, Unchanged n t after
  unshared : Unshared number after

theorem created_of_createBelow {name : Name} (hunshared : Unshared number t)
    (hentry : t.entry name = some (.directory number))
    (h : t.createBelow name path = some after) : Created t number path after := by
  have hnumber := t.exists_directory hentry
  rw [createBelow, hentry] at h
  dsimp only at h
  split at h
  · split at h
    · rename_i hlookup
      cases h
      exact ⟨content_of_directory hlookup, fun _ _ => rfl, fun n _ => .refl n _, hunshared⟩
    · cases h
    · cases h
      refine ⟨content_of_directory ?_, fun q hne => content_setNodes hnumber ?_,
        fun n hne => unchanged_setNodes hne, unshared_setNodes hunshared hnumber fun hmem => ?_⟩
      · rw [nodes_setNodes hnumber, List.lookup_cons_self]
      · exact lookup_cons_of_ne hne
      · exact (List.mem_cons.1 hmem).resolve_left fun heq => by cases heq
  · cases h

theorem content_write_of_ne (offset : Nat) (data : List UInt8)
    (h : (t.nodes number).lookup q ≠ some (.file file)) :
    (t.write file offset data).content number q = t.content number q :=
  content_modify_of_ne _ h

theorem exists_content_write (offset : Nat) (data : List UInt8)
    (h : (t.nodes number).lookup path = some (.file file)) :
    (∃ before, t.content number path = some (.file before)) ∧
      ∃ written, (t.write file offset data).content number path = some (.file written) := by
  rw [write, content_modify_self _ h, content_of_file h,
    List.getElem?_eq_getElem (file_lt_of_lookup h)]
  exact ⟨⟨_, rfl⟩, _, rfl⟩

end Contents

section Names

variable [DecidableEq Name] {t after : FileTree Name} {name old new : Name} {number n : Nat}

theorem nodes_createDirectory (h : t.createDirectory name = some (number, after)) (n : Nat) :
    after.nodes n = t.nodes n ∧ after.files = t.files := by
  unfold createDirectory at h
  split at h
  · cases h
    exact ⟨rfl, rfl⟩
  · cases h
  · cases h
    refine ⟨?_, rfl⟩
    unfold nodes
    by_cases hn : n < t.directories.length
    · rw [List.getElem?_append_left hn]
    · have hge := Nat.not_lt.1 hn
      rw [List.getElem?_append_right hge, List.getElem?_eq_none hge]
      cases hrest : n - t.directories.length <;> simp

theorem unchanged_createDirectory (h : t.createDirectory name = some (number, after)) (n : Nat) :
    Unchanged n t after :=
  ⟨(nodes_createDirectory h n).1, fun _ _ => by rw [(nodes_createDirectory h n).2]⟩

theorem entry_rename (h : t.rename old new = some after) : after.entry new = t.entry old := by
  unfold rename at h
  split at h
  · cases h
  · cases h
    exact entry_move_new
  · cases h
    exact entry_move_new
  · rename_i number other hold hnew
    split at h
    · rename_i heq
      cases h
      rw [hold, hnew, heq]
    · split at h
      · cases h
        exact entry_move_new
      · cases h
  · cases h
  · cases h

theorem unchanged_move (n : Nat) : Unchanged n t (t.move old new) := ⟨rfl, fun _ _ => rfl⟩

omit [DecidableEq Name] in
theorem nodes_of_le (h : t.directories.length ≤ number) : t.nodes number = [] := by
  rw [nodes, List.getElem?_eq_none h]
  rfl

end Names

end FileTree

end Directories
