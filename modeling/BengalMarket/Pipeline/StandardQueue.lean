import BengalMarket.Library.BoundedFifo
import Mathlib.Data.Nat.ModEq
import Mathlib.Data.List.GetD

/-! The mutex-protected ring buffer of the standard engine.  Each operation holds
the lock for its whole body, so it is one atomic step. -/

universe u

namespace BengalMarket

structure StandardSpscQueue (T : Type u) (capacity : Nat) where
  slots : Vector (Option T) capacity
  read : Nat
  write : Nat
  size : Nat

namespace StandardSpscQueue

variable {T : Type u} {capacity : Nat}

def empty : StandardSpscQueue T capacity where
  slots := Vector.replicate capacity none
  read := 0
  write := 0
  size := 0

/-- `none` is the `false` of the source: neither the queue nor the value changes. -/
def tryPush (q : StandardSpscQueue T capacity) (value : T) :
    Option (StandardSpscQueue T capacity) :=
  if q.size = capacity then none
  else
    some
      { slots := q.slots.setIfInBounds q.write (some value)
        read := q.read
        write := (q.write + 1) % capacity
        size := q.size + 1 }

def tryPop (q : StandardSpscQueue T capacity) : Option T × StandardSpscQueue T capacity :=
  if q.size = 0 then (none, q)
  else
    (q.slots[q.read]?.join,
      { slots := q.slots.setIfInBounds q.read none
        read := (q.read + 1) % capacity
        write := q.write
        size := q.size - 1 })

def slotAt (q : StandardSpscQueue T capacity) (offset : Nat) : Option T :=
  q.slots[(q.read + offset) % capacity]?.join

def contents (q : StandardSpscQueue T capacity) : List T :=
  (List.range q.size).filterMap q.slotAt

/-- The engaged slots are the `size` slots from `read` on, holding `l` in order. -/
structure Represents (q : StandardSpscQueue T capacity) (l : List T) : Prop where
  size_eq : q.size = l.length
  size_le : q.size ≤ capacity
  read_lt : 0 < capacity → q.read < capacity
  write_eq : q.write = (q.read + q.size) % capacity
  slot : ∀ i < capacity, q.slotAt i = l[i]?

theorem Represents.contents_eq {q : StandardSpscQueue T capacity} {l : List T}
    (h : Represents q l) : q.contents = l := by
  have hslots : ∀ n, n ≤ l.length → (List.range n).filterMap q.slotAt = l.take n := by
    intro n hn
    induction n with
    | zero => rfl
    | succ n ih =>
      have hlt : n < l.length := hn
      have hslot : q.slotAt n = some l[n] := by
        rw [h.slot n (by have := h.size_le; have := h.size_eq; omega)]
        exact List.getElem?_eq_getElem hlt
      rw [List.range_succ, List.filterMap_append, ih (by omega),
        List.take_succ_eq_append_getElem hlt]
      simp [hslot]
  unfold contents
  rw [h.size_eq, hslots _ le_rfl, List.take_length]

theorem represents_empty : Represents (empty : StandardSpscQueue T capacity) [] where
  size_eq := rfl
  size_le := Nat.zero_le _
  read_lt := id
  write_eq := by simp [empty]
  slot i _ := by
    simp only [slotAt, empty, List.getElem?_nil]
    cases hslot : (Vector.replicate capacity (none : Option T))[(0 + i) % capacity]? with
    | none => rfl
    | some x =>
      rw [Vector.getElem?_replicate] at hslot
      split at hslot
      · cases hslot; rfl
      · cases hslot

theorem offset_injective (start : Nat) {i j : Nat} (hi : i < capacity) (hj : j < capacity)
    (h : (start + i) % capacity = (start + j) % capacity) : i = j :=
  (Nat.ModEq.add_left_cancel' start h).eq_of_lt_of_lt hi hj

theorem slot_setIfInBounds (slots : Vector (Option T) capacity) (value : Option T)
    {k n : Nat} (hk : k < capacity) :
    (slots.setIfInBounds k value)[n]?.join = if n = k then value else slots[n]?.join := by
  rw [Vector.getElem?_setIfInBounds]
  by_cases hn : k = n
  · subst hn; simp [hk]
  · simp [hn, Ne.symm hn]

theorem Represents.tryPush {q : StandardSpscQueue T capacity} {l : List T} (h : Represents q l)
    (hroom : l.length ≠ capacity) (value : T) :
    ∃ r, q.tryPush value = some r ∧ Represents r (l ++ [value]) := by
  have hsize := h.size_eq
  have hlt : q.size < capacity := by have := h.size_le; omega
  refine ⟨_, if_neg (by omega), ?_⟩
  exact
    { size_eq := by simp [hsize]
      size_le := hlt
      read_lt := h.read_lt
      write_eq := by
        change (q.write + 1) % capacity = (q.read + (q.size + 1)) % capacity
        rw [h.write_eq, Nat.mod_add_mod, Nat.add_assoc]
      slot := by
        intro i hi
        have hwrite : q.write < capacity := by rw [h.write_eq]; exact Nat.mod_lt _ (by omega)
        simp only [slotAt]
        rw [slot_setIfInBounds _ _ hwrite, h.write_eq]
        by_cases heq : i = q.size
        · subst heq; simp [hsize]
        · have hne : (q.read + i) % capacity ≠ (q.read + q.size) % capacity :=
            fun hmod => heq (offset_injective _ hi hlt hmod)
          rw [if_neg hne, ← slotAt, h.slot i hi]
          rw [hsize] at heq
          by_cases hin : i < l.length
          · rw [List.getElem?_append_left hin]
          · rw [List.getElem?_eq_none (by omega), List.getElem?_eq_none (by simp; omega)] }

theorem Represents.tryPush_full {q : StandardSpscQueue T capacity} {l : List T}
    (h : Represents q l) (hfull : l.length = capacity) (value : T) : q.tryPush value = none :=
  if_pos (h.size_eq.trans hfull)

theorem Represents.tryPop_empty {q : StandardSpscQueue T capacity} (h : Represents q []) :
    q.tryPop = (none, q) := if_pos h.size_eq

theorem Represents.tryPop {q : StandardSpscQueue T capacity} {v : T} {l : List T}
    (h : Represents q (v :: l)) : ∃ r, q.tryPop = (some v, r) ∧ Represents r l := by
  have hsize : q.size = l.length + 1 := h.size_eq
  have hcap : 0 < capacity := by have := h.size_le; omega
  have hread : q.slots[q.read]?.join = some v := by
    have hslot := h.slot 0 hcap
    rwa [slotAt, Nat.add_zero, Nat.mod_eq_of_lt (h.read_lt hcap)] at hslot
  refine ⟨_, by rw [StandardSpscQueue.tryPop, if_neg (by omega), hread], ?_⟩
  exact
    { size_eq := by change q.size - 1 = l.length; omega
      size_le := by change q.size - 1 ≤ capacity; have := h.size_le; omega
      read_lt := fun _ => Nat.mod_lt _ hcap
      write_eq := by
        change q.write = ((q.read + 1) % capacity + (q.size - 1)) % capacity
        rw [h.write_eq, Nat.mod_add_mod]
        congr 1; omega
      slot := by
        intro i hi
        simp only [slotAt]
        rw [slot_setIfInBounds _ _ (h.read_lt hcap), Nat.mod_add_mod, Nat.add_assoc]
        by_cases hlast : 1 + i = capacity
        · -- the slot just vacated is the last one of the new view
          have hmod : (q.read + (1 + i)) % capacity = q.read := by
            rw [hlast, Nat.add_mod_right, Nat.mod_eq_of_lt (h.read_lt hcap)]
          rw [if_pos hmod, List.getElem?_eq_none (by have := h.size_le; omega)]
        · have hne : (q.read + (1 + i)) % capacity ≠ q.read := by
            intro hmod
            have hzero : 1 + i = 0 :=
              offset_injective q.read (by omega) hcap
                (by rw [hmod, Nat.add_zero, Nat.mod_eq_of_lt (h.read_lt hcap)])
            omega
          rw [if_neg hne, ← slotAt, h.slot (1 + i) (by omega), Nat.add_comm,
            List.getElem?_cons_succ] }

def WellFormed (q : StandardSpscQueue T capacity) : Prop := Represents q q.contents

theorem Represents.wellFormed {q : StandardSpscQueue T capacity} {l : List T}
    (h : Represents q l) : WellFormed q := by
  unfold WellFormed
  rwa [h.contents_eq]

theorem WellFormed.of_tryPush {q r : StandardSpscQueue T capacity} {v : T} (h : WellFormed q)
    (hpush : q.tryPush v = some r) : Represents r (q.contents ++ [v]) := by
  by_cases hfull : q.contents.length = capacity
  · rw [Represents.tryPush_full h hfull] at hpush
    cases hpush
  · obtain ⟨r', hr', hrep⟩ := Represents.tryPush h hfull v
    rw [hr'] at hpush
    cases hpush
    exact hrep

theorem WellFormed.of_tryPop {q r : StandardSpscQueue T capacity} {v : T} (h : WellFormed q)
    (hpop : q.tryPop = (some v, r)) : ∃ l, q.contents = v :: l ∧ Represents r l := by
  unfold WellFormed at h
  cases hcontents : q.contents with
  | nil =>
    rw [hcontents] at h
    rw [h.tryPop_empty] at hpop
    cases hpop
  | cons w l =>
    rw [hcontents] at h
    obtain ⟨r', hr', hrep⟩ := h.tryPop
    rw [hr'] at hpop
    cases hpop
    exact ⟨l, rfl, hrep⟩

theorem WellFormed.tryPop_none {q r : StandardSpscQueue T capacity} (h : WellFormed q)
    (hpop : q.tryPop = (none, r)) : q.contents = [] := by
  unfold WellFormed at h
  cases hcontents : q.contents with
  | nil => rfl
  | cons w l =>
    rw [hcontents] at h
    obtain ⟨r', hr', -⟩ := h.tryPop
    rw [hr'] at hpop
    cases hpop

/-- The ring buffer, carrying its representation invariant, is a bounded FIFO. -/
def toBoundedFifo (T : Type u) (capacity : Nat) : BoundedFifo T capacity where
  Carrier := { q : StandardSpscQueue T capacity // WellFormed q }
  empty := ⟨empty, represents_empty.wellFormed⟩
  tryPush q v := match h : q.1.tryPush v with
    | none => none
    | some r => some ⟨r, (q.2.of_tryPush h).wellFormed⟩
  tryPop q := match h : q.1.tryPop with
    | (none, _) => none
    | (some v, r) => some (v, ⟨r, by obtain ⟨_, -, hrep⟩ := q.2.of_tryPop h; exact hrep.wellFormed⟩)
  items q := q.1.contents
  items_empty := represents_empty.contents_eq
  items_length_le q := by have hsize := Represents.size_eq q.2; exact hsize ▸ Represents.size_le q.2
  tryPush_items q v := by
    split
    · rename_i h
      by_cases hfull : q.1.contents.length = capacity
      · simp [hfull]
      · obtain ⟨r, hr, -⟩ := Represents.tryPush q.2 hfull v
        rw [hr] at h
        cases h
    · rename_i r h
      have hroom : q.1.contents.length ≠ capacity := by
        intro hfull
        rw [Represents.tryPush_full q.2 hfull] at h
        cases h
      simp [hroom, (q.2.of_tryPush h).contents_eq]
  tryPop_items q := by
    split
    · rename_i r h
      simp [q.2.tryPop_none h]
    · rename_i v r h
      obtain ⟨l, hl, hrep⟩ := q.2.of_tryPop h
      simp [hl, hrep.contents_eq]

section Calls

open BoundedFifo (Call Answer)

def call (q : StandardSpscQueue T capacity) : Call T → Answer T × StandardSpscQueue T capacity
  | .tryPush value =>
    match q.tryPush value with
    | none => (.pushed false (some value), q)
    | some r => (.pushed true none, r)
  | .tryPop => (.popped q.tryPop.1, q.tryPop.2)

theorem Represents.call {q : StandardSpscQueue T capacity} {l : List T} (h : Represents q l)
    (c : Call T) : (q.call c).1 = (BoundedFifo.answer capacity l c).1 ∧
      Represents (q.call c).2 (BoundedFifo.answer capacity l c).2 := by
  cases c with
  | tryPush value =>
    by_cases hfull : l.length = capacity
    · simp only [StandardSpscQueue.call, BoundedFifo.answer, h.tryPush_full hfull value,
        if_pos hfull]
      exact ⟨trivial, h⟩
    · obtain ⟨r, hr, hrep⟩ := h.tryPush hfull value
      simp only [StandardSpscQueue.call, BoundedFifo.answer, hr, if_neg hfull]
      exact ⟨trivial, hrep⟩
  | tryPop =>
    cases l with
    | nil =>
      simp only [StandardSpscQueue.call, h.tryPop_empty]
      exact ⟨rfl, h⟩
    | cons value l =>
      obtain ⟨r, hr, hrep⟩ := h.tryPop
      simp only [StandardSpscQueue.call, hr]
      exact ⟨rfl, hrep⟩

theorem Represents.engaged_iff {q : StandardSpscQueue T capacity} {l : List T}
    (h : Represents q l) {k : Nat} (hk : k < capacity) :
    q.slots[k].isSome ↔ ∃ i < q.size, k = (q.read + i) % capacity := by
  have hread := h.read_lt (Nat.zero_lt_of_lt hk)
  have hoffset : (k + (capacity - q.read)) % capacity < capacity :=
    Nat.mod_lt _ (Nat.zero_lt_of_lt hk)
  have hback : (q.read + (k + (capacity - q.read)) % capacity) % capacity = k := by
    have hsum : q.read + (k + (capacity - q.read)) = k + capacity := by omega
    rw [Nat.add_mod_mod, hsum, Nat.add_mod_right, Nat.mod_eq_of_lt hk]
  have hslot : q.slots[k] = l[(k + (capacity - q.read)) % capacity]? := by
    rw [← h.slot _ hoffset, slotAt, hback, Vector.getElem?_eq_getElem hk]
    rfl
  have hsome : l[(k + (capacity - q.read)) % capacity]?.isSome ↔
      (k + (capacity - q.read)) % capacity < q.size := by
    rw [h.size_eq]
    simp
  rw [hslot, hsome]
  constructor
  · exact fun hlt => ⟨_, hlt, hback.symm⟩
  · rintro ⟨i, hi, heq⟩
    have hsame := offset_injective q.read hoffset (Nat.lt_of_lt_of_le hi h.size_le)
      (hback.trans heq)
    rwa [hsame]

/-- Every sequence of calls from the empty queue is answered like a list of bounded length, and the
ring buffer keeps its shape. -/
theorem refines_bounded_list (calls : List (Call T)) :
    let ring := BoundedFifo.run call (empty : StandardSpscQueue T capacity) calls
    let list := BoundedFifo.run (BoundedFifo.answer capacity) ([] : List T) calls
    ring.1 = list.1 ∧ ring.2.contents = list.2 ∧ ring.2.size ≤ capacity ∧
      ring.2.write = (ring.2.read + ring.2.size) % capacity ∧
      (∀ (k : Nat) (hk : k < capacity),
        ring.2.slots[k].isSome ↔ ∃ i < ring.2.size, k = (ring.2.read + i) % capacity) ∧
      ∀ value, ring.2.size = capacity →
        ring.2.call (.tryPush value) = (.pushed false (some value), ring.2) := by
  intro ring list
  obtain ⟨hanswers, hrep⟩ := BoundedFifo.run_simulates
    (fun _ _ c h => Represents.call h c) (@represents_empty T capacity) calls
  refine ⟨hanswers, hrep.contents_eq, hrep.size_le, hrep.write_eq, fun k hk => hrep.engaged_iff hk,
    fun value hfull => ?_⟩
  have hpush : ring.2.tryPush value = none := if_pos hfull
  simp only [StandardSpscQueue.call, hpush]

end Calls

end StandardSpscQueue

end BengalMarket
