import Mathlib.Data.List.Basic

/-! Bounded first-in first-out queues.  `BoundedFifo` is the interface of an
implementation together with its laws against a list of at most `capacity`
elements, oldest first. -/

universe u v

structure BoundedFifo (T : Type u) (capacity : Nat) where
  Carrier : Type v
  empty : Carrier
  tryPush : Carrier → T → Option Carrier
  tryPop : Carrier → Option (T × Carrier)
  items : Carrier → List T
  items_empty : items empty = []
  items_length_le : ∀ q, (items q).length ≤ capacity
  tryPush_items : ∀ q v, (tryPush q v).map items =
    if (items q).length = capacity then none else some (items q ++ [v])
  tryPop_items : ∀ q, (tryPop q).map (fun p => p.1 :: items p.2) =
    if items q = [] then none else some (items q)

namespace BoundedFifo

variable {T : Type u} {capacity : Nat}

section Laws

variable (F : BoundedFifo T capacity) {q r : F.Carrier} {v : T}

theorem items_of_tryPush (h : F.tryPush q v = some r) : F.items r = F.items q ++ [v] := by
  have law := F.tryPush_items q v
  rw [h] at law
  split at law <;> simp_all

theorem tryPush_eq_none_iff : F.tryPush q v = none ↔ (F.items q).length = capacity := by
  have law := F.tryPush_items q v
  constructor
  · intro h
    rw [h] at law
    by_contra hne
    simp [hne] at law
  · intro h
    simpa [h] using law

theorem items_of_tryPop (h : F.tryPop q = some (v, r)) : F.items q = v :: F.items r := by
  have law := F.tryPop_items q
  rw [h] at law
  split at law <;> simp_all

theorem tryPop_eq_none_iff : F.tryPop q = none ↔ F.items q = [] := by
  have law := F.tryPop_items q
  constructor
  · intro h
    rw [h] at law
    by_contra hne
    simp [hne] at law
  · intro h
    simpa [h] using law

end Laws

/-- The abstract queue itself: a list that carries its bound. -/
def ofList (T : Type u) (capacity : Nat) : BoundedFifo T capacity where
  Carrier := { l : List T // l.length ≤ capacity }
  empty := ⟨[], Nat.zero_le _⟩
  tryPush q v :=
    if h : q.1.length = capacity then none
    else some ⟨q.1 ++ [v], by have := q.2; simp; omega⟩
  tryPop q := match q with
    | ⟨[], _⟩ => none
    | ⟨v :: l, h⟩ => some (v, ⟨l, by simp at h; omega⟩)
  items := Subtype.val
  items_empty := rfl
  items_length_le := Subtype.property
  tryPush_items q v := by
    by_cases h : q.1.length = capacity <;> simp [h]
  tryPop_items q := by
    match q with
    | ⟨[], _⟩ => simp
    | ⟨v :: l, _⟩ => simp

section Abstraction

variable (F : BoundedFifo T capacity)

/-- The abstract queue with the same elements. -/
def abstracted (q : F.Carrier) : (ofList T capacity).Carrier := ⟨F.items q, F.items_length_le q⟩

theorem abstracted_empty : F.abstracted F.empty = (ofList T capacity).empty :=
  Subtype.ext F.items_empty

theorem map_tryPush (q : F.Carrier) (v : T) :
    (F.tryPush q v).map F.abstracted = (ofList T capacity).tryPush (F.abstracted q) v := by
  cases hpush : F.tryPush q v with
  | none =>
    have hfull : (ofList T capacity).tryPush (F.abstracted q) v = none :=
      dif_pos (F.tryPush_eq_none_iff.1 hpush)
    rw [hfull]
    rfl
  | some r =>
    have hroom : ¬ (F.items q).length = capacity := fun hfull => by
      rw [F.tryPush_eq_none_iff.2 hfull] at hpush
      cases hpush
    refine Eq.trans ?_ (dif_neg hroom).symm
    exact congrArg some (Subtype.ext (F.items_of_tryPush hpush))

theorem map_tryPop (q : F.Carrier) :
    (F.tryPop q).map (Prod.map id F.abstracted) = (ofList T capacity).tryPop (F.abstracted q) := by
  cases hpop : F.tryPop q with
  | none =>
    have habstracted : F.abstracted q = ⟨[], Nat.zero_le _⟩ :=
      Subtype.ext (F.tryPop_eq_none_iff.1 hpop)
    rw [habstracted]
    rfl
  | some popped =>
    obtain ⟨v, r⟩ := popped
    have hitems := F.items_of_tryPop hpop
    have hbound : (v :: F.items r).length ≤ capacity := hitems ▸ F.items_length_le q
    have habstracted : F.abstracted q = ⟨v :: F.items r, hbound⟩ := Subtype.ext hitems
    rw [habstracted]
    rfl

end Abstraction

section Calls

inductive Call (T : Type u) : Type u
  | tryPush (value : T)
  | tryPop

/-- What a caller gets back.  `kept` is the value passed to a push, unless it was moved from. -/
inductive Answer (T : Type u) : Type u
  | pushed (accepted : Bool) (kept : Option T)
  | popped (value : Option T)

def answer (capacity : Nat) (l : List T) : Call T → Answer T × List T
  | .tryPush value =>
    if l.length = capacity then (.pushed false (some value), l)
    else (.pushed true none, l ++ [value])
  | .tryPop => (.popped l.head?, l.tail)

variable {S : Type v} {R : Type u}

def run (call : S → Call T → Answer T × S) (s : S) : List (Call T) → List (Answer T) × S
  | [] => ([], s)
  | c :: calls =>
    let rest := run call (call s c).2 calls
    ((call s c).1 :: rest.1, rest.2)

theorem run_simulates {call : S → Call T → Answer T × S} {abstract : R → Call T → Answer T × R}
    {related : S → R → Prop}
    (hcall : ∀ s r c, related s r →
      (call s c).1 = (abstract r c).1 ∧ related (call s c).2 (abstract r c).2)
    {s : S} {r : R} (h : related s r) (calls : List (Call T)) :
    (run call s calls).1 = (run abstract r calls).1 ∧
      related (run call s calls).2 (run abstract r calls).2 := by
  induction calls generalizing s r with
  | nil => exact ⟨rfl, h⟩
  | cons c calls ih =>
    obtain ⟨hanswer, hrelated⟩ := hcall s r c h
    obtain ⟨hanswers, hfinal⟩ := ih hrelated
    exact ⟨congrArg₂ List.cons hanswer hanswers, hfinal⟩

end Calls

end BoundedFifo
