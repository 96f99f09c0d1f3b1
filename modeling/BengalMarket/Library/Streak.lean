import Mathlib.Data.List.Induction
import Mathlib.Tactic.TypeStar

namespace Streak

variable {α : Type*} (resets counts : α → Bool)

def tally (count : Nat) (event : α) : Nat :=
  if resets event then 0 else if counts event then count + 1 else count

def Reaches (limit count : Nat) (events : List α) : Prop :=
  ∃ seen rest, events = seen ++ rest ∧ limit ≤ seen.foldl (tally resets counts) count

variable {resets counts} {limit count : Nat}

theorem reaches_cons {event : α} {events : List α} :
    Reaches resets counts limit count (event :: events) ↔
      limit ≤ count ∨ Reaches resets counts limit (tally resets counts count event) events := by
  constructor
  · rintro ⟨seen, rest, hsplit, hlimit⟩
    cases seen with
    | nil => exact Or.inl hlimit
    | cons first seen =>
      obtain ⟨rfl, hrest⟩ := List.cons.inj hsplit
      exact Or.inr ⟨seen, rest, hrest, hlimit⟩
  · rintro (hlimit | ⟨seen, rest, rfl, hlimit⟩)
    · exact ⟨[], event :: events, rfl, hlimit⟩
    · exact ⟨event :: seen, rest, rfl, hlimit⟩

theorem reaches_append_of_resets {front events : List α} (h : ∀ event ∈ front, resets event = true)
    (hbelow : count < limit) :
    Reaches resets counts limit count (front ++ events) ↔
      Reaches resets counts limit (if front = [] then count else 0) events := by
  induction front generalizing count with
  | nil => rfl
  | cons event front ih =>
    have hevent : resets event = true := h event List.mem_cons_self
    have htally : tally resets counts count event = 0 := by rw [tally, hevent]; rfl
    rw [List.cons_append, reaches_cons, htally, or_iff_right (Nat.not_le.2 hbelow),
      ih (fun e he => h e (List.mem_cons_of_mem _ he)) (by omega), if_neg (List.cons_ne_nil _ _),
      ite_self]

end Streak
