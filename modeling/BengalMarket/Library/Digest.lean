import Mathlib.Data.List.Basic

universe u v w

namespace Digest

variable {State : Type u} {Symbol : Type v} {Item : Type w}

def DifferOnce (xs ys : List Symbol) : Prop :=
  xs.length = ys.length ∧ ∃! i : Nat, xs[i]? ≠ ys[i]?

theorem differOnce_cons_iff {x y : Symbol} {xs ys : List Symbol} :
    DifferOnce (x :: xs) (y :: ys) ↔ x ≠ y ∧ xs = ys ∨ x = y ∧ DifferOnce xs ys := by
  unfold DifferOnce
  constructor
  · rintro ⟨hlength, i, hi, hunique⟩
    cases i with
    | zero =>
      refine Or.inl ⟨by simpa using hi, List.ext_getElem? fun j => ?_⟩
      by_contra hj
      have hzero := hunique (j + 1) (by simpa using hj)
      cases hzero
    | succ i =>
      refine Or.inr ⟨?_, by simpa using hlength, i, by simpa using hi, fun j hj => ?_⟩
      · by_contra hne
        have hzero := hunique 0 (by simpa using hne)
        cases hzero
      · have hsucc := hunique (j + 1) (by simpa using hj)
        exact Nat.succ.inj hsucc
  · rintro (⟨hne, rfl⟩ | ⟨rfl, hlength, i, hi, hunique⟩)
    · refine ⟨rfl, 0, by simpa using hne, fun j hj => ?_⟩
      cases j with
      | zero => rfl
      | succ j => simp at hj
    · refine ⟨by simpa using hlength, i + 1, by simpa using hi, fun j hj => ?_⟩
      cases j with
      | zero => simp at hj
      | succ j => exact congrArg (· + 1) (hunique j (by simpa using hj))

theorem differOnce_iff {xs ys : List Symbol} :
    DifferOnce xs ys ↔
      ∃ before x y after, x ≠ y ∧ xs = before ++ x :: after ∧ ys = before ++ y :: after := by
  constructor
  · intro h
    induction xs generalizing ys with
    | nil =>
      obtain ⟨hlength, i, hi, -⟩ := h
      have hnil := List.eq_nil_of_length_eq_zero hlength.symm
      exact absurd (by rw [hnil]) hi
    | cons x xs ih =>
      cases ys with
      | nil => exact absurd h.1 (by simp)
      | cons y ys =>
        rcases differOnce_cons_iff.1 h with ⟨hne, rfl⟩ | ⟨rfl, hrest⟩
        · exact ⟨[], x, y, xs, hne, rfl, rfl⟩
        · obtain ⟨before, x', y', after, hne, rfl, rfl⟩ := ih hrest
          exact ⟨x :: before, x', y', after, hne, rfl, rfl⟩
  · rintro ⟨before, x, y, after, hne, rfl, rfl⟩
    induction before with
    | nil => exact differOnce_cons_iff.2 (Or.inl ⟨hne, rfl⟩)
    | cons first before ih => exact differOnce_cons_iff.2 (Or.inr ⟨rfl, ih⟩)

section Fold

variable {step : State → Symbol → State}

theorem foldl_injective (hstate : ∀ symbol, Function.Injective (step · symbol))
    (symbols : List Symbol) : Function.Injective fun state => symbols.foldl step state := by
  induction symbols with
  | nil => exact Function.injective_id
  | cons symbol symbols ih => exact ih.comp (hstate symbol)

theorem foldl_ne_of_differOnce (hstate : ∀ symbol, Function.Injective (step · symbol))
    (hsymbol : ∀ state, Function.Injective (step state)) {xs ys : List Symbol}
    (h : DifferOnce xs ys) (state : State) : xs.foldl step state ≠ ys.foldl step state := by
  obtain ⟨before, x, y, after, hne, rfl, rfl⟩ := differOnce_iff.1 h
  rw [List.foldl_append, List.foldl_append, List.foldl_cons, List.foldl_cons]
  apply (foldl_injective hstate after).ne
  exact (hsymbol _).ne hne

end Fold

section Blocks

variable {encode : Item → List Symbol}

/-- Blocks without delimiters are told apart by their lengths alone. -/
theorem map_eq_of_flatMap_eq (hblock : ∀ item, encode item ≠ []) {xs ys : List Item}
    (hlengths : ∀ pair ∈ xs.zip ys, (encode pair.1).length = (encode pair.2).length)
    (h : xs.flatMap encode = ys.flatMap encode) : xs.map encode = ys.map encode := by
  induction xs generalizing ys with
  | nil =>
    cases ys with
    | nil => rfl
    | cons y ys => exact absurd h.symm (by simp [hblock y])
  | cons x xs ih =>
    cases ys with
    | nil => exact absurd h (by simp [hblock x])
    | cons y ys =>
      rw [List.flatMap_cons, List.flatMap_cons] at h
      obtain ⟨hfirst, hrest⟩ := List.append_inj h (hlengths (x, y) (by simp))
      rw [List.map_cons, List.map_cons, hfirst,
        ih (fun pair hpair => hlengths pair (by simp [hpair])) hrest]

end Blocks

end Digest
