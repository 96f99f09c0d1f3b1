import Mathlib.Data.Option.Basic

/-! Deterministic labelled transition systems: a step function that may refuse a
label, and runs as lists of labels.  An interleaving of several parties is one
list of their labels, so a law of every run is a law of every interleaving. -/

universe u v

namespace Transition

variable {State : Type u} {Label : Type v} (step : State → Label → Option State)

def run : State → List Label → Option State
  | s, [] => some s
  | s, a :: as => (step s a).bind fun t => run t as

@[simp] theorem run_nil (s : State) : run step s [] = some s := rfl

@[simp] theorem run_cons (s : State) (a : Label) (as : List Label) :
    run step s (a :: as) = (step s a).bind fun t => run step t as := rfl

theorem run_append (s : State) (as bs : List Label) :
    run step s (as ++ bs) = (run step s as).bind fun t => run step t bs := by
  induction as generalizing s with
  | nil => rfl
  | cons a as ih =>
    simp only [List.cons_append, run_cons, Option.bind_assoc]
    exact Option.bind_congr fun t _ => ih t

def Throughout (ok : State → Label → Prop) : State → List Label → Prop
  | _, [] => True
  | s, a :: as => ok s a ∧ ∀ t, step s a = some t → Throughout ok t as

variable {step}

theorem run_cons_eq_some {s t : State} {a : Label} {as : List Label}
    (h : run step s (a :: as) = some t) : ∃ m, step s a = some m ∧ run step m as = some t := by
  simpa only [run_cons, Option.bind_eq_some_iff] using h

theorem run_invariant {I : State → Prop}
    (keep : ∀ {s a t}, I s → step s a = some t → I t) {s t : State} {as : List Label}
    (hs : I s) (h : run step s as = some t) : I t := by
  induction as generalizing s with
  | nil => cases h; exact hs
  | cons a as ih =>
    obtain ⟨m, hm, ht⟩ := run_cons_eq_some h
    exact ih (keep hs hm) ht

/-- A step that needs `ok` keeps its invariant along the runs that meet `ok` throughout. -/
theorem run_invariant_of_throughout {I : State → Prop} {ok : State → Label → Prop}
    (keep : ∀ {s a t}, I s → ok s a → step s a = some t → I t) {s t : State} {as : List Label}
    (hs : I s) (hok : Throughout step ok s as) (h : run step s as = some t) : I t := by
  induction as generalizing s with
  | nil => cases h; exact hs
  | cons a as ih =>
    obtain ⟨m, hm, ht⟩ := run_cons_eq_some h
    exact ih (keep hs hok.1 hm) (hok.2 m hm) ht

instance decidableThroughout {ok : State → Label → Prop} [∀ s a, Decidable (ok s a)] :
    ∀ s as, Decidable (Throughout step ok s as)
  | _, [] => isTrue trivial
  | s, a :: as =>
    match h : step s a with
    | none => decidable_of_iff (ok s a) (by simp [Throughout, h])
    | some t =>
      have : Decidable (Throughout step ok t as) := decidableThroughout t as
      decidable_of_iff (ok s a ∧ Throughout step ok t as) (by simp [Throughout, h])

end Transition
