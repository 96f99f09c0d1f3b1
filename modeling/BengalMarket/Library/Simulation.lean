import BengalMarket.Library.Transition

universe u v w x

namespace Transition

section Maps

variable {S : Type u} {T : Type v} {L : Type w} {step : S → L → Option S}
  {step' : T → L → Option T} {f : S → T}

theorem run_map (h : ∀ s a, (step s a).map f = step' (f s) a) (s : S) (as : List L) :
    (run step s as).map f = run step' (f s) as := by
  induction as generalizing s with
  | nil => rfl
  | cons a as ih =>
    rw [run_cons, run_cons, ← h, Option.map_bind, Option.bind_map]
    exact Option.bind_congr fun t _ => ih t

end Maps

section Refinement

variable {S : Type u} {T : Type v} {L : Type w} {M : Type x}

/-- A step of the first system is silent, or a step of the second one. -/
structure Refines (step : S → L → Option S) (abstract : T → M → Option T)
    (visible : L → Option M) (related : S → T → Prop) : Prop where
  silent : ∀ {s s' : S} {t : T} {a : L}, related s t → step s a = some s' → visible a = none →
    related s' t
  follows : ∀ {s s' : S} {t : T} {a : L} {b : M}, related s t → step s a = some s' →
    visible a = some b → ∃ t', abstract t b = some t' ∧ related s' t'

/-- A step of the second system can be taken by the first one, after silent steps. -/
structure Lifts (step : S → L → Option S) (abstract : T → M → Option T)
    (visible : L → Option M) (related : S → T → Prop) : Prop where
  lift : ∀ {s : S} {t t' : T} {b : M}, related s t → abstract t b = some t' →
    ∃ as s', as.filterMap visible = [b] ∧ run step s as = some s' ∧ related s' t'

variable {step : S → L → Option S} {abstract : T → M → Option T} {visible : L → Option M}
  {related : S → T → Prop}

theorem Refines.run (h : Refines step abstract visible related) {s s' : S} {t : T} {as : List L}
    (hst : related s t) (hrun : Transition.run step s as = some s') :
    ∃ t', Transition.run abstract t (as.filterMap visible) = some t' ∧ related s' t' := by
  induction as generalizing s t with
  | nil =>
    cases hrun
    exact ⟨t, rfl, hst⟩
  | cons a as ih =>
    obtain ⟨m, hm, hrest⟩ := run_cons_eq_some hrun
    cases hvisible : visible a with
    | none =>
      rw [List.filterMap_cons_none hvisible]
      exact ih (h.silent hst hm hvisible) hrest
    | some b =>
      obtain ⟨r, hr, hrelated⟩ := h.follows hst hm hvisible
      obtain ⟨t', ht', hfinal⟩ := ih hrelated hrest
      rw [List.filterMap_cons_some hvisible, run_cons, hr]
      exact ⟨t', ht', hfinal⟩

theorem Lifts.run (h : Lifts step abstract visible related) {s : S} {t t' : T} {bs : List M}
    (hst : related s t) (hrun : Transition.run abstract t bs = some t') :
    ∃ as s', as.filterMap visible = bs ∧ Transition.run step s as = some s' ∧ related s' t' := by
  induction bs generalizing s t with
  | nil =>
    cases hrun
    exact ⟨[], s, rfl, rfl, hst⟩
  | cons b bs ih =>
    obtain ⟨r, hr, hrest⟩ := run_cons_eq_some hrun
    obtain ⟨first, m, hfirst, hm, hrelated⟩ := h.lift hst hr
    obtain ⟨later, s', hlater, hs', hfinal⟩ := ih hrelated hrest
    refine ⟨first ++ later, s', ?_, ?_, hfinal⟩
    · rw [List.filterMap_append, hfirst, hlater]
      rfl
    · rw [run_append, hm]
      exact hs'

end Refinement

section Termination

variable {S : Type u} {L : Type v} {step : S → L → Option S} {I : S → Prop} {measure : S → Nat}

/-- A run cannot be longer than a measure that every step lowers. -/
theorem length_add_measure_le
    (lowers : ∀ {s a t}, I s → step s a = some t → I t ∧ measure t < measure s)
    {s t : S} {as : List L} (hs : I s) (hrun : run step s as = some t) :
    as.length + measure t ≤ measure s := by
  induction as generalizing s with
  | nil =>
    cases hrun
    simp
  | cons a as ih =>
    obtain ⟨m, hm, hrest⟩ := run_cons_eq_some hrun
    obtain ⟨hkept, hlower⟩ := lowers hs hm
    have hlater := ih hkept hrest
    rw [List.length_cons]
    omega

theorem exists_run_of_progress {Over : S → Prop}
    (progress : ∀ {s}, I s → ¬ Over s → ∃ a t, step s a = some t ∧ I t ∧ measure t < measure s)
    {s : S} (hs : I s) : ∃ as t, run step s as = some t ∧ I t ∧ Over t := by
  induction h : measure s using Nat.strongRecOn generalizing s with
  | ind n ih =>
    by_cases hover : Over s
    · exact ⟨[], s, rfl, hs, hover⟩
    · obtain ⟨a, m, hm, hkept, hlower⟩ := progress hs hover
      obtain ⟨as, t, hrun, hfinal⟩ := ih (measure m) (h ▸ hlower) hkept rfl
      exact ⟨a :: as, t, by rw [run_cons, hm]; exact hrun, hfinal⟩

end Termination

end Transition
