import Mathlib.Data.List.Basic

namespace Template

variable {α : Type}

theorem append_cons_inj {separator : α} {a b x y : List α} (ha : separator ∉ a)
    (hb : separator ∉ b) (h : a ++ separator :: x = b ++ separator :: y) : a = b ∧ x = y := by
  induction a generalizing b with
  | nil =>
    cases b with
    | nil => exact ⟨rfl, (List.cons.inj h).2⟩
    | cons c b => exact absurd (List.cons.inj h).1 (List.ne_of_not_mem_cons hb)
  | cons c a ih =>
    cases b with
    | nil => exact absurd (List.cons.inj h).1.symm (List.ne_of_not_mem_cons ha)
    | cons d b =>
      obtain ⟨rfl, hrest⟩ := List.cons.inj h
      obtain ⟨rfl, hxy⟩ := ih (List.not_mem_of_not_mem_cons ha) (List.not_mem_of_not_mem_cons hb)
        hrest
      exact ⟨rfl, hxy⟩

def fill : List (List α) → List (List α) → List α
  | value :: values, fixed :: template => value ++ (fixed ++ fill values template)
  | _, _ => []

def Separates (inside : α → Bool) (template : List (List α)) : Prop :=
  ∀ fixed ∈ template, fixed.head?.any (fun c => !inside c) = true

instance (inside : α → Bool) (template : List (List α)) : Decidable (Separates inside template) :=
  inferInstanceAs (Decidable (∀ fixed ∈ template, _ = true))

theorem fill_append_inj {inside : α → Bool} {template values values' : List (List α)}
    {x y : List α} (htemplate : Separates inside template)
    (hvalues : ∀ value ∈ values, ∀ a ∈ value, inside a = true)
    (hvalues' : ∀ value ∈ values', ∀ a ∈ value, inside a = true)
    (hlength : values.length = template.length) (hlength' : values'.length = template.length)
    (h : fill values template ++ x = fill values' template ++ y) : values = values' ∧ x = y := by
  induction template generalizing values values' with
  | nil =>
    obtain rfl := List.eq_nil_of_length_eq_zero hlength
    obtain rfl := List.eq_nil_of_length_eq_zero hlength'
    exact ⟨rfl, h⟩
  | cons fixed template ih =>
    obtain ⟨value, values, rfl⟩ := List.exists_cons_of_length_eq_add_one hlength
    obtain ⟨value', values', rfl⟩ := List.exists_cons_of_length_eq_add_one hlength'
    rw [List.forall_mem_cons] at hvalues hvalues'
    obtain ⟨hfixed, hrest⟩ := List.forall_mem_cons.1 htemplate
    obtain ⟨c, hhead, hc⟩ := (Option.any_eq_true ..).1 hfixed
    obtain ⟨rest, rfl⟩ := List.head?_eq_some_iff.1 hhead
    have hout : ¬ inside c = true := by simpa using hc
    simp only [fill, List.append_assoc, List.cons_append] at h
    obtain ⟨rfl, htail⟩ := append_cons_inj (mt (hvalues.1 c) hout) (mt (hvalues'.1 c) hout) h
    obtain ⟨rfl, hxy⟩ := ih hrest hvalues.2 hvalues'.2 (Nat.succ.inj hlength)
      (Nat.succ.inj hlength') (List.append_cancel_left htail)
    exact ⟨rfl, hxy⟩

end Template
