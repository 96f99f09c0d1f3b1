import Mathlib.Algebra.BigOperators.Group.Finset.Basic
import Mathlib.Data.Finset.Interval
import Mathlib.Data.List.GetD
import Mathlib.Order.Lattice.Nat
import Mathlib.Order.Interval.Finset.Nat

universe u

namespace Observations

section Keys

variable {Key : Type u} [BEq Key] [LawfulBEq Key]

/-- The first `limit` distinct keys, in order of first appearance. -/
def firstKeys (limit : Nat) (keys : List Key) : List Key := keys.eraseDups.take limit

theorem eraseDups_concat (keys : List Key) (key : Key) :
    (keys ++ [key]).eraseDups =
      if keys.contains key then keys.eraseDups else keys.eraseDups ++ [key] := by
  rw [List.eraseDups_append]
  by_cases h : key ∈ keys <;> simp [List.removeAll, List.eraseDups_cons, h]

theorem eraseDups_isPrefix (keys later : List Key) :
    keys.eraseDups <+: (keys ++ later).eraseDups := by
  rw [List.eraseDups_append]
  exact List.prefix_append _ _

theorem firstKeys_isPrefix (limit : Nat) (keys later : List Key) :
    firstKeys limit keys <+: firstKeys limit (keys ++ later) :=
  (eraseDups_isPrefix keys later).take limit

omit [LawfulBEq Key] in
theorem length_firstKeys_le (limit : Nat) (keys : List Key) :
    (firstKeys limit keys).length ≤ limit := List.length_take_le _ _

theorem mem_of_mem_firstKeys {limit : Nat} {keys : List Key} {key : Key}
    (h : key ∈ firstKeys limit keys) : key ∈ keys :=
  List.mem_eraseDups.1 (List.mem_of_mem_take h)

theorem firstKeys_concat_of_mem {limit : Nat} {keys : List Key} {key : Key}
    (h : key ∈ firstKeys limit keys) : firstKeys limit (keys ++ [key]) = firstKeys limit keys := by
  rw [firstKeys, eraseDups_concat, if_pos (by simpa using mem_of_mem_firstKeys h), firstKeys]

theorem firstKeys_concat_of_full {limit : Nat} {keys : List Key} (key : Key)
    (h : (firstKeys limit keys).length = limit) :
    firstKeys limit (keys ++ [key]) = firstKeys limit keys :=
  ((firstKeys_isPrefix limit keys [key]).eq_of_length_le
    (by rw [h]; exact length_firstKeys_le _ _)).symm

omit [LawfulBEq Key] in
theorem firstKeys_eq_of_room {limit : Nat} {keys : List Key}
    (hroom : (firstKeys limit keys).length ≠ limit) : firstKeys limit keys = keys.eraseDups := by
  apply List.take_of_length_le
  by_contra hlong
  apply hroom
  rw [firstKeys, List.length_take]
  omega

theorem not_mem_of_not_mem_firstKeys {limit : Nat} {keys : List Key} {key : Key}
    (h : key ∉ firstKeys limit keys) (hroom : (firstKeys limit keys).length ≠ limit) :
    key ∉ keys :=
  fun hmem => h (firstKeys_eq_of_room hroom ▸ List.mem_eraseDups.2 hmem)

theorem firstKeys_concat_of_not_mem {limit : Nat} {keys : List Key} {key : Key}
    (h : key ∉ firstKeys limit keys) (hroom : (firstKeys limit keys).length ≠ limit) :
    firstKeys limit (keys ++ [key]) = firstKeys limit keys ++ [key] := by
  have hle := length_firstKeys_le limit keys
  have hall := firstKeys_eq_of_room hroom
  have hnew := not_mem_of_not_mem_firstKeys h hroom
  rw [hall] at hroom hle
  rw [hall, firstKeys, eraseDups_concat, if_neg (by simpa using hnew)]
  apply List.take_of_length_le
  rw [List.length_append, List.length_singleton]
  omega

theorem nodup_eraseDups (keys : List Key) : keys.eraseDups.Nodup := by
  induction keys using List.reverseRecOn with
  | nil => exact List.nodup_nil
  | append_singleton keys key ih =>
    rw [eraseDups_concat]
    split
    · exact ih
    · rename_i h
      rw [← List.concat_eq_append]
      refine List.Nodup.concat ?_ ih
      simpa [List.mem_eraseDups] using h

theorem nodup_firstKeys (limit : Nat) (keys : List Key) : (firstKeys limit keys).Nodup :=
  (nodup_eraseDups keys).sublist (List.take_sublist _ _)

theorem mem_firstKeys_iff_length_le {limit : Nat} {keys : List Key} :
    (∀ key ∈ keys, key ∈ firstKeys limit keys) ↔ keys.eraseDups.length ≤ limit := by
  constructor
  · intro h
    have hsubset : keys.eraseDups ⊆ firstKeys limit keys := fun key hkey =>
      h key (List.mem_eraseDups.1 hkey)
    exact ((nodup_eraseDups keys).subperm hsubset).length_le.trans (length_firstKeys_le _ _)
  · intro h key hkey
    rw [firstKeys, List.take_of_length_le h]
    exact List.mem_eraseDups.2 hkey

def subsequence {Value : Type} (key : Key) (stream : List (Key × Value)) : List Value :=
  (stream.filter fun entry => entry.1 == key).map Prod.snd

variable {Value : Type}

theorem subsequence_concat_self (key : Key) (stream : List (Key × Value)) (value : Value) :
    subsequence key (stream ++ [(key, value)]) = subsequence key stream ++ [value] := by
  simp [subsequence]

theorem subsequence_concat_of_ne {key other : Key} (h : other ≠ key)
    (stream : List (Key × Value)) (value : Value) :
    subsequence key (stream ++ [(other, value)]) = subsequence key stream := by
  simp [subsequence, h]

theorem subsequence_eq_nil {key : Key} {stream : List (Key × Value)}
    (h : key ∉ stream.map Prod.fst) : subsequence key stream = [] := by
  simp only [subsequence, List.map_eq_nil_iff, List.filter_eq_nil_iff, beq_iff_eq]
  rintro ⟨k, v⟩ hmem rfl
  exact h (List.mem_map_of_mem hmem)

theorem subsequence_filter_ne {key other : Key} (h : other ≠ key) (stream : List (Key × Value)) :
    subsequence other (stream.filter fun entry => !(entry.1 == key)) =
      subsequence other stream := by
  rw [subsequence, subsequence, List.filter_filter]
  apply congrArg (List.map Prod.snd)
  apply List.filter_congr
  rintro ⟨k, v⟩ _
  by_cases hk : k = other
  · simp [hk, h]
  · simp [hk]

theorem sum_length_subsequence_le {keys : List Key} (h : keys.Nodup) (stream : List (Key × Value)) :
    (keys.map fun key => (subsequence key stream).length).sum ≤ stream.length := by
  induction keys generalizing stream with
  | nil => simp
  | cons key keys ih =>
    obtain ⟨hkey, hkeys⟩ := List.nodup_cons.1 h
    have hrest := ih hkeys (stream.filter fun entry => !(entry.1 == key))
    have hsame : keys.map (fun other =>
          (subsequence other (stream.filter fun entry => !(entry.1 == key))).length) =
        keys.map fun other => (subsequence other stream).length :=
      List.map_congr_left fun other hother => by
        have hne : other ≠ key := by
          rintro rfl
          exact hkey hother
        rw [subsequence_filter_ne hne]
    have hsplit := List.length_eq_length_filter_add (l := stream) (fun entry => entry.1 == key)
    rw [hsame] at hrest
    rw [List.map_cons, List.sum_cons, subsequence, List.length_map]
    omega

omit [BEq Key] [LawfulBEq Key] in
theorem sum_map_of_changed {keys : List Key} (hnodup : keys.Nodup) {key : Key}
    (hmem : key ∈ keys) {f g : Key → Nat} (growth : Nat) (hkey : g key = f key + growth)
    (hother : ∀ other ∈ keys, other ≠ key → g other = f other) :
    (keys.map g).sum = (keys.map f).sum + growth := by
  induction keys with
  | nil => cases hmem
  | cons first keys ih =>
    obtain ⟨hfirst, hnodup⟩ := List.nodup_cons.1 hnodup
    simp only [List.map_cons, List.sum_cons]
    rcases List.mem_cons.1 hmem with rfl | hmem
    · have hrest : keys.map g = keys.map f := List.map_congr_left fun other hin =>
        hother other (List.mem_cons_of_mem _ hin) fun heq => hfirst (heq ▸ hin)
      rw [hkey, hrest]
      omega
    · have hne : first ≠ key := fun heq => hfirst (heq ▸ hmem)
      rw [hother first (by simp) hne,
        ih hnodup hmem fun other hin => hother other (List.mem_cons_of_mem _ hin)]
      omega

end Keys

section Maxima

def largest (values : List Nat) : Nat := values.foldl max 0

def IsMaximum (values : List Nat) (value : Nat) : Prop :=
  ∃ before after, values = before ++ value :: after ∧ ∀ earlier ∈ before, earlier < value

open Classical in
/-- How many numbers strictly between the first and the largest value never were a
running maximum. -/
noncomputable def missing (values : List Nat) : Nat :=
  ((Finset.Ioo (values.headD 0) (largest values)).filter fun k => ¬ IsMaximum values k).card

/-- How many observations are neither the first nor a new running maximum: some
earlier observation is at least as large. -/
def late (values : List Nat) : Nat :=
  ((List.range values.length).filter fun i =>
    (values.take i).any fun earlier => values.getD i 0 ≤ earlier).length

@[simp] theorem largest_concat (values : List Nat) (value : Nat) :
    largest (values ++ [value]) = max (largest values) value := by
  simp [largest]

theorem le_largest {values : List Nat} {value : Nat} (h : value ∈ values) :
    value ≤ largest values := by
  induction values using List.reverseRecOn with
  | nil => cases h
  | append_singleton values last ih =>
    rw [largest_concat]
    rcases List.mem_append.1 h with h | h
    · exact (ih h).trans (le_max_left _ _)
    · rw [List.mem_singleton] at h
      exact h ▸ le_max_right _ _

theorem largest_mem {values : List Nat} (h : values ≠ []) : largest values ∈ values := by
  induction values using List.reverseRecOn with
  | nil => exact absurd rfl h
  | append_singleton values last ih =>
    rw [largest_concat]
    by_cases hnil : values = []
    · simp [hnil, largest]
    · rcases max_choice (largest values) last with hmax | hmax
      · rw [hmax]; exact List.mem_append_left _ (ih hnil)
      · rw [hmax]; simp

theorem isMaximum_largest {values : List Nat} (h : values ≠ []) :
    IsMaximum values (largest values) := by
  obtain ⟨before, after, hsplit, hnot⟩ := List.eq_append_cons_of_mem (largest_mem h)
  refine ⟨before, after, hsplit, fun earlier hearlier => ?_⟩
  have hmem : earlier ∈ values := by rw [hsplit]; exact List.mem_append_left _ hearlier
  rcases (le_largest hmem).lt_or_eq with hlt | heq
  · exact hlt
  · exact absurd (heq ▸ hearlier) hnot

theorem IsMaximum.le_largest {values : List Nat} {value : Nat} (h : IsMaximum values value) :
    value ≤ largest values := by
  obtain ⟨before, after, rfl, -⟩ := h
  exact Observations.le_largest (by simp)

theorem isMaximum_concat_iff {values : List Nat} {last value : Nat} :
    IsMaximum (values ++ [last]) value ↔
      IsMaximum values value ∨ value = last ∧ ∀ earlier ∈ values, earlier < last := by
  constructor
  · rintro ⟨before, after, hsplit, hbefore⟩
    rcases List.eq_nil_or_concat after with rfl | ⟨after, final, rfl⟩
    · obtain ⟨rfl, hlast⟩ := List.append_inj' hsplit rfl
      cases hlast
      exact Or.inr ⟨rfl, hbefore⟩
    · rw [List.concat_eq_append, ← List.cons_append, ← List.append_assoc] at hsplit
      obtain ⟨rfl, -⟩ := List.append_inj' hsplit rfl
      exact Or.inl ⟨before, after, rfl, hbefore⟩
  · rintro (⟨before, after, rfl, hbefore⟩ | ⟨rfl, hlast⟩)
    · exact ⟨before, after ++ [last], by simp, hbefore⟩
    · exact ⟨values, [], rfl, hlast⟩

theorem headD_concat {values : List Nat} (h : values ≠ []) (last : Nat) :
    (values ++ [last]).headD 0 = values.headD 0 := by
  cases values with
  | nil => exact absurd rfl h
  | cons first values => rfl

@[simp] theorem missing_singleton (value : Nat) : missing [value] = 0 := by
  simp [missing, largest]

theorem missing_concat_of_le {values : List Nat} (hne : values ≠ []) {last : Nat}
    (h : last ≤ largest values) : missing (values ++ [last]) = missing values := by
  have hmax : ∀ k, IsMaximum (values ++ [last]) k ↔ IsMaximum values k := by
    intro k
    rw [isMaximum_concat_iff]
    refine or_iff_left ?_
    rintro ⟨-, hall⟩
    exact absurd (hall _ (largest_mem hne)) (Nat.not_lt.2 h)
  simp only [missing, headD_concat hne, largest_concat, Nat.max_eq_left h]
  apply congrArg Finset.card
  ext k
  simp only [Finset.mem_filter, hmax]

theorem missing_concat_of_lt {values : List Nat} (hne : values ≠ []) {last : Nat}
    (h : largest values < last) :
    missing (values ++ [last]) = missing values + (last - largest values - 1) := by
  classical
  have hfirst : values.headD 0 ≤ largest values := by
    cases values with
    | nil => exact absurd rfl hne
    | cons first values => exact le_largest (by simp)
  have hsplit : (Finset.Ioo (values.headD 0) last).filter
        (fun k => ¬ IsMaximum (values ++ [last]) k) =
      (Finset.Ioo (values.headD 0) (largest values)).filter (fun k => ¬ IsMaximum values k) ∪
        Finset.Ioo (largest values) last := by
    ext k
    simp only [Finset.mem_filter, Finset.mem_Ioo, Finset.mem_union, isMaximum_concat_iff]
    constructor
    · rintro ⟨⟨hlow, hhigh⟩, hnot⟩
      rw [not_or] at hnot
      rcases Nat.lt_trichotomy k (largest values) with hlt | rfl | hgt
      · exact Or.inl ⟨⟨hlow, hlt⟩, hnot.1⟩
      · exact absurd (isMaximum_largest hne) hnot.1
      · exact Or.inr ⟨hgt, hhigh⟩
    · rintro (⟨⟨hlow, hhigh⟩, hnot⟩ | ⟨hlow, hhigh⟩)
      · refine ⟨⟨hlow, hhigh.trans h⟩, ?_⟩
        rintro (hold | ⟨rfl, -⟩)
        · exact hnot hold
        · omega
      · refine ⟨⟨hfirst.trans_lt hlow, hhigh⟩, ?_⟩
        rintro (hold | ⟨rfl, -⟩)
        · exact absurd hold.le_largest (Nat.not_le.2 hlow)
        · exact absurd hhigh (Nat.lt_irrefl _)
  have hdisjoint : Disjoint
      ((Finset.Ioo (values.headD 0) (largest values)).filter fun k => ¬ IsMaximum values k)
      (Finset.Ioo (largest values) last) := by
    rw [Finset.disjoint_left]
    intro k hk hk'
    simp only [Finset.mem_filter, Finset.mem_Ioo] at hk hk'
    omega
  simp only [missing, headD_concat hne, largest_concat, Nat.max_eq_right h.le]
  rw [hsplit, Finset.card_union_of_disjoint hdisjoint, Nat.card_Ioo]

def jump (values : List Nat) (last : Nat) : Nat :=
  if values = [] then 0 else last - largest values - 1

theorem missing_nil : missing [] = 0 := by simp [missing, largest]

theorem missing_concat (values : List Nat) (last : Nat) :
    missing (values ++ [last]) = missing values + jump values last := by
  by_cases hne : values = []
  · simp [hne, missing_nil, jump]
  · rw [jump, if_neg hne]
    rcases Nat.lt_or_ge (largest values) last with hlt | hle
    · exact missing_concat_of_lt hne hlt
    · rw [missing_concat_of_le hne hle]
      omega

theorem late_le_length (values : List Nat) : late values ≤ values.length := by
  rw [late]
  exact (List.length_filter_le _ _).trans_eq List.length_range

@[simp] theorem late_singleton (value : Nat) : late [value] = 0 := by
  simp [late, List.range_succ]

theorem late_concat (values : List Nat) (last : Nat) :
    late (values ++ [last]) =
      late values + if values.any (fun earlier => last ≤ earlier) then 1 else 0 := by
  have hold : (List.range values.length).filter (fun i =>
        ((values ++ [last]).take i).any fun earlier => (values ++ [last]).getD i 0 ≤ earlier) =
      (List.range values.length).filter fun i =>
        (values.take i).any fun earlier => values.getD i 0 ≤ earlier := by
    apply List.filter_congr
    intro i hi
    rw [List.mem_range] at hi
    rw [List.take_append_of_le_length hi.le, List.getD_append _ _ _ _ hi]
  rw [late, List.length_append, List.length_singleton, List.range_succ, List.filter_append,
    List.length_append, hold, late]
  congr 1
  by_cases hany : values.any (fun earlier => last ≤ earlier) <;> simp [hany]

theorem late_concat_of_le {values : List Nat} (hne : values ≠ []) {last : Nat}
    (h : last ≤ largest values) : late (values ++ [last]) = late values + 1 := by
  rw [late_concat, if_pos]
  rw [List.any_eq_true]
  exact ⟨largest values, largest_mem hne, by simpa using h⟩

theorem late_concat_of_lt {values : List Nat} {last : Nat} (h : largest values < last) :
    late (values ++ [last]) = late values := by
  rw [late_concat, if_neg, Nat.add_zero]
  rw [List.any_eq_true]
  rintro ⟨earlier, hmem, hle⟩
  have := le_largest hmem
  simp only [decide_eq_true_eq] at hle
  omega

end Maxima

end Observations
