import Mathlib.Algebra.Group.Nat.Defs
import Mathlib.Data.List.Basic
import Mathlib.Order.Bounds.Defs

universe u

namespace OrderStatistics

variable {α : Type u} [LE α] [DecidableLE α]

def countAtMost (l : List α) (v : α) : Nat := l.countP fun entry => entry ≤ v

def sort (l : List α) : List α := l.mergeSort fun a b => a ≤ b

/-- `v` has rank `k` in the list, counted from zero. -/
structure HasRank (l : List α) (k : Nat) (v : α) : Prop where
  mem : v ∈ l
  le_iff : ∀ w, v ≤ w ↔ k < countAtMost l w

section Counting

variable {l m : List α} {v w : α}

@[simp] theorem countAtMost_cons (entry : α) :
    countAtMost (entry :: l) v = countAtMost l v + if entry ≤ v then 1 else 0 := by
  simp [countAtMost, List.countP_cons]

theorem countAtMost_le_length (l : List α) (v : α) : countAtMost l v ≤ l.length :=
  List.countP_le_length

theorem countAtMost_eq_zero (h : ∀ entry ∈ l, ¬ entry ≤ v) : countAtMost l v = 0 :=
  List.countP_eq_zero.2 fun entry hentry => by simpa using h entry hentry

theorem countAtMost_perm (h : l.Perm m) (v : α) : countAtMost l v = countAtMost m v :=
  h.countP_eq _

end Counting

section Sorting

variable {l m : List α}

theorem perm_sort (l : List α) : (sort l).Perm l := List.mergeSort_perm l _

@[simp] theorem length_sort (l : List α) : (sort l).length = l.length := (perm_sort l).length_eq

variable [Std.IsLinearOrder α]

theorem pairwise_sort (l : List α) : (sort l).Pairwise (· ≤ ·) := by
  have hsorted := @List.pairwise_mergeSort α (fun a b => decide (a ≤ b))
    (fun a b c hab hbc => decide_eq_true
      (Std.le_trans (of_decide_eq_true hab) (of_decide_eq_true hbc)))
    (fun a b => by simpa using Std.le_total (a := a) (b := b)) l
  exact hsorted.imp fun h => of_decide_eq_true h

theorem sort_eq_of_perm (h : l.Perm m) : sort l = sort m := by
  have hperm : (sort l).Perm (sort m) := (perm_sort l).trans (h.trans (perm_sort m).symm)
  exact hperm.eq_of_pairwise (fun a b _ _ hab hba => Std.le_antisymm hab hba)
    (pairwise_sort l) (pairwise_sort m)

theorem getElem_le_iff {w : α} (h : l.Pairwise (· ≤ ·)) {k : Nat} (hk : k < l.length) :
    l[k] ≤ w ↔ k < countAtMost l w := by
  induction l generalizing k with
  | nil => exact absurd hk (Nat.not_lt_zero k)
  | cons entry rest ih =>
    obtain ⟨hfirst, hrest⟩ := List.pairwise_cons.1 h
    rw [countAtMost_cons]
    by_cases hentry : entry ≤ w
    · rw [if_pos hentry]
      cases k with
      | zero => simpa using hentry
      | succ k =>
        rw [List.getElem_cons_succ, ih hrest (Nat.lt_of_succ_lt_succ hk)]
        exact Nat.succ_lt_succ_iff.symm
    · -- no entry is at most `w`, the first one being the least
      have hnone : ∀ later ∈ entry :: rest, ¬ later ≤ w := by
        intro later hlater hle
        rcases List.mem_cons.1 hlater with rfl | hlater
        · exact hentry hle
        · exact hentry (Std.le_trans (hfirst later hlater) hle)
      rw [if_neg hentry, countAtMost_eq_zero fun later hlater => hnone later (.tail _ hlater)]
      have hkth : ¬ (entry :: rest)[k] ≤ w := hnone _ (List.getElem_mem hk)
      exact iff_of_false hkth (Nat.not_lt_zero k)

theorem hasRank_sort {k : Nat} (hk : k < (sort l).length) : HasRank l k (sort l)[k] where
  mem := (perm_sort l).mem_iff.1 (List.getElem_mem hk)
  le_iff w := by
    rw [getElem_le_iff (pairwise_sort l) hk, countAtMost_perm (perm_sort l)]

end Sorting

namespace HasRank

variable [Std.IsLinearOrder α] {l : List α} {j k : Nat} {v w : α}

theorem mono (hv : HasRank l j v) (hw : HasRank l k w) (h : j ≤ k) : v ≤ w :=
  (hv.le_iff w).2 (Nat.lt_of_le_of_lt h ((hw.le_iff w).1 (Std.le_refl w)))

theorem isLeast (h : HasRank l k v) : IsLeast {w | w ∈ l ∧ k < countAtMost l w} v :=
  ⟨⟨h.mem, (h.le_iff v).1 (Std.le_refl v)⟩, fun w hw => (h.le_iff w).2 hw.2⟩

theorem isLeast_first (h : HasRank l 0 v) : IsLeast {w | w ∈ l} v := by
  refine ⟨h.mem, fun w hw => (h.le_iff w).2 ?_⟩
  exact List.countP_pos_iff.2 ⟨w, hw, decide_eq_true (Std.le_refl w)⟩

theorem isGreatest_last (h : HasRank l (l.length - 1) v) : IsGreatest {w | w ∈ l} v := by
  refine ⟨h.mem, fun w hw => ?_⟩
  have hpos : 0 < l.length := List.length_pos_of_mem hw
  have hall : countAtMost l v = l.length := by
    apply Nat.le_antisymm (countAtMost_le_length l v)
    exact Nat.le_of_pred_lt ((h.le_iff v).1 (Std.le_refl v))
  exact of_decide_eq_true (List.countP_eq_length.1 hall w hw)

end HasRank

section Percentiles

def rankOf (length percentile : Nat) : Nat := (length * percentile + 99) / 100 - 1

theorem rankOf_lt_iff {length percentile count : Nat} (hlength : 1 ≤ length)
    (hlow : 1 ≤ percentile) : rankOf length percentile < count ↔
      percentile * length ≤ 100 * count := by
  have hpos : 1 ≤ length * percentile := Nat.mul_pos hlength hlow
  rw [rankOf, Nat.mul_comm percentile]
  omega

theorem rankOf_lt {length percentile : Nat} (hlength : 1 ≤ length) (hlow : 1 ≤ percentile)
    (hhigh : percentile ≤ 100) : rankOf length percentile < length :=
  (rankOf_lt_iff hlength hlow).2 (Nat.mul_le_mul_right length hhigh)

theorem rankOf_mono (length : Nat) {p q : Nat} (h : p ≤ q) : rankOf length p ≤ rankOf length q := by
  have hmul : length * p ≤ length * q := Nat.mul_le_mul_left length h
  unfold rankOf
  omega

/-- The rank as 64-bit arithmetic computes it: no step wraps. -/
theorem toNat_rank {length : Nat} {percentile : UInt64} (hlength : length < 2 ^ 57)
    (hpos : 1 ≤ length) (hlow : 1 ≤ percentile.toNat) (hhigh : percentile.toNat ≤ 100) :
    ((UInt64.ofNat length * percentile + 99) / 100).toNat =
      rankOf length percentile.toNat + 1 := by
  have hproduct : length * percentile.toNat ≤ length * 100 := Nat.mul_le_mul_left length hhigh
  have hone : 1 ≤ length * percentile.toNat := Nat.mul_pos hpos hlow
  rw [UInt64.toNat_div, UInt64.toNat_add, UInt64.toNat_mul,
    UInt64.toNat_ofNat_of_lt' (Nat.lt_trans hlength (by decide))]
  change (length * percentile.toNat % 2 ^ 64 + 99) % 2 ^ 64 / 100 = _
  rw [Nat.mod_eq_of_lt (by omega), Nat.mod_eq_of_lt (by omega), rankOf]
  omega

/-- `v` is the least value of the list that so many percent of its entries are at most. -/
def IsPercentile (l : List α) (percentile : Nat) (v : α) : Prop :=
  IsLeast {w | w ∈ l ∧ percentile * l.length ≤ 100 * countAtMost l w} v

theorem HasRank.isPercentile [Std.IsLinearOrder α] {l : List α} {percentile : Nat} {v : α}
    (hne : l ≠ []) (hlow : 1 ≤ percentile) (h : HasRank l (rankOf l.length percentile) v) :
    IsPercentile l percentile v := by
  have hset : {w | w ∈ l ∧ percentile * l.length ≤ 100 * countAtMost l w} =
      {w | w ∈ l ∧ rankOf l.length percentile < countAtMost l w} := by
    simp only [rankOf_lt_iff (List.length_pos_iff.2 hne) hlow]
  rw [IsPercentile, hset]
  exact h.isLeast

end Percentiles

end OrderStatistics
