import Mathlib.Data.List.Basic
import Mathlib.Algebra.Group.Int.Defs
import Mathlib.Algebra.Group.Nat.Defs

/-! Machine arithmetic that reports where its result is not the exact one, and reads that
report where there is nothing to read. -/

namespace Checked

inductive Fault
  | wraps
  | outOfBounds
  deriving DecidableEq

class Exact (α : Type) where
  value : α → Int

instance : Exact UInt32 := ⟨fun a => a.toNat⟩

instance : Exact UInt64 := ⟨fun a => a.toNat⟩

instance : Exact Int32 := ⟨Int32.toInt⟩

instance : Exact Int64 := ⟨Int64.toInt⟩

variable {α β : Type} [Exact α] [Exact β]

open Exact

def exactly (result : α) (expected : Int) : Except Fault α :=
  if value result = expected then .ok result else .error .wraps

def add [Add α] (a b : α) : Except Fault α := exactly (a + b) (value a + value b)

def sub [Sub α] (a b : α) : Except Fault α := exactly (a - b) (value a - value b)

def mul [Mul α] (a b : α) : Except Fault α := exactly (a * b) (value a * value b)

def neg [Neg α] (a : α) : Except Fault α := exactly (-a) (-value a)

/-- Division truncates; a division by zero is reported too. -/
def div [Div α] (a b : α) : Except Fault α :=
  if value b = 0 then .error .wraps else exactly (a / b) ((value a).tdiv (value b))

def convert (f : α → β) (a : α) : Except Fault β := exactly (f a) (value a)

def read {γ : Type} (values : List γ) (index : Nat) : Except Fault γ :=
  match values[index]? with
  | some found => .ok found
  | none => .error .outOfBounds

theorem exactly_eq {result : α} {expected : Int} (h : value result = expected) :
    exactly result expected = .ok result := if_pos h

theorem read_eq {γ : Type} {values : List γ} {index : Nat} {found : γ}
    (h : values[index]? = some found) : read values index = .ok found := by rw [read, h]

theorem ok_bind {α β : Type} (a : α) (f : α → Except Fault β) :
    (Except.ok a >>= f) = f a := rfl

theorem ite_eq_ok {α : Type} {c : Prop} [Decidable c] {a b : α} {x : Except Fault α}
    (h : ¬ c → x = .ok b) : (if c then .ok a else x) = .ok (if c then a else b) := by
  by_cases hc : c
  · rw [if_pos hc, if_pos hc]
  · rw [if_neg hc, if_neg hc, h hc]

/-- Operations that are exact where the exact result can be represented. -/
class Machine (α : Type) [Add α] [Sub α] [Mul α] [Div α] extends Exact α where
  least : Int
  greatest : Int
  least_le : least ≤ 0
  le_greatest : 2 ^ 31 - 1 ≤ greatest
  value_add (a b : α) : least ≤ value a + value b → value a + value b ≤ greatest →
    value (a + b) = value a + value b
  value_sub (a b : α) : least ≤ value a - value b → value a - value b ≤ greatest →
    value (a - b) = value a - value b
  value_mul (a b : α) : least ≤ value a * value b → value a * value b ≤ greatest →
    value (a * b) = value a * value b
  value_div (a b : α) : 0 ≤ value a → 0 < value b → value (a / b) = value a / value b

section Machine

variable {μ : Type} [Add μ] [Sub μ] [Mul μ] [Div μ] [Machine μ]

open Machine

theorem add_spec {a b : μ} (hlow : least μ ≤ value a + value b)
    (hhigh : value a + value b ≤ greatest μ) :
    add a b = .ok (a + b) ∧ value (a + b) = value a + value b :=
  have hvalue := value_add a b hlow hhigh
  ⟨exactly_eq hvalue, hvalue⟩

theorem sub_spec {a b : μ} (hlow : least μ ≤ value a - value b)
    (hhigh : value a - value b ≤ greatest μ) :
    sub a b = .ok (a - b) ∧ value (a - b) = value a - value b :=
  have hvalue := value_sub a b hlow hhigh
  ⟨exactly_eq hvalue, hvalue⟩

theorem mul_spec {a b : μ} (hlow : least μ ≤ value a * value b)
    (hhigh : value a * value b ≤ greatest μ) :
    mul a b = .ok (a * b) ∧ value (a * b) = value a * value b :=
  have hvalue := value_mul a b hlow hhigh
  ⟨exactly_eq hvalue, hvalue⟩

theorem div_spec {a b : μ} (ha : 0 ≤ value a) (hb : 0 < value b) :
    div a b = .ok (a / b) ∧ value (a / b) = value a / value b := by
  have hvalue := value_div a b ha hb
  refine ⟨?_, hvalue⟩
  rw [div, if_neg (Int.ne_of_gt hb)]
  apply exactly_eq
  rw [hvalue, Int.tdiv_eq_ediv_of_nonneg ha]

/-- The natural number that a machine integer stands for. -/
def Denotes (a : μ) (n : Nat) : Prop := value a = n

variable {a b : μ} {m n : Nat}

theorem add_nat (ha : Denotes a m) (hb : Denotes b n) (h : (m + n : Int) ≤ greatest μ) :
    add a b = .ok (a + b) ∧ Denotes (a + b) (m + n) := by
  have hsum : value a + value b = (m + n : Int) := congrArg₂ (· + ·) ha hb
  have hleast := least_le (α := μ)
  obtain ⟨hok, hvalue⟩ := @add_spec μ _ _ _ _ _ a b (by omega) (by omega)
  exact ⟨hok, hvalue.trans (hsum.trans (Int.natCast_add m n).symm)⟩

theorem sub_nat (ha : Denotes a m) (hb : Denotes b n) (hle : n ≤ m)
    (h : (m : Int) ≤ greatest μ) : sub a b = .ok (a - b) ∧ Denotes (a - b) (m - n) := by
  have hdifference : value a - value b = (m - n : Int) := congrArg₂ (· - ·) ha hb
  have hleast := least_le (α := μ)
  obtain ⟨hok, hvalue⟩ := @sub_spec μ _ _ _ _ _ a b (by omega) (by omega)
  exact ⟨hok, hvalue.trans (hdifference.trans (Int.ofNat_sub hle).symm)⟩

theorem mul_nat (ha : Denotes a m) (hb : Denotes b n) (h : (m * n : Int) ≤ greatest μ) :
    mul a b = .ok (a * b) ∧ Denotes (a * b) (m * n) := by
  have hproduct : value a * value b = (m * n : Int) := congrArg₂ (· * ·) ha hb
  have hleast := least_le (α := μ)
  have hnonneg : 0 ≤ (m * n : Int) := Int.mul_nonneg (Int.natCast_nonneg m) (Int.natCast_nonneg n)
  obtain ⟨hok, hvalue⟩ := @mul_spec μ _ _ _ _ _ a b (by omega) (by omega)
  exact ⟨hok, hvalue.trans (hproduct.trans (Int.natCast_mul m n).symm)⟩

theorem div_nat (ha : Denotes a m) (hb : Denotes b n) (hpos : 0 < n) :
    div a b = .ok (a / b) ∧ Denotes (a / b) (m / n) := by
  have hquotient : value a / value b = (m / n : Int) := congrArg₂ (· / ·) ha hb
  have hnonneg : 0 ≤ value a := ha.symm ▸ Int.natCast_nonneg m
  have hpositive : 0 < value b := hb.symm ▸ Int.natCast_pos.2 hpos
  obtain ⟨hok, hvalue⟩ := div_spec hnonneg hpositive
  exact ⟨hok, hvalue.trans (hquotient.trans (Int.natCast_ediv m n).symm)⟩

theorem add_small (ha : Denotes a m) (hb : Denotes b n) (h : m + n < 2 ^ 31) :
    add a b = .ok (a + b) ∧ Denotes (a + b) (m + n) := by
  have hgreatest := le_greatest (α := μ)
  exact add_nat ha hb (by omega)

theorem sub_small (ha : Denotes a m) (hb : Denotes b n) (hle : n ≤ m) (h : m < 2 ^ 31) :
    sub a b = .ok (a - b) ∧ Denotes (a - b) (m - n) := by
  have hgreatest := le_greatest (α := μ)
  exact sub_nat ha hb hle (by omega)

theorem mul_small (ha : Denotes a m) (hb : Denotes b n) (h : m * n < 2 ^ 31) :
    mul a b = .ok (a * b) ∧ Denotes (a * b) (m * n) := by
  have hgreatest := le_greatest (α := μ)
  have hproduct := Int.natCast_mul m n
  exact mul_nat ha hb (by omega)

end Machine

section Instances

instance : Machine UInt32 where
  least := 0
  greatest := 2 ^ 32 - 1
  least_le := by decide
  le_greatest := by decide
  value_add a b hlow hhigh := by
    change ((a + b).toNat : Int) = a.toNat + b.toNat
    change (a.toNat : Int) + b.toNat ≤ _ at hhigh
    rw [UInt32.toNat_add]
    omega
  value_sub a b hlow hhigh := by
    change ((a - b).toNat : Int) = a.toNat - b.toNat
    change 0 ≤ (a.toNat : Int) - b.toNat at hlow
    have hle : b ≤ a := UInt32.le_iff_toNat_le.2 (by omega)
    rw [UInt32.toNat_sub_of_le _ _ hle]
    omega
  value_mul a b hlow hhigh := by
    change ((a * b).toNat : Int) = a.toNat * b.toNat
    change (a.toNat : Int) * b.toNat ≤ _ at hhigh
    rw [UInt32.toNat_mul, ← Int.natCast_mul]
    rw [← Int.natCast_mul] at hhigh
    omega
  value_div a b _ _ := by
    change ((a / b).toNat : Int) = (a.toNat : Int) / b.toNat
    rw [UInt32.toNat_div]
    rfl

instance : Machine UInt64 where
  least := 0
  greatest := 2 ^ 64 - 1
  least_le := by decide
  le_greatest := by decide
  value_add a b hlow hhigh := by
    change ((a + b).toNat : Int) = a.toNat + b.toNat
    change (a.toNat : Int) + b.toNat ≤ _ at hhigh
    rw [UInt64.toNat_add]
    omega
  value_sub a b hlow hhigh := by
    change ((a - b).toNat : Int) = a.toNat - b.toNat
    change 0 ≤ (a.toNat : Int) - b.toNat at hlow
    have hle : b ≤ a := UInt64.le_iff_toNat_le.2 (by omega)
    rw [UInt64.toNat_sub_of_le _ _ hle]
    omega
  value_mul a b hlow hhigh := by
    change ((a * b).toNat : Int) = a.toNat * b.toNat
    change (a.toNat : Int) * b.toNat ≤ _ at hhigh
    rw [UInt64.toNat_mul, ← Int.natCast_mul]
    rw [← Int.natCast_mul] at hhigh
    omega
  value_div a b _ _ := by
    change ((a / b).toNat : Int) = (a.toNat : Int) / b.toNat
    rw [UInt64.toNat_div]
    rfl

instance : Machine Int32 where
  least := -2 ^ 31
  greatest := 2 ^ 31 - 1
  least_le := by decide
  le_greatest := by decide
  value_add a b hlow hhigh := by
    change (a + b).toInt = a.toInt + b.toInt
    rw [Int32.toInt_add]
    exact Int.bmod_eq_of_le hlow (Int.le_sub_one_iff.1 hhigh)
  value_sub a b hlow hhigh := by
    change (a - b).toInt = a.toInt - b.toInt
    rw [Int32.toInt_sub]
    exact Int.bmod_eq_of_le hlow (Int.le_sub_one_iff.1 hhigh)
  value_mul a b hlow hhigh := by
    change (a * b).toInt = a.toInt * b.toInt
    rw [Int32.toInt_mul]
    exact Int.bmod_eq_of_le hlow (Int.le_sub_one_iff.1 hhigh)
  value_div a b ha hb := by
    change (a / b).toInt = a.toInt / b.toInt
    change 0 ≤ a.toInt at ha
    change 0 < b.toInt at hb
    have hlt := a.toInt_lt
    have hle : a.toInt / b.toInt ≤ a.toInt := Int.ediv_le_self _ ha
    have hnonneg : 0 ≤ a.toInt / b.toInt := Int.ediv_nonneg ha (Int.le_of_lt hb)
    rw [Int32.toInt_div, Int.tdiv_eq_ediv_of_nonneg ha]
    apply Int.bmod_eq_of_le <;> omega

instance : Machine Int64 where
  least := -2 ^ 63
  greatest := 2 ^ 63 - 1
  least_le := by decide
  le_greatest := by decide
  value_add a b hlow hhigh := by
    change (a + b).toInt = a.toInt + b.toInt
    rw [Int64.toInt_add]
    exact Int.bmod_eq_of_le hlow (Int.le_sub_one_iff.1 hhigh)
  value_sub a b hlow hhigh := by
    change (a - b).toInt = a.toInt - b.toInt
    rw [Int64.toInt_sub]
    exact Int.bmod_eq_of_le hlow (Int.le_sub_one_iff.1 hhigh)
  value_mul a b hlow hhigh := by
    change (a * b).toInt = a.toInt * b.toInt
    rw [Int64.toInt_mul]
    exact Int.bmod_eq_of_le hlow (Int.le_sub_one_iff.1 hhigh)
  value_div a b ha hb := by
    change (a / b).toInt = a.toInt / b.toInt
    change 0 ≤ a.toInt at ha
    change 0 < b.toInt at hb
    have hlt := a.toInt_lt
    have hle : a.toInt / b.toInt ≤ a.toInt := Int.ediv_le_self _ ha
    have hnonneg : 0 ≤ a.toInt / b.toInt := Int.ediv_nonneg ha (Int.le_of_lt hb)
    rw [Int64.toInt_div, Int.tdiv_eq_ediv_of_nonneg ha]
    apply Int.bmod_eq_of_le <;> omega

end Instances

section Unsigned

theorem add_eq_of_lt {a b : UInt64} (h : a.toNat + b.toNat < 2 ^ 64) : add a b = .ok (a + b) := by
  refine (add_spec ?_ ?_).1
  · change 0 ≤ (a.toNat : Int) + b.toNat
    omega
  · change (a.toNat : Int) + b.toNat ≤ 2 ^ 64 - 1
    omega

theorem sub_eq_of_le {a b : UInt64} (h : b.toNat ≤ a.toNat) : sub a b = .ok (a - b) := by
  have hlt := a.toNat_lt
  refine (sub_spec ?_ ?_).1
  · change 0 ≤ (a.toNat : Int) - b.toNat
    omega
  · change (a.toNat : Int) - b.toNat ≤ 2 ^ 64 - 1
    omega

theorem mul_eq_of_lt {a b : UInt64} (h : a.toNat * b.toNat < 2 ^ 64) : mul a b = .ok (a * b) := by
  refine (mul_spec ?_ ?_).1
  · change 0 ≤ (a.toNat : Int) * b.toNat
    rw [← Int.natCast_mul]
    omega
  · change (a.toNat : Int) * b.toNat ≤ 2 ^ 64 - 1
    rw [← Int.natCast_mul]
    omega

theorem div_eq_of_pos {a b : UInt64} (h : 0 < b.toNat) : div a b = .ok (a / b) :=
  (div_spec (Int.natCast_nonneg _) (Int.natCast_pos.2 h)).1

end Unsigned

end Checked
