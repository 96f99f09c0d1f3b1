import Mathlib.Algebra.BigOperators.Group.List.Basic
import Mathlib.Algebra.Group.Nat.Defs
import Mathlib.Data.List.Basic
import Mathlib.Tactic.IntervalCases

namespace Calendar

def isLeap (year : Nat) : Bool := year % 4 == 0 && (year % 100 != 0 || year % 400 == 0)

def monthLengths (year : Nat) : List Nat :=
  [31, if isLeap year then 29 else 28, 31, 30, 31, 30, 31, 31, 30, 31, 30, 31]

def monthLength (year month : Nat) : Nat := (monthLengths year).getD (month - 1) 0

def yearLength (year : Nat) : Nat := (monthLengths year).sum

def daysBeforeYear (epoch year : Nat) : Nat :=
  ((List.range' epoch (year - epoch)).map yearLength).sum

def daysBeforeMonth (year month : Nat) : Nat := ((monthLengths year).take (month - 1)).sum

def daysSince (epoch year month day : Nat) : Nat :=
  daysBeforeYear epoch year + daysBeforeMonth year month + (day - 1)

def shiftedYear (year month : Nat) : Nat := if month ≤ 2 then year - 1 else year

def shiftedMonth (month : Nat) : Nat := if month > 2 then month - 3 else month + 9

def eraDays (year month day : Nat) : Nat :=
  let yearOfEra := shiftedYear year month % 400
  shiftedYear year month / 400 * 146097 +
    (yearOfEra * 365 + yearOfEra / 4 - yearOfEra / 100 +
      ((153 * shiftedMonth month + 2) / 5 + day - 1))

def leapDays (year : Nat) : Nat := if isLeap year then 1 else 0

theorem monthLength_le (year month : Nat) : monthLength year month ≤ 31 := by
  have hall : ∀ length ∈ monthLengths year, length ≤ 31 := by
    unfold monthLengths
    split <;> decide
  rw [monthLength, List.getD_eq_getElem?_getD]
  cases h : (monthLengths year)[month - 1]? with
  | none => exact Nat.zero_le _
  | some length => exact hall length (List.mem_of_getElem? h)

def leapsThrough (year : Nat) : Nat := year / 4 - year / 100 + year / 400

theorem leapDays_eq (year : Nat) :
    leapDays year = if year % 4 = 0 ∧ (year % 100 ≠ 0 ∨ year % 400 = 0) then 1 else 0 := by
  simp [leapDays, isLeap]

theorem leapsThrough_succ (year : Nat) :
    leapsThrough (year + 1) = leapsThrough year + leapDays (year + 1) := by
  rw [leapDays_eq, leapsThrough, leapsThrough]
  have hfours : (year + 1) / 4 = year / 4 + if (year + 1) % 4 = 0 then 1 else 0 := by
    split <;> omega
  have hcenturies : (year + 1) / 100 = year / 100 + if (year + 1) % 100 = 0 then 1 else 0 := by
    split <;> omega
  have heras : (year + 1) / 400 = year / 400 + if (year + 1) % 400 = 0 then 1 else 0 := by
    split <;> omega
  have hcentury : (year + 1) % 100 = 0 → (year + 1) % 4 = 0 := by omega
  have hera : (year + 1) % 400 = 0 → (year + 1) % 100 = 0 := by omega
  have hle : year / 100 ≤ year / 4 := by omega
  rw [hfours, hcenturies, heras]
  split_ifs <;> omega

theorem yearLength_eq (year : Nat) : yearLength year = 365 + leapDays year := by
  simp only [yearLength, monthLengths, leapDays]
  split <;> rfl

theorem daysBeforeYear_succ {epoch year : Nat} (h : epoch ≤ year) :
    daysBeforeYear epoch (year + 1) = daysBeforeYear epoch year + yearLength year := by
  have hcount : year + 1 - epoch = year - epoch + 1 := by omega
  have hlast : epoch + (year - epoch) = year := by omega
  simp [daysBeforeYear, hcount, List.range'_concat, hlast]

theorem daysBeforeYear_eq {epoch year : Nat} (hepoch : 1 ≤ epoch) (h : epoch ≤ year) :
    daysBeforeYear epoch year + ((epoch - 1) * 365 + leapsThrough (epoch - 1)) =
      (year - 1) * 365 + leapsThrough (year - 1) := by
  induction year, h using Nat.le_induction with
  | base => simp [daysBeforeYear]
  | succ year h ih =>
    obtain ⟨k, rfl⟩ := Nat.exists_eq_add_of_le' (hepoch.trans h)
    have hleaps := leapsThrough_succ k
    rw [daysBeforeYear_succ h, yearLength_eq]
    simp only [Nat.add_sub_cancel] at ih ⊢
    omega

theorem daysBeforeMonth_eq {year month : Nat} (hlow : 1 ≤ month) (hhigh : month ≤ 12) :
    daysBeforeMonth year month + 306 =
      (153 * shiftedMonth month + 2) / 5 + if month ≤ 2 then 0 else 365 + leapDays year := by
  interval_cases month <;>
    simp only [daysBeforeMonth, monthLengths, shiftedMonth, leapDays] <;> split <;> rfl

/-- An era has 146097 days, so it may be left out of the closed form. -/
theorem eraDays_eq (year month day : Nat) :
    eraDays year month day = shiftedYear year month * 365 + leapsThrough (shiftedYear year month) +
      ((153 * shiftedMonth month + 2) / 5 + day - 1) := by
  simp only [eraDays, leapsThrough]
  generalize shiftedYear year month = shifted
  omega

theorem eraDays_eq_daysSince {epoch year month day : Nat} (hepoch : 1 ≤ epoch)
    (hyear : epoch ≤ year) (hlow : 1 ≤ month) (hhigh : month ≤ 12) (hday : 1 ≤ day) :
    eraDays year month day = daysSince epoch year month day + eraDays epoch 1 1 := by
  have hyears := daysBeforeYear_eq hepoch hyear
  have hmonths := @daysBeforeMonth_eq year month hlow hhigh
  have hleaps := leapsThrough_succ (year - 1)
  rw [Nat.sub_add_cancel (hepoch.trans hyear)] at hleaps
  rw [eraDays_eq, eraDays_eq, daysSince]
  have hfirst : shiftedYear epoch 1 = epoch - 1 := rfl
  have hbase : (153 * shiftedMonth 1 + 2) / 5 + 1 - 1 = 306 := rfl
  rw [hfirst, hbase]
  by_cases hmonth : month ≤ 2
  · rw [if_pos hmonth] at hmonths
    rw [shiftedYear, if_pos hmonth]
    omega
  · rw [if_neg hmonth] at hmonths
    rw [shiftedYear, if_neg hmonth]
    omega

end Calendar
