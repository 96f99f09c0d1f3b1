import BengalMarket.Library.Calendar
import BengalMarket.Library.Checked
import BengalMarket.Reader.Spelling
import BengalMarket.Reader.Timestamp

namespace BengalMarket

open Checked Calendar

def shiftYearChecked (year : Int32) (month : UInt32) : Except Fault Int32 :=
  if month ≤ 2 then sub year 1 else .ok year

def eraDividendChecked (year : Int32) : Except Fault Int32 :=
  if year ≥ 0 then .ok year else sub year 399

def eraChecked (year : Int32) : Except Fault Int32 := do
  let dividend ← eraDividendChecked year
  div dividend 400

def yearOfEraChecked (year era : Int32) : Except Fault UInt32 := do
  let start ← mul era 400
  let difference ← sub year start
  convert Int32.toUInt32 difference

def shiftMonthChecked (month : UInt32) : Except Fault UInt32 :=
  if month > 2 then sub month 3 else add month 9

def dayOfYearChecked (month day : UInt32) : Except Fault UInt32 := do
  let shifted ← shiftMonthChecked month
  let product ← mul 153 shifted
  let biased ← add product 2
  let before ← div biased 5
  let sum ← add before day
  sub sum 1

def dayOfEraChecked (yearOfEra dayOfYear : UInt32) : Except Fault UInt32 := do
  let days ← mul yearOfEra 365
  let fourths ← div yearOfEra 4
  let sum ← add days fourths
  let centuries ← div yearOfEra 100
  let difference ← sub sum centuries
  add difference dayOfYear

def daysFromEraChecked (era : Int32) (dayOfEra : UInt32) : Except Fault Int64 := do
  let era ← convert Int32.toInt64 era
  let eras ← mul era 146097
  let days ← convert (fun days => days.toUInt64.toInt64) dayOfEra
  let sum ← add eras days
  sub sum 719468

def daysFromCivilChecked (year : Int32) (month day : UInt32) : Except Fault Int64 := do
  let year ← shiftYearChecked year month
  let era ← eraChecked year
  let yearOfEra ← yearOfEraChecked year era
  let dayOfYear ← dayOfYearChecked month day
  let dayOfEra ← dayOfEraChecked yearOfEra dayOfYear
  daysFromEraChecked era dayOfEra

theorem denotes_toNat {a : UInt32} {n : Nat} : Denotes a n ↔ a.toNat = n := Int.ofNat_inj

theorem shiftYearChecked_eq {year : Int32} {month : UInt32} {y m : Nat} (hyear : Denotes year y)
    (hmonth : Denotes month m) (hpos : 1 ≤ y) (hlt : y < 2 ^ 31) :
    let shifted := if month ≤ 2 then year - 1 else year
    shiftYearChecked year month = .ok shifted ∧ Denotes shifted (shiftedYear y m) := by
  have hone : Denotes (1 : Int32) 1 := rfl
  have hle : month ≤ 2 ↔ m ≤ 2 := denotes_toNat.1 hmonth ▸ UInt32.le_iff_toNat_le
  unfold shiftYearChecked shiftedYear
  by_cases h : month ≤ 2
  · simpa only [if_pos h, if_pos (hle.1 h)] using sub_small hyear hone hpos hlt
  · simpa only [if_neg h, if_neg (mt hle.2 h), true_and] using hyear

theorem eraChecked_eq {year : Int32} {y : Nat} (hyear : Denotes year y) :
    let era := (if year ≥ 0 then year else year - 399) / 400
    eraChecked year = .ok era ∧ Denotes era (y / 400) := by
  have h400 : Denotes (400 : Int32) 400 := rfl
  have hnonneg : year ≥ 0 := by
    rw [ge_iff_le, Int32.le_iff_toInt_le]
    exact (Int.natCast_nonneg y).trans_eq hyear.symm
  have hdividend : eraDividendChecked year = .ok year := if_pos hnonneg
  unfold eraChecked
  rw [hdividend, ok_bind, if_pos hnonneg]
  exact div_nat hyear h400 (by decide)

theorem denotes_toUInt32 {a : Int32} {n : Nat} (h : Denotes a n) : Denotes a.toUInt32 n := by
  have hcases : a.toInt = if 2 * a.toUInt32.toNat < 2 ^ 32 then (a.toUInt32.toNat : Int)
      else a.toUInt32.toNat - 2 ^ 32 := BitVec.toInt_eq_toNat_cond a.toBitVec
  have hlt := a.toUInt32.toNat_lt
  have hvalue : a.toInt = n := h
  rw [denotes_toNat]
  split at hcases <;> omega

theorem denotes_toInt64 {a : Int32} {n : Nat} (h : Denotes a n) : Denotes a.toInt64 n :=
  (Int32.toInt_toInt64 a).trans h

theorem denotes_wide {a : UInt32} {n : Nat} (h : Denotes a n) :
    Denotes a.toUInt64.toInt64 n := by
  have hlt := a.toNat_lt
  have hwide : a.toUInt64.toNat < 2 ^ 63 := by
    rw [UInt32.toNat_toUInt64]
    omega
  refine (toInt_toInt64 hwide).trans ?_
  rw [UInt32.toNat_toUInt64, denotes_toNat.1 h]

theorem yearOfEraChecked_eq {year era : Int32} {y : Nat} (hyear : Denotes year y)
    (hera : Denotes era (y / 400)) (hlt : y < 2 ^ 31) :
    let yearOfEra := (year - era * 400).toUInt32
    yearOfEraChecked year era = .ok yearOfEra ∧ Denotes yearOfEra (y % 400) := by
  have h400 : Denotes (400 : Int32) 400 := rfl
  obtain ⟨hmul, hstart⟩ := mul_small hera h400 (by omega)
  obtain ⟨hsub, hdifference⟩ := sub_small hyear hstart (by omega) hlt
  have hmod : y - y / 400 * 400 = y % 400 := by omega
  rw [hmod] at hdifference
  have hunsigned := denotes_toUInt32 hdifference
  unfold yearOfEraChecked
  rw [hmul, ok_bind, hsub, ok_bind]
  exact ⟨exactly_eq (hunsigned.trans hdifference.symm), hunsigned⟩

theorem shiftMonthChecked_eq {month : UInt32} {m : Nat} (hmonth : Denotes month m) (hm : m ≤ 12) :
    let shifted := if month > 2 then month - 3 else month + 9
    shiftMonthChecked month = .ok shifted ∧ Denotes shifted (shiftedMonth m) := by
  have h3 : Denotes (3 : UInt32) 3 := rfl
  have h9 : Denotes (9 : UInt32) 9 := rfl
  have hgt : month > 2 ↔ m > 2 := denotes_toNat.1 hmonth ▸ UInt32.lt_iff_toNat_lt
  unfold shiftMonthChecked shiftedMonth
  by_cases h : month > 2
  · simpa only [if_pos h, if_pos (hgt.1 h)] using sub_small hmonth h3 (hgt.1 h) (by omega)
  · simpa only [if_neg h, if_neg (mt hgt.2 h)] using add_small hmonth h9 (by omega)

theorem dayOfYearChecked_eq {month day : UInt32} {m d : Nat} (hmonth : Denotes month m)
    (hday : Denotes day d) (hm : m ≤ 12) (hd : 1 ≤ d) (hlt : d ≤ 31) :
    let dayOfYear := (153 * (if month > 2 then month - 3 else month + 9) + 2) / 5 + day - 1
    dayOfYearChecked month day = .ok dayOfYear ∧
      Denotes dayOfYear ((153 * shiftedMonth m + 2) / 5 + d - 1) := by
  have h1 : Denotes (1 : UInt32) 1 := rfl
  have h2 : Denotes (2 : UInt32) 2 := rfl
  have h5 : Denotes (5 : UInt32) 5 := rfl
  have h153 : Denotes (153 : UInt32) 153 := rfl
  have hsmall : shiftedMonth m ≤ 12 := by
    unfold shiftedMonth
    split <;> omega
  obtain ⟨hshift, hshifted⟩ := shiftMonthChecked_eq hmonth hm
  obtain ⟨hmul, hproduct⟩ := mul_small h153 hshifted (by omega)
  obtain ⟨hadd, hbiased⟩ := add_small hproduct h2 (by omega)
  obtain ⟨hdiv, hbefore⟩ := div_nat hbiased h5 (by decide)
  obtain ⟨hadd', hsum⟩ := add_small hbefore hday (by omega)
  obtain ⟨hsub, hresult⟩ := sub_small hsum h1 (by omega) (by omega)
  unfold dayOfYearChecked
  rw [hshift, ok_bind, hmul, ok_bind, hadd, ok_bind, hdiv, ok_bind, hadd', ok_bind]
  exact ⟨hsub, hresult⟩

theorem dayOfEraChecked_eq {yearOfEra dayOfYear : UInt32} {y d : Nat}
    (hyear : Denotes yearOfEra y) (hday : Denotes dayOfYear d) (hy : y < 400) (hd : d ≤ 367) :
    let dayOfEra := yearOfEra * 365 + yearOfEra / 4 - yearOfEra / 100 + dayOfYear
    dayOfEraChecked yearOfEra dayOfYear = .ok dayOfEra ∧
      Denotes dayOfEra (y * 365 + y / 4 - y / 100 + d) := by
  have h4 : Denotes (4 : UInt32) 4 := rfl
  have h100 : Denotes (100 : UInt32) 100 := rfl
  have h365 : Denotes (365 : UInt32) 365 := rfl
  obtain ⟨hmul, hdays⟩ := mul_small hyear h365 (by omega)
  obtain ⟨hdiv, hfourths⟩ := div_nat hyear h4 (by decide)
  obtain ⟨hadd, hsum⟩ := add_small hdays hfourths (by omega)
  obtain ⟨hdiv', hcenturies⟩ := div_nat hyear h100 (by decide)
  obtain ⟨hsub, hdifference⟩ := sub_small hsum hcenturies (by omega) (by omega)
  obtain ⟨hadd', hresult⟩ := add_small hdifference hday (by omega)
  unfold dayOfEraChecked
  rw [hmul, ok_bind, hdiv, ok_bind, hadd, ok_bind, hdiv', ok_bind, hsub, ok_bind]
  exact ⟨hadd', hresult⟩

theorem daysFromEraChecked_eq {era : Int32} {dayOfEra : UInt32} {e d : Nat}
    (hera : Denotes era e) (hday : Denotes dayOfEra d) (he : e ≤ 24) (hd : d < 146464)
    (hepoch : 719468 ≤ e * 146097 + d) :
    let days := era.toInt64 * 146097 + dayOfEra.toUInt64.toInt64 - 719468
    daysFromEraChecked era dayOfEra = .ok days ∧ Denotes days (e * 146097 + d - 719468) := by
  have h146097 : Denotes (146097 : Int64) 146097 := rfl
  have h719468 : Denotes (719468 : Int64) 719468 := rfl
  have hwideEra := denotes_toInt64 hera
  have hwideDay := denotes_wide hday
  obtain ⟨hmul, heras⟩ := mul_small hwideEra h146097 (by omega)
  obtain ⟨hadd, hsum⟩ := add_small heras hwideDay (by omega)
  obtain ⟨hsub, hresult⟩ := sub_small hsum h719468 hepoch (by omega)
  have hconvert : convert Int32.toInt64 era = .ok era.toInt64 :=
    exactly_eq (hwideEra.trans hera.symm)
  have hconvert' : convert (fun days => days.toUInt64.toInt64) dayOfEra =
      .ok dayOfEra.toUInt64.toInt64 := exactly_eq (hwideDay.trans hday.symm)
  unfold daysFromEraChecked
  rw [hconvert, ok_bind, hmul, ok_bind, hconvert', ok_bind, hadd, ok_bind]
  exact ⟨hsub, hresult⟩

theorem daysFromCivilChecked_eq {year : Int32} {month day : UInt32} {y m d : Nat}
    (hyear : Denotes year y) (hmonth : Denotes month m) (hday : Denotes day d)
    (hlow : 1970 ≤ y) (hhigh : y < 10000) (hm : 1 ≤ m) (hm' : m ≤ 12) (hd : 1 ≤ d) (hd' : d ≤ 31) :
    daysFromCivilChecked year month day = .ok (daysFromCivil year month day) ∧
      Denotes (daysFromCivil year month day) (daysSince 1970 y m d) ∧
      daysSince 1970 y m d < 2 ^ 22 := by
  have hera := @eraDays_eq_daysSince 1970 y m d (by decide) hlow hm hm' hd
  have hbase : eraDays 1970 1 1 = 719468 := rfl
  have hshiftedYear : shiftedYear y m < 10000 := by
    unfold shiftedYear
    split <;> omega
  have hshiftedMonth : shiftedMonth m ≤ 11 := by
    unfold shiftedMonth
    split <;> omega
  rw [hbase] at hera
  rw [eraDays] at hera
  obtain ⟨hshift, hshifted⟩ := shiftYearChecked_eq hyear hmonth (by omega) (by omega)
  obtain ⟨hdivide, hquotient⟩ := eraChecked_eq hshifted
  obtain ⟨hrest, hyearOfEra⟩ := yearOfEraChecked_eq hshifted hquotient (by omega)
  obtain ⟨hdays, hdayOfYear⟩ := dayOfYearChecked_eq hmonth hday hm' hd hd'
  obtain ⟨hsum, hdayOfEra⟩ := dayOfEraChecked_eq hyearOfEra hdayOfYear
    (Nat.mod_lt _ (by decide)) (by omega)
  obtain ⟨htotal, hresult⟩ := daysFromEraChecked_eq hquotient hdayOfEra (by omega) (by omega)
    (by omega)
  unfold daysFromCivilChecked
  rw [hshift, ok_bind, hdivide, ok_bind, hrest, ok_bind, hdays, ok_bind, hsum, ok_bind]
  have hcount : shiftedYear y m / 400 * 146097 + (shiftedYear y m % 400 * 365 +
      shiftedYear y m % 400 / 4 - shiftedYear y m % 400 / 100 +
        ((153 * shiftedMonth m + 2) / 5 + d - 1)) - 719468 = daysSince 1970 y m d := by omega
  rw [hcount] at hresult
  exact ⟨htotal, hresult, by omega⟩

def secondsChecked (days : Int64) (time : CivilTime) : Except Fault UInt64 := do
  let days ← convert Int64.toUInt64 days
  let fromDays ← mul days 86400
  let hour ← convert UInt32.toUInt64 time.hour
  let fromHours ← mul hour 3600
  let sum ← add fromDays fromHours
  let minute ← convert UInt32.toUInt64 time.minute
  let fromMinutes ← mul minute 60
  let sum ← add sum fromMinutes
  let second ← convert UInt32.toUInt64 time.second
  add sum second

def instantChecked (seconds fraction : UInt64) : Except Fault (Option UInt64) := do
  let room ← sub 0xffffffffffffffff fraction
  let bound ← div room 1000000000
  if seconds > bound then .ok none
  else do
    let scaled ← mul seconds 1000000000
    let sum ← add scaled fraction
    .ok (some sum)

def CivilTime.nanosecondsChecked (time : CivilTime) (fraction : UInt64) :
    Except Fault (Option UInt64) := do
  let year ← convert UInt32.toInt32 time.year
  let days ← daysFromCivilChecked year time.month time.day
  if days < 0 then .ok none
  else do
    let seconds ← secondsChecked days time
    instantChecked seconds fraction

/-- A date of the calendar, from 1970 on, and a time of the day. -/
structure CivilTime.Valid (time : CivilTime) : Prop where
  year_ge : 1970 ≤ time.year.toNat
  year_lt : time.year.toNat < 10000
  month_pos : 1 ≤ time.month.toNat
  month_le : time.month.toNat ≤ 12
  day_pos : 1 ≤ time.day.toNat
  day_le : time.day.toNat ≤ monthLength time.year.toNat time.month.toNat
  hour_le : time.hour.toNat ≤ 23
  minute_le : time.minute.toNat ≤ 59
  second_le : time.second.toNat ≤ 59

def CivilTime.instant (time : CivilTime) : Nat :=
  daysSince 1970 time.year.toNat time.month.toNat time.day.toNat * 86400 +
    time.hour.toNat * 3600 + time.minute.toNat * 60 + time.second.toNat

theorem denotes_self (a : UInt32) : Denotes a a.toNat := rfl

theorem convert_toUInt64 (a : UInt32) : convert UInt32.toUInt64 a = .ok a.toUInt64 :=
  exactly_eq rfl

theorem denotes_toUInt64 {a : Int64} {n : Nat} (h : Denotes a n) : Denotes a.toUInt64 n := by
  have hcases : a.toInt = if 2 * a.toUInt64.toNat < 2 ^ 64 then (a.toUInt64.toNat : Int)
      else a.toUInt64.toNat - 2 ^ 64 := BitVec.toInt_eq_toNat_cond a.toBitVec
  have hlt := a.toUInt64.toNat_lt
  have hvalue : a.toInt = n := h
  change (a.toUInt64.toNat : Int) = n
  split at hcases <;> omega

theorem denotes_toInt32 {a : UInt32} (h : a.toNat < 2 ^ 31) : Denotes a.toInt32 a.toNat := by
  have hcases : a.toInt32.toInt = if 2 * a.toNat < 2 ^ 32 then (a.toNat : Int)
      else a.toNat - 2 ^ 32 := BitVec.toInt_eq_toNat_cond a.toBitVec
  rw [if_pos (by omega)] at hcases
  exact hcases

theorem secondsChecked_eq {days : Int64} {time : CivilTime} {d : Nat} (hdays : Denotes days d)
    (hd : d < 2 ^ 22) (htime : time.Valid) :
    let seconds := days.toUInt64 * 86400 + time.hour.toUInt64 * 3600 +
      time.minute.toUInt64 * 60 + time.second.toUInt64
    secondsChecked days time = .ok seconds ∧
      seconds.toNat = d * 86400 + time.hour.toNat * 3600 + time.minute.toNat * 60 +
        time.second.toNat := by
  have hhour := htime.hour_le
  have hminute := htime.minute_le
  have hsecond := htime.second_le
  have hgreatest : Machine.greatest UInt64 = 2 ^ 64 - 1 := rfl
  have h86400 : Denotes (86400 : UInt64) 86400 := rfl
  have h3600 : Denotes (3600 : UInt64) 3600 := rfl
  have h60 : Denotes (60 : UInt64) 60 := rfl
  have hwide (a : UInt32) : Denotes a.toUInt64 a.toNat := rfl
  have hunsigned := denotes_toUInt64 hdays
  have hconvert : convert Int64.toUInt64 days = .ok days.toUInt64 :=
    exactly_eq (hunsigned.trans hdays.symm)
  obtain ⟨hmul, hfromDays⟩ := mul_nat hunsigned h86400 (by omega)
  obtain ⟨hmul', hfromHours⟩ := mul_nat (hwide time.hour) h3600 (by omega)
  obtain ⟨hadd, hsum⟩ := add_nat hfromDays hfromHours (by omega)
  obtain ⟨hmul'', hfromMinutes⟩ := mul_nat (hwide time.minute) h60 (by omega)
  obtain ⟨hadd', hsum'⟩ := add_nat hsum hfromMinutes (by omega)
  obtain ⟨hadd'', hseconds⟩ := add_nat hsum' (hwide time.second) (by omega)
  unfold secondsChecked
  rw [hconvert, ok_bind, hmul, ok_bind, convert_toUInt64, ok_bind, hmul', ok_bind, hadd, ok_bind,
    convert_toUInt64, ok_bind, hmul'', ok_bind, hadd', ok_bind, convert_toUInt64, ok_bind]
  exact ⟨hadd'', Int.ofNat_inj.1 hseconds⟩

theorem instantChecked_eq (seconds fraction : UInt64) :
    let result := if seconds > (0xffffffffffffffff - fraction) / 1000000000 then none
      else some (seconds * 1000000000 + fraction)
    instantChecked seconds fraction = .ok result ∧
      ∀ ns, result = some ns ↔ ns.toNat = seconds.toNat * 1000000000 + fraction.toNat := by
  have hfraction := fraction.toNat_lt
  have hbillion : (1000000000 : UInt64).toNat = 1000000000 := rfl
  have hgreatest : (0xffffffffffffffff : UInt64).toNat = 2 ^ 64 - 1 := rfl
  have hle : fraction.toNat ≤ (0xffffffffffffffff : UInt64).toNat := by omega
  have hroom : (0xffffffffffffffff - fraction).toNat = 2 ^ 64 - 1 - fraction.toNat := by
    rw [UInt64.toNat_sub_of_le _ _ (UInt64.le_iff_toNat_le.2 hle), hgreatest]
  have hgt : seconds > (0xffffffffffffffff - fraction) / 1000000000 ↔
      2 ^ 64 ≤ seconds.toNat * 1000000000 + fraction.toNat := by
    rw [gt_iff_lt, UInt64.lt_iff_toNat_lt, UInt64.toNat_div, hroom, hbillion]
    omega
  unfold instantChecked
  rw [sub_eq_of_le hle, ok_bind, div_eq_of_pos (by decide), ok_bind]
  by_cases h : seconds > (0xffffffffffffffff - fraction) / 1000000000
  · have hlarge := hgt.1 h
    simp only [if_pos h, reduceCtorEq, false_iff, true_and]
    intro ns hns
    have hlt := ns.toNat_lt
    omega
  · have hsmall := mt hgt.2 h
    have hmul : seconds.toNat * (1000000000 : UInt64).toNat < 2 ^ 64 := by
      rw [hbillion]
      omega
    have hscaled : (seconds * 1000000000).toNat = seconds.toNat * 1000000000 := by
      rw [UInt64.toNat_mul, hbillion, Nat.mod_eq_of_lt (by omega)]
    have hadd : (seconds * 1000000000).toNat + fraction.toNat < 2 ^ 64 := by
      rw [hscaled]
      omega
    simp only [if_neg h]
    rw [mul_eq_of_lt hmul, ok_bind, add_eq_of_lt hadd, ok_bind]
    refine ⟨rfl, fun ns => ?_⟩
    rw [Option.some.injEq, ← UInt64.toNat_inj, UInt64.toNat_add, hscaled,
      Nat.mod_eq_of_lt (by omega)]
    exact eq_comm

theorem nanosecondsChecked_eq {time : CivilTime} (htime : time.Valid) (fraction : UInt64) :
    time.nanosecondsChecked fraction = .ok (time.nanoseconds fraction) ∧
      ∀ ns, time.nanoseconds fraction = some ns ↔
        ns.toNat = time.instant * 1000000000 + fraction.toNat := by
  have hyear := denotes_toInt32 (a := time.year) (htime.year_lt.trans (by decide))
  have hdayLe := htime.day_le.trans (monthLength_le _ _)
  obtain ⟨hcivil, hdays, hlt⟩ := daysFromCivilChecked_eq hyear (denotes_self time.month)
    (denotes_self time.day) htime.year_ge htime.year_lt htime.month_pos htime.month_le
    htime.day_pos hdayLe
  obtain ⟨hsecondsOk, hseconds⟩ := secondsChecked_eq hdays hlt htime
  have hconvert : convert UInt32.toInt32 time.year = .ok time.year.toInt32 :=
    exactly_eq (hyear.trans (denotes_self time.year).symm)
  have hnonneg : ¬ daysFromCivil time.year.toInt32 time.month time.day < 0 := by
    rw [Int64.lt_iff_toInt_lt]
    exact Int.not_lt.2 ((Int.natCast_nonneg _).trans_eq hdays.symm)
  obtain ⟨hok, hresult⟩ := instantChecked_eq
    ((daysFromCivil time.year.toInt32 time.month time.day).toUInt64 * 86400 +
      time.hour.toUInt64 * 3600 + time.minute.toUInt64 * 60 + time.second.toUInt64) fraction
  unfold CivilTime.nanosecondsChecked CivilTime.nanoseconds
  rw [hconvert, ok_bind, hcivil, ok_bind, if_neg hnonneg, hsecondsOk, ok_bind, hok]
  simp only [if_neg hnonneg, true_and]
  intro ns
  rw [hresult, hseconds]
  rfl

end BengalMarket
