import BengalMarket.Reader.DecimalChecked
import BengalMarket.Reader.Stamp

namespace BengalMarket

open Checked

def separatorsChecked (value : Bytes) : List (Nat × UInt8) → Except Fault Bool
  | [] => .ok true
  | (index, separator) :: rest => do
    let character ← read value index
    if character ≠ separator then .ok false else separatorsChecked value rest

def hasSeparatorsChecked (value : Bytes) : Except Fault Bool :=
  if value.length < 20 then .ok false
  else separatorsChecked value [(4, hyphen), (7, hyphen), (10, letterT), (13, colon), (16, colon)]

def readComponentChecked (value : Bytes) : Nat → Nat → UInt32 → Except Fault (Option UInt32)
  | 0, _, result => .ok (some result)
  | count + 1, index, result => do
    let character ← read value index
    if Decimal.isDigit character then do
      let tens ← mul result 10
      let next ← add tens (UInt32.ofNat (Decimal.digitValue character))
      readComponentChecked value count (index + 1) next
    else .ok none

def parseComponentChecked (value : Bytes) (offset length : Nat) : Except Fault (Option UInt32) :=
  if offset + length > value.length then .ok none
  else readComponentChecked value length offset 0

def daysInMonthChecked (year month : UInt32) : Except Fault UInt32 :=
  if month = 2 && isLeapYear year then .ok 29
  else do
    let index ← sub month 1
    read monthDays index.toNat

def checksChecked (time : CivilTime) : Except Fault Bool :=
  if time.year < 1970 || time.month < 1 || time.month > 12 || time.day < 1 then .ok true
  else do
    let days ← daysInMonthChecked time.year time.month
    .ok (time.day > days || time.hour > 23 || time.minute > 59 || time.second > 59)

def parseCivilTimeChecked (value : Bytes) : Except Fault (Option CivilTime) := do
  let year ← parseComponentChecked value 0 4
  let month ← parseComponentChecked value 5 2
  let day ← parseComponentChecked value 8 2
  let hour ← parseComponentChecked value 11 2
  let minute ← parseComponentChecked value 14 2
  let second ← parseComponentChecked value 17 2
  match year, month, day, hour, minute, second with
  | some year, some month, some day, some hour, some minute, some second => do
    let time : CivilTime := { year, month, day, hour, minute, second }
    let invalid ← checksChecked time
    .ok (if invalid then none else some time)
  | _, _, _, _, _, _ => .ok none

def readFractionDigitsChecked (value : Bytes) (cursor digits : Nat) (fraction : UInt64) :
    Except Fault (Option (Nat × Nat × UInt64)) :=
  if cursor < value.length then do
    let character ← read value cursor
    if character = zulu then .ok (some (cursor, digits, fraction))
    else if digits = 9 || !Decimal.isDigit character then .ok none
    else do
      let tens ← mul fraction 10
      let next ← add tens (UInt64.ofNat (Decimal.digitValue character))
      readFractionDigitsChecked value (cursor + 1) (digits + 1) next
  else .ok (some (cursor, digits, fraction))
termination_by value.length - cursor

def parseFractionChecked (value : Bytes) : Except Fault (Option (Nat × Nat × UInt64)) := do
  let character ← read value 19
  if character = dot then do
    match ← readFractionDigitsChecked value 20 0 0 with
    | none => .ok none
    | some (cursor, digits, fraction) =>
      .ok (if digits = 0 then none else some (cursor, digits, fraction))
  else .ok (some (19, 0, 0))

def endsChecked (value : Bytes) (cursor : Nat) : Except Fault Bool :=
  if cursor + 1 ≠ value.length then .ok false
  else do
    let character ← read value cursor
    .ok (character == zulu)

def parseTimestampNsChecked (value : Bytes) : Except Fault (Option UInt64) := do
  let separators ← hasSeparatorsChecked value
  if !separators then .ok none
  else do
    match ← parseCivilTimeChecked value with
    | none => .ok none
    | some time => do
      match ← parseFractionChecked value with
      | none => .ok none
      | some (cursor, digits, fraction) => do
        let ends ← endsChecked value cursor
        if !ends then .ok none
        else do
          let fraction ← scaleByTenChecked (9 - digits) fraction
          time.nanosecondsChecked fraction

variable {value : Bytes}

theorem read_lt {α : Type} {values : List α} {index : Nat} (h : index < values.length) :
    read values index = .ok values[index] := read_eq (List.getElem?_eq_getElem h)

theorem separatorsChecked_eq {places : List (Nat × UInt8)}
    (h : ∀ place ∈ places, place.1 < value.length) :
    separatorsChecked value places =
      .ok (places.all fun place => value[place.1]? == some place.2) := by
  induction places with
  | nil => rfl
  | cons place places ih =>
    obtain ⟨hplace, hplaces⟩ := List.forall_mem_cons.1 h
    rw [separatorsChecked, read_lt hplace, ok_bind, List.all_cons,
      List.getElem?_eq_getElem hplace]
    by_cases hsame : value[place.1] = place.2
    · rw [if_neg (not_not_intro hsame), ih hplaces]
      simp [hsame]
    · rw [if_pos hsame]
      simp [hsame]

theorem hasSeparatorsChecked_eq (value : Bytes) :
    hasSeparatorsChecked value = .ok (hasSeparators value) := by
  unfold hasSeparatorsChecked
  by_cases hlength : value.length < 20
  · rw [if_pos hlength]
    simp [hasSeparators, hlength]
  · rw [if_neg hlength, separatorsChecked_eq (by simp; omega)]
    have hge : value.length ≥ 20 := Nat.le_of_not_lt hlength
    simp [hasSeparators, hge, hyphen, letterT, colon, Bool.and_assoc]

theorem readComponentChecked_eq {read : Bytes} {before : UInt32} {count index : Nat}
    (hread : Decimal.Digits read) (hbefore : Denotes before (Decimal.ofDigits read))
    (hlength : read.length + count ≤ 9) (hbound : index + count ≤ value.length) :
    readComponentChecked value count index before =
      .ok (readComponent before ((value.drop index).take count)) := by
  induction count generalizing read before index with
  | zero => simp [readComponentChecked, readComponent]
  | succ count ih =>
    have hindex : index < value.length := by omega
    rw [readComponentChecked, read_lt hindex, ok_bind, List.drop_eq_getElem_cons hindex,
      List.take_succ_cons, readComponent]
    by_cases hdigit : Decimal.isDigit value[index] = true
    · have hdigits := digits_concat hread hdigit
      have hten : Denotes (10 : UInt32) 10 := rfl
      obtain ⟨hmul, hadd, hnext⟩ :=
        digit_step hdigits (by omega) hbefore hten (denotes_digit32 hdigit)
      rw [if_pos hdigit, if_pos hdigit, hmul, ok_bind, hadd, ok_bind]
      exact ih hdigits hnext (by simp; omega) (by omega)
    · rw [if_neg hdigit, if_neg hdigit]

theorem parseComponentChecked_eq {offset length : Nat} (h : length ≤ 9) :
    parseComponentChecked value offset length = .ok (parseComponent value offset length) := by
  refine ite_eq_ok fun hfits => ?_
  exact readComponentChecked_eq Decimal.digits_nil rfl (by simpa using h) (Nat.not_lt.1 hfits)

theorem daysInMonthChecked_eq {year month : UInt32} (hpos : 1 ≤ month.toNat)
    (hle : month.toNat ≤ 12) : daysInMonthChecked year month = .ok (daysInMonth year month) := by
  unfold daysInMonthChecked daysInMonth
  refine ite_eq_ok fun _ => ?_
  have hone : Denotes (1 : UInt32) 1 := rfl
  obtain ⟨hsub, hindex⟩ := sub_small (denotes_self month) hone hpos (by omega)
  have hlt : (month - 1).toNat < monthDays.length := by
    rw [denotes_toNat.1 hindex]
    exact Nat.lt_of_le_sub_one (by decide) (Nat.sub_le_sub_right hle 1)
  rw [hsub, ok_bind, read_lt hlt, List.getD_eq_getElem?_getD, List.getElem?_eq_getElem hlt,
    Option.getD_some]

theorem checksChecked_eq (time : CivilTime) : checksChecked time = .ok (checks time) := by
  unfold checksChecked checks
  by_cases hearly : (time.year < 1970 || time.month < 1 || time.month > 12 ||
      time.day < 1 : Bool) = true
  · rw [if_pos hearly, hearly]
    rfl
  · have hmonth := hearly
    simp only [Bool.or_eq_true, decide_eq_true_eq, not_or, gt_iff_lt, UInt32.not_lt,
      UInt32.le_iff_toNat_le] at hmonth
    rw [if_neg hearly, daysInMonthChecked_eq hmonth.1.1.2 hmonth.1.2, ok_bind,
      Bool.eq_false_iff.2 hearly, Bool.false_or]

theorem parseCivilTimeChecked_eq (value : Bytes) :
    parseCivilTimeChecked value = .ok (parseCivilTime value) := by
  have hcomponent (offset : Nat) {length : Nat} (h : length ≤ 9) :=
    @parseComponentChecked_eq value offset length h
  unfold parseCivilTimeChecked parseCivilTime
  rw [hcomponent 0 (by decide), ok_bind, hcomponent 5 (by decide), ok_bind,
    hcomponent 8 (by decide), ok_bind, hcomponent 11 (by decide), ok_bind,
    hcomponent 14 (by decide), ok_bind, hcomponent 17 (by decide), ok_bind]
  cases parseComponent value 0 4 with
  | none => rfl
  | some year =>
    cases parseComponent value 5 2 with
    | none => rfl
    | some month =>
      cases parseComponent value 8 2 with
      | none => rfl
      | some day =>
        cases parseComponent value 11 2 with
        | none => rfl
        | some hour =>
          cases parseComponent value 14 2 with
          | none => rfl
          | some minute =>
            cases parseComponent value 17 2 with
            | none => rfl
            | some second =>
              simp only [checksChecked_eq, ok_bind]
              rfl

def located (value : Bytes) (found : Nat × Nat × UInt64) : Nat × UInt64 × Bytes :=
  (found.2.1, found.2.2, value.drop found.1)

theorem readFractionDigitsChecked_eq {read : Bytes} {before : UInt64} (value : Bytes)
    (cursor : Nat) (hread : Decimal.Digits read) (hlength : read.length ≤ 9)
    (hbefore : Denotes before (Decimal.ofDigits read)) :
    ∃ result, readFractionDigitsChecked value cursor read.length before = .ok result ∧
      readFractionDigits read.length before (value.drop cursor) = result.map (located value) := by
  rw [readFractionDigitsChecked]
  by_cases hcursor : cursor < value.length
  · rw [if_pos hcursor, read_lt hcursor, ok_bind, List.drop_eq_getElem_cons hcursor,
      readFractionDigits]
    by_cases hend : value[cursor] = zulu
    · rw [if_pos hend, if_pos hend, ← List.drop_eq_getElem_cons hcursor]
      exact ⟨_, rfl, rfl⟩
    · rw [if_neg hend, if_neg hend]
      by_cases hstop : (decide (read.length = 9) || !Decimal.isDigit value[cursor]) = true
      · rw [if_pos hstop, if_pos hstop]
        exact ⟨none, rfl, rfl⟩
      · obtain ⟨hshort, hdigit⟩ :
            read.length ≠ 9 ∧ Decimal.isDigit value[cursor] = true := by simpa using hstop
        have hdigits := digits_concat hread hdigit
        have hten : Denotes (10 : UInt64) 10 := rfl
        obtain ⟨hmul, hadd, hnext⟩ :=
          digit_step hdigits (by omega) hbefore hten (denotes_digit hdigit)
        rw [if_neg hstop, if_neg hstop, hmul, ok_bind, hadd, ok_bind]
        have hstep := readFractionDigitsChecked_eq value (cursor + 1) hdigits (by simp; omega)
          hnext
        rwa [List.length_append, List.length_singleton] at hstep
  · rw [if_neg hcursor, List.drop_eq_nil_of_le (Nat.not_lt.1 hcursor), readFractionDigits]
    refine ⟨_, rfl, ?_⟩
    rw [Option.map_some, located, List.drop_eq_nil_of_le (Nat.not_lt.1 hcursor)]
termination_by value.length - cursor

theorem parseFractionChecked_eq (hlength : 20 ≤ value.length) :
    ∃ result, parseFractionChecked value = .ok result ∧
      parseFraction value = result.map (located value) := by
  have hdrop := List.drop_eq_getElem_cons hlength
  unfold parseFractionChecked
  rw [read_lt hlength, ok_bind]
  by_cases hdot : value[19] = dot
  · obtain ⟨result, hok, hresult⟩ :=
      @readFractionDigitsChecked_eq [] 0 value 20 Decimal.digits_nil (by decide) rfl
    rw [if_pos hdot, parseFraction_of_dot (hdot ▸ hdrop)]
    simp only [List.length_nil] at hok hresult
    rw [hok, ok_bind, hresult]
    cases result with
    | none => exact ⟨none, rfl, rfl⟩
    | some found =>
      refine ⟨_, rfl, ?_⟩
      simp only [Option.map_some, Option.bind_some, located]
      split <;> rfl
  · have hno (rest : Bytes) : value.drop 19 ≠ dot :: rest := fun heq =>
      hdot (List.cons.inj (hdrop.symm.trans heq)).1
    rw [if_neg hdot, parseFraction_of_no_dot hno]
    exact ⟨_, rfl, rfl⟩

theorem endsChecked_eq (value : Bytes) (cursor : Nat) :
    endsChecked value cursor = .ok (value.drop cursor == [zulu]) := by
  unfold endsChecked
  by_cases hend : cursor + 1 = value.length
  · have hcursor : cursor < value.length := by omega
    rw [if_neg (not_not_intro hend), read_lt hcursor, ok_bind,
      List.drop_eq_getElem_cons hcursor, List.drop_eq_nil_of_le hend.ge]
    simp
  · have hne : value.drop cursor ≠ [zulu] := by
      intro heq
      have hlength := congrArg List.length heq
      rw [List.length_drop, List.length_singleton] at hlength
      omega
    rw [if_pos hend, beq_eq_false_iff_ne.2 hne]

theorem valid_of_parseCivilTime {time : CivilTime} (h : hasSeparators value = true)
    (htime : parseCivilTime value = some time) : time.Valid := by
  obtain ⟨year, month, day, hour, minute, second, rest, hlengths, rfl, -⟩ := exists_layout h
  rw [parseCivilTime_layout hlengths, civilTimeOf_eq_some_iff hlengths] at htime
  exact htime.2.2.2.2.2.2

theorem toNat_fraction_scaled_lt {count : Nat} {fraction : UInt64}
    (h : parseFraction value = some (count, fraction, [zulu])) :
    fraction.toNat * 10 ^ (9 - count) < 10 ^ 9 := by
  obtain ⟨digits, -, hwell, rfl, hvalue⟩ := parseFraction_iff.1 h
  rw [hvalue]
  cases digits with
  | none => exact ofDigits_scaled_lt Decimal.digits_nil (by simp)
  | some digits =>
    obtain ⟨-, hdigits, hle⟩ := hwell digits rfl
    exact ofDigits_scaled_lt hdigits hle

theorem parseTimestampNsChecked_eq (value : Bytes) :
    parseTimestampNsChecked value = .ok (parseTimestampNs value) := by
  unfold parseTimestampNsChecked parseTimestampNs
  rw [hasSeparatorsChecked_eq, ok_bind]
  by_cases hseparators : hasSeparators value = true
  · have hlength := (hasSeparators_iff.1 hseparators).1
    obtain ⟨result, hok, hresult⟩ := parseFractionChecked_eq hlength
    simp only [hseparators, Bool.not_true, Bool.false_eq_true, if_false, parseCivilTimeChecked_eq,
      ok_bind]
    cases htime : parseCivilTime value with
    | none => rfl
    | some time =>
      have hvalid := valid_of_parseCivilTime hseparators htime
      simp only [hok, ok_bind]
      cases result with
      | none =>
        rw [hresult]
        rfl
      | some found =>
        obtain ⟨cursor, count, fraction⟩ := found
        simp only [hresult, Option.map_some, located, endsChecked_eq, ok_bind]
        by_cases hend : value.drop cursor = [zulu]
        · have hscaled : fraction.toNat * 10 ^ (9 - count) < 10 ^ 9 := by
            refine @toNat_fraction_scaled_lt value count fraction ?_
            rw [hresult, Option.map_some, located, hend]
          simp [hend, scaleByTenChecked_eq (hscaled.trans (by decide)), ok_bind,
            (nanosecondsChecked_eq hvalid _).1]
        · simp [hend]
  · simp [hseparators]

theorem parseTimestampNs_exact (value : Bytes) :
    ((parseTimestampNs value).isSome ↔
      ∃ s : Stamp, s.text = value ∧ s.nanoseconds ≤ 2 ^ 64 - 1) ∧
    (∀ ns, parseTimestampNs value = some ns → ∀ s : Stamp, s.text = value →
      ns.toNat = s.nanoseconds) ∧
    parseTimestampNsChecked value = .ok (parseTimestampNs value) := by
  refine ⟨parseTimestampNs_isSome_iff value, ?_, parseTimestampNsChecked_eq value⟩
  rintro ns h s rfl
  exact (s.parseTimestampNs_text ns).1 h

def lastStamp : Stamp where
  time := { year := 2554, month := 7, day := 21, hour := 23, minute := 34, second := 33 }
  fraction := some (ascii "709551615")
  valid := by constructor <;> decide
  fraction_wellFormed := by
    rintro _ ⟨⟩
    decide

theorem parseTimestampNs_exact_last :
    (∃ s : Stamp, s.text = ascii "2554-07-21T23:34:33.709551615Z" ∧
      s.nanoseconds ≤ 2 ^ 64 - 1) ∧
    (0xffffffffffffffff : UInt64).toNat = lastStamp.nanoseconds :=
  ⟨(parseTimestampNs_exact _).1.1 (by decide +kernel),
    (parseTimestampNs_exact (ascii "2554-07-21T23:34:33.709551615Z")).2.1 _ (by decide +kernel)
      lastStamp (by decide +kernel)⟩

end BengalMarket
