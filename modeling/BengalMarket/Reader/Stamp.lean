import BengalMarket.Reader.CivilTime

namespace BengalMarket

open Calendar

def hyphen : UInt8 := 45

def colon : UInt8 := 58

def letterT : UInt8 := 84

def layout (year month day hour minute second rest : Bytes) : Bytes :=
  year ++ hyphen :: (month ++ hyphen :: (day ++ letterT :: (hour ++ colon :: (minute ++ colon ::
    (second ++ rest)))))

structure PartLengths (year month day hour minute second : Bytes) : Prop where
  year : year.length = 4
  month : month.length = 2
  day : day.length = 2
  hour : hour.length = 2
  minute : minute.length = 2
  second : second.length = 2

theorem drop_eq_cons {value : Bytes} {index : Nat} {character : UInt8}
    (h : value[index]? = some character) :
    character :: value.drop (index + 1) = value.drop index := by
  obtain ⟨hlt, rfl⟩ := List.getElem?_eq_some_iff.1 h
  exact (List.drop_eq_getElem_cons hlt).symm

theorem take_append_drop (value : Bytes) (index length : Nat) :
    (value.drop index).take length ++ value.drop (index + length) = value.drop index := by
  rw [← List.drop_drop, List.take_append_drop]

theorem hasSeparators_iff {value : Bytes} : hasSeparators value = true ↔
    20 ≤ value.length ∧ value[4]? = some hyphen ∧ value[7]? = some hyphen ∧
      value[10]? = some letterT ∧ value[13]? = some colon ∧ value[16]? = some colon := by
  simp [hasSeparators, hyphen, letterT, colon, and_assoc]

theorem exists_layout {value : Bytes} (h : hasSeparators value = true) :
    ∃ year month day hour minute second rest,
      PartLengths year month day hour minute second ∧
        value = layout year month day hour minute second rest ∧ rest = value.drop 19 := by
  obtain ⟨hlength, h4, h7, h10, h13, h16⟩ := hasSeparators_iff.1 h
  refine ⟨value.take 4, (value.drop 5).take 2, (value.drop 8).take 2, (value.drop 11).take 2,
    (value.drop 14).take 2, (value.drop 17).take 2, value.drop 19, ?_, ?_, rfl⟩
  · constructor <;> simp <;> omega
  · rw [layout, take_append_drop value 17 2, drop_eq_cons h16, take_append_drop value 14 2,
      drop_eq_cons h13, take_append_drop value 11 2, drop_eq_cons h10, take_append_drop value 8 2,
      drop_eq_cons h7, take_append_drop value 5 2, drop_eq_cons h4, List.take_append_drop]

variable {year month day hour minute second rest : Bytes}

theorem hasSeparators_layout (h : PartLengths year month day hour minute second)
    (hrest : rest ≠ []) : hasSeparators (layout year month day hour minute second rest) = true := by
  obtain ⟨y₁, y₂, y₃, y₄, rfl⟩ := List.length_eq_four.1 h.year
  obtain ⟨m₁, m₂, rfl⟩ := List.length_eq_two.1 h.month
  obtain ⟨d₁, d₂, rfl⟩ := List.length_eq_two.1 h.day
  obtain ⟨h₁, h₂, rfl⟩ := List.length_eq_two.1 h.hour
  obtain ⟨n₁, n₂, rfl⟩ := List.length_eq_two.1 h.minute
  obtain ⟨s₁, s₂, rfl⟩ := List.length_eq_two.1 h.second
  have hpos := List.length_pos_of_ne_nil hrest
  rw [hasSeparators_iff]
  refine ⟨?_, rfl, rfl, rfl, rfl, rfl⟩
  simp [layout]
  omega

theorem drop_layout (h : PartLengths year month day hour minute second) :
    (layout year month day hour minute second rest).drop 19 = rest := by
  obtain ⟨y₁, y₂, y₃, y₄, rfl⟩ := List.length_eq_four.1 h.year
  obtain ⟨m₁, m₂, rfl⟩ := List.length_eq_two.1 h.month
  obtain ⟨d₁, d₂, rfl⟩ := List.length_eq_two.1 h.day
  obtain ⟨h₁, h₂, rfl⟩ := List.length_eq_two.1 h.hour
  obtain ⟨n₁, n₂, rfl⟩ := List.length_eq_two.1 h.minute
  obtain ⟨s₁, s₂, rfl⟩ := List.length_eq_two.1 h.second
  rfl

theorem parseComponent_append (before part after : Bytes) :
    parseComponent (before ++ (part ++ after)) before.length part.length =
      readComponent 0 part := by
  have hfits : ¬ before.length + part.length > (before ++ (part ++ after)).length := by
    simp only [List.length_append]
    omega
  rw [parseComponent, if_neg hfits, List.drop_left, List.take_left]

def civilTimeOf (year month day hour minute second : Bytes) : Option CivilTime := do
  let year ← readComponent 0 year
  let month ← readComponent 0 month
  let day ← readComponent 0 day
  let hour ← readComponent 0 hour
  let minute ← readComponent 0 minute
  let second ← readComponent 0 second
  if year < 1970 || month < 1 || month > 12 || day < 1 || day > daysInMonth year month ||
      hour > 23 || minute > 59 || second > 59 then none
  else some { year, month, day, hour, minute, second }

theorem parseCivilTime_layout (h : PartLengths year month day hour minute second) :
    parseCivilTime (layout year month day hour minute second rest) =
      civilTimeOf year month day hour minute second := by
  obtain ⟨y₁, y₂, y₃, y₄, rfl⟩ := List.length_eq_four.1 h.year
  obtain ⟨m₁, m₂, rfl⟩ := List.length_eq_two.1 h.month
  obtain ⟨d₁, d₂, rfl⟩ := List.length_eq_two.1 h.day
  obtain ⟨h₁, h₂, rfl⟩ := List.length_eq_two.1 h.hour
  obtain ⟨n₁, n₂, rfl⟩ := List.length_eq_two.1 h.minute
  obtain ⟨s₁, s₂, rfl⟩ := List.length_eq_two.1 h.second
  have hyear := parseComponent_append [] [y₁, y₂, y₃, y₄]
    (hyphen :: m₁ :: m₂ :: hyphen :: d₁ :: d₂ :: letterT :: h₁ :: h₂ :: colon :: n₁ :: n₂ ::
      colon :: s₁ :: s₂ :: rest)
  have hmonth := parseComponent_append [y₁, y₂, y₃, y₄, hyphen] [m₁, m₂]
    (hyphen :: d₁ :: d₂ :: letterT :: h₁ :: h₂ :: colon :: n₁ :: n₂ :: colon :: s₁ :: s₂ :: rest)
  have hday := parseComponent_append [y₁, y₂, y₃, y₄, hyphen, m₁, m₂, hyphen] [d₁, d₂]
    (letterT :: h₁ :: h₂ :: colon :: n₁ :: n₂ :: colon :: s₁ :: s₂ :: rest)
  have hhour := parseComponent_append
    [y₁, y₂, y₃, y₄, hyphen, m₁, m₂, hyphen, d₁, d₂, letterT] [h₁, h₂]
    (colon :: n₁ :: n₂ :: colon :: s₁ :: s₂ :: rest)
  have hminute := parseComponent_append
    [y₁, y₂, y₃, y₄, hyphen, m₁, m₂, hyphen, d₁, d₂, letterT, h₁, h₂, colon] [n₁, n₂]
    (colon :: s₁ :: s₂ :: rest)
  have hsecond := parseComponent_append
    [y₁, y₂, y₃, y₄, hyphen, m₁, m₂, hyphen, d₁, d₂, letterT, h₁, h₂, colon, n₁, n₂, colon]
    [s₁, s₂] rest
  unfold parseCivilTime civilTimeOf
  rw [← hyear, ← hmonth, ← hday, ← hhour, ← hminute, ← hsecond]
  rfl

section Components

open Checked

theorem denotes_digit32 {character : UInt8} (hdigit : Decimal.isDigit character = true) :
    Denotes (UInt32.ofNat (Decimal.digitValue character)) (Decimal.digitValue character) :=
  denotes_toNat.2 (UInt32.toNat_ofNat_of_lt' ((Decimal.digitValue_lt hdigit).trans (by decide)))

theorem readComponent_eq_some_iff {read rest : Bytes} {before component : UInt32}
    (hread : Decimal.Digits read) (hbefore : Denotes before (Decimal.ofDigits read))
    (hlength : (read ++ rest).length ≤ 9) :
    readComponent before rest = some component ↔
      Decimal.Digits rest ∧ component.toNat = Decimal.ofDigits (read ++ rest) := by
  induction rest generalizing read before with
  | nil =>
    rw [readComponent, Option.some.injEq, ← UInt32.toNat_inj, denotes_toNat.1 hbefore,
      List.append_nil]
    simp [Decimal.digits_nil, eq_comm]
  | cons character rest ih =>
    rw [readComponent]
    by_cases hdigit : Decimal.isDigit character = true
    · have hdigits := digits_concat hread hdigit
      have hsplit : read ++ character :: rest = read ++ [character] ++ rest := by simp
      have hshort : read.length < 9 := by simp at hlength; omega
      have hten : Denotes (10 : UInt32) 10 := rfl
      obtain ⟨-, -, hnext⟩ := digit_step hdigits hshort hbefore hten (denotes_digit32 hdigit)
      rw [if_pos hdigit, hsplit, ih hdigits hnext (hsplit ▸ hlength)]
      simp [hdigit]
    · rw [if_neg hdigit]
      simp [hdigit]

def ReadAs (part : Bytes) (component : UInt32) : Prop :=
  Decimal.Digits part ∧ component.toNat = Decimal.ofDigits part

theorem readComponent_iff {part : Bytes} {component : UInt32} (hlength : part.length ≤ 9) :
    readComponent 0 part = some component ↔ ReadAs part component :=
  @readComponent_eq_some_iff [] part 0 component Decimal.digits_nil rfl hlength

theorem toNat_isLeapYear (year : UInt32) : isLeapYear year = isLeap year.toNat := by
  have hmod (n : UInt32) (m k : Nat) (hn : n.toNat = m) : year % n = UInt32.ofNat k ↔
      year.toNat % m = (UInt32.ofNat k).toNat := by
    rw [← UInt32.toNat_inj, UInt32.toNat_mod, hn]
  have h4 := hmod 4 4 0 rfl
  have h100 := hmod 100 100 0 rfl
  have h400 := hmod 400 400 0 rfl
  rw [Bool.eq_iff_iff, isLeapYear, isLeap]
  simp only [Bool.and_eq_true, Bool.or_eq_true, beq_iff_eq, bne_iff_ne, ne_eq]
  exact and_congr h4 (or_congr (not_congr h100) h400)

theorem toNat_daysInMonth {year month : UInt32} (hpos : 1 ≤ month.toNat) (hle : month.toNat ≤ 12) :
    (daysInMonth year month).toNat = monthLength year.toNat month.toNat := by
  have hmonth : month = UInt32.ofNat month.toNat := UInt32.ofNat_toNat.symm
  have hleap := toNat_isLeapYear year
  generalize month.toNat = m at hpos hle hmonth ⊢
  subst hmonth
  unfold daysInMonth monthLength monthLengths
  rw [hleap]
  cases isLeap year.toNat <;> interval_cases m <;> rfl

def checks (time : CivilTime) : Bool :=
  time.year < 1970 || time.month < 1 || time.month > 12 || time.day < 1 ||
    time.day > daysInMonth time.year time.month || time.hour > 23 || time.minute > 59 ||
    time.second > 59

theorem checks_eq_false_iff {time : CivilTime} (hlt : time.year.toNat < 10000) :
    checks time = false ↔ time.Valid := by
  have hlarge {a b : UInt32} : ¬ a > b ↔ a.toNat ≤ b.toNat := by
    rw [gt_iff_lt, UInt32.not_lt, UInt32.le_iff_toNat_le]
  simp only [checks, Bool.or_eq_false_iff, decide_eq_false_iff_not, hlarge]
  constructor
  · rintro ⟨⟨⟨⟨⟨⟨⟨hyear, hmonth⟩, hmonth'⟩, hday⟩, hday'⟩, hhour⟩, hminute⟩, hsecond⟩
    rw [toNat_daysInMonth hmonth hmonth'] at hday'
    exact ⟨hyear, hlt, hmonth, hmonth', hday, hday', hhour, hminute, hsecond⟩
  · rintro ⟨hyear, -, hmonth, hmonth', hday, hday', hhour, hminute, hsecond⟩
    rw [← toNat_daysInMonth hmonth hmonth'] at hday'
    exact ⟨⟨⟨⟨⟨⟨⟨hyear, hmonth⟩, hmonth'⟩, hday⟩, hday'⟩, hhour⟩, hminute⟩, hsecond⟩

theorem civilTimeOf_eq_some_iff {year month day hour minute second : Bytes} {time : CivilTime}
    (h : PartLengths year month day hour minute second) :
    civilTimeOf year month day hour minute second = some time ↔
      ReadAs year time.year ∧ ReadAs month time.month ∧ ReadAs day time.day ∧
        ReadAs hour time.hour ∧ ReadAs minute time.minute ∧ ReadAs second time.second ∧
        time.Valid := by
  have hread {part : Bytes} {length : Nat} (hlength : part.length = length) (hle : length ≤ 9)
      (component : UInt32) : readComponent 0 part = some component ↔ ReadAs part component :=
    readComponent_iff (hlength.trans_le hle)
  have hlt {time : CivilTime} (hyear : ReadAs year time.year) : time.year.toNat < 10000 := by
    rw [hyear.2]
    exact (Decimal.ofDigits_lt hyear.1).trans_eq (by rw [h.year]; rfl)
  simp only [civilTimeOf, bind, Option.bind_eq_some_iff, hread h.year (by decide),
    hread h.month (by decide), hread h.day (by decide), hread h.hour (by decide),
    hread h.minute (by decide), hread h.second (by decide)]
  constructor
  · rintro ⟨y, hy, m, hm, d, hd, o, ho, n, hn, c, hc, hchecks⟩
    split at hchecks
    · cases hchecks
    · rename_i hfalse
      cases hchecks
      exact ⟨hy, hm, hd, ho, hn, hc, (checks_eq_false_iff (hlt hy)).1 (Bool.eq_false_iff.2 hfalse)⟩
  · rintro ⟨hy, hm, hd, ho, hn, hc, hvalid⟩
    refine ⟨_, hy, _, hm, _, hd, _, ho, _, hn, _, hc, ?_⟩
    exact if_neg (Bool.eq_false_iff.1 ((checks_eq_false_iff (hlt hy)).2 hvalid))

end Components

section Fraction

theorem exists_cons_eq_concat {character last : UInt8} {rest : Bytes} {P : Bytes → Prop} :
    (∃ digits, character :: rest = digits ++ [last] ∧ P digits) ↔
      (character = last ∧ rest = [] ∧ P []) ∨
        ∃ digits, rest = digits ++ [last] ∧ P (character :: digits) := by
  constructor
  · rintro ⟨_ | ⟨first, digits⟩, heq, h⟩
    · obtain ⟨hcharacter, hrest⟩ := List.cons.inj heq
      exact .inl ⟨hcharacter, hrest, h⟩
    · obtain ⟨rfl, hrest⟩ := List.cons.inj heq
      exact .inr ⟨digits, hrest, h⟩
  · rintro (⟨rfl, rfl, h⟩ | ⟨digits, rfl, h⟩)
    · exact ⟨[], rfl, h⟩
    · exact ⟨character :: digits, rfl, h⟩

theorem readFractionDigits_iff {read rest : Bytes} {before fraction : UInt64} {count : Nat}
    (hread : Decimal.Digits read) (hlength : read.length ≤ 9)
    (hbefore : Checked.Denotes before (Decimal.ofDigits read)) :
    readFractionDigits read.length before rest = some (count, fraction, [zulu]) ↔
      ∃ digits, rest = digits ++ [zulu] ∧ Decimal.Digits digits ∧
        count = (read ++ digits).length ∧ count ≤ 9 ∧
        fraction.toNat = Decimal.ofDigits (read ++ digits) := by
  have hzulu : Decimal.isDigit zulu = false := rfl
  induction rest generalizing read before with
  | nil => simp [readFractionDigits]
  | cons character rest ih =>
    rw [readFractionDigits, exists_cons_eq_concat]
    by_cases hend : character = zulu
    · have hvalue := denotes_uint64.1 hbefore
      subst hend
      simp only [if_pos, Option.some.injEq, Prod.mk.injEq, List.cons.injEq, true_and,
        Decimal.digits_cons_iff, hzulu, Bool.false_eq_true, false_and, and_false, exists_false,
        or_false, Decimal.digits_nil, List.append_nil, ← hvalue, UInt64.toNat_inj]
      constructor
      · rintro ⟨rfl, rfl, rfl⟩
        exact ⟨rfl, rfl, hlength, rfl⟩
      · rintro ⟨rfl, rfl, -, rfl⟩
        exact ⟨rfl, rfl, rfl⟩
    · rw [if_neg hend]
      simp only [hend, false_and, false_or]
      by_cases hstop : (decide (read.length = 9) || !Decimal.isDigit character) = true
      · rw [if_pos hstop]
        simp only [reduceCtorEq, false_iff]
        rintro ⟨digits, rfl, hdigits, rfl, hle, -⟩
        have hdigit := (Decimal.digits_cons_iff.1 hdigits).1
        simp only [hdigit, Bool.not_true, Bool.or_false, decide_eq_true_eq] at hstop
        simp [hstop] at hle
      · obtain ⟨hshort, hdigit⟩ : read.length ≠ 9 ∧ Decimal.isDigit character = true := by
          simpa using hstop
        have hdigits := digits_concat hread hdigit
        have hten : Checked.Denotes (10 : UInt64) 10 := rfl
        obtain ⟨-, -, hnext⟩ := digit_step hdigits (by omega) hbefore hten (denotes_digit hdigit)
        have hstep := ih hdigits (by simp; omega) hnext
        rw [List.length_append, List.length_singleton] at hstep
        rw [if_neg hstop]
        refine hstep.trans ?_
        simp [hdigit, Decimal.digits_cons_iff]

def FractionWellFormed (fraction : Option Bytes) : Prop :=
  ∀ digits ∈ fraction, digits ≠ [] ∧ Decimal.Digits digits ∧ digits.length ≤ 9

theorem parseFraction_of_dot {value rest : Bytes} (h : value.drop 19 = dot :: rest) :
    parseFraction value = (readFractionDigits 0 0 rest).bind fun found =>
      if found.1 = 0 then none else some found := by
  unfold parseFraction
  rw [h]
  simp only [dot]
  cases readFractionDigits 0 0 rest <;> rfl

theorem parseFraction_of_no_dot {value : Bytes} (h : ∀ rest, value.drop 19 ≠ dot :: rest) :
    parseFraction value = some (0, 0, value.drop 19) := by
  unfold parseFraction
  split
  · rename_i rest hdrop
    exact absurd hdrop (h rest)
  · rfl

theorem parseFraction_iff {value : Bytes} {count : Nat} {fraction : UInt64} :
    parseFraction value = some (count, fraction, [zulu]) ↔
      ∃ digits, value.drop 19 = Spelling.fractionText digits ++ [zulu] ∧
        FractionWellFormed digits ∧ count = (digits.getD []).length ∧
        fraction.toNat = Decimal.ofDigits (digits.getD []) := by
  by_cases hdot : ∃ rest, value.drop 19 = dot :: rest
  · obtain ⟨rest, hrest⟩ := hdot
    have hread (count : Nat) (fraction : UInt64) := @readFractionDigits_iff [] rest 0 fraction
      count Decimal.digits_nil (by decide) rfl
    simp only [List.nil_append, List.length_nil] at hread
    rw [parseFraction_of_dot hrest, hrest, Option.bind_eq_some_iff]
    constructor
    · rintro ⟨found, hfound, hnonzero⟩
      split at hnonzero
      · cases hnonzero
      · rename_i hne
        cases hnonzero
        obtain ⟨digits, rfl, hdigits, rfl, hle, hvalue⟩ := (hread _ _).1 hfound
        refine ⟨some digits, rfl, ?_, rfl, hvalue⟩
        rintro _ ⟨⟩
        exact ⟨List.ne_nil_of_length_pos (Nat.pos_of_ne_zero hne), hdigits, hle⟩
    · rintro ⟨digits | digits, htext, hwell, rfl, hvalue⟩
      · exact absurd (List.cons.inj htext).1 (by decide)
      · obtain ⟨hne, hdigits, hle⟩ := hwell digits rfl
        refine ⟨_, (hread _ _).2 ⟨digits, (List.cons.inj htext).2, hdigits, rfl, hle, hvalue⟩, ?_⟩
        exact if_neg (List.length_pos_of_ne_nil hne).ne'
  · simp only [not_exists] at hdot
    rw [parseFraction_of_no_dot hdot, Option.some.injEq, Prod.mk.injEq, Prod.mk.injEq]
    constructor
    · rintro ⟨rfl, rfl, hrest⟩
      refine ⟨none, hrest, ?_, rfl, rfl⟩
      rintro _ ⟨⟩
    · rintro ⟨digits | digits, htext, -, rfl, hvalue⟩
      · exact ⟨rfl, UInt64.toNat.inj hvalue.symm, htext⟩
      · exact absurd htext (hdot _)

end Fraction

structure Stamp where
  time : CivilTime
  fraction : Option Bytes
  valid : time.Valid
  fraction_wellFormed : FractionWellFormed fraction

namespace Stamp

def text (s : Stamp) : Bytes :=
  layout (Decimal.padded 4 s.time.year.toNat) (Decimal.padded 2 s.time.month.toNat)
    (Decimal.padded 2 s.time.day.toNat) (Decimal.padded 2 s.time.hour.toNat)
    (Decimal.padded 2 s.time.minute.toNat) (Decimal.padded 2 s.time.second.toNat)
    (Spelling.fractionText s.fraction ++ [zulu])

def nanoseconds (s : Stamp) : Nat :=
  s.time.instant * 10 ^ 9 +
    Decimal.ofDigits (s.fraction.getD []) * 10 ^ (9 - (s.fraction.getD []).length)

theorem length_fraction_le (s : Stamp) : (s.fraction.getD []).length ≤ 9 := by
  cases h : s.fraction with
  | none => simp
  | some digits => exact (s.fraction_wellFormed digits h).2.2

theorem digits_fraction (s : Stamp) : Decimal.Digits (s.fraction.getD []) := by
  cases h : s.fraction with
  | none => exact Decimal.digits_nil
  | some digits => exact (s.fraction_wellFormed digits h).2.1

theorem partLengths (s : Stamp) :
    PartLengths (Decimal.padded 4 s.time.year.toNat) (Decimal.padded 2 s.time.month.toNat)
      (Decimal.padded 2 s.time.day.toNat) (Decimal.padded 2 s.time.hour.toNat)
      (Decimal.padded 2 s.time.minute.toNat) (Decimal.padded 2 s.time.second.toNat) := by
  have hday := s.valid.day_le.trans (monthLength_le _ _)
  have htwo {n bound : Nat} (hle : n ≤ bound) (hbound : bound < 100) :
      (Decimal.padded 2 n).length = 2 := Decimal.length_padded (hle.trans_lt hbound) (by decide)
  exact {
    year := Decimal.length_padded s.valid.year_lt (by decide)
    month := htwo s.valid.month_le (by decide)
    day := htwo hday (by decide)
    hour := htwo s.valid.hour_le (by decide)
    minute := htwo s.valid.minute_le (by decide)
    second := htwo s.valid.second_le (by decide) }

theorem parseCivilTime_text (s : Stamp) : parseCivilTime s.text = some s.time := by
  have hread (width : Nat) (component : UInt32) :
      ReadAs (Decimal.padded width component.toNat) component :=
    ⟨Decimal.digits_padded _ _, (Decimal.ofDigits_padded _ _).symm⟩
  rw [text, parseCivilTime_layout s.partLengths, civilTimeOf_eq_some_iff s.partLengths]
  exact ⟨hread 4 _, hread 2 _, hread 2 _, hread 2 _, hread 2 _, hread 2 _, s.valid⟩

theorem scaled_lt (s : Stamp) : Decimal.ofDigits (s.fraction.getD []) *
    10 ^ (9 - (s.fraction.getD []).length) < 2 ^ 64 :=
  (ofDigits_scaled_lt s.digits_fraction s.length_fraction_le).trans (by decide)

theorem parseTimestampNs_text (s : Stamp) (ns : UInt64) :
    parseTimestampNs s.text = some ns ↔ ns.toNat = s.nanoseconds := by
  have hseparators : hasSeparators s.text = true := hasSeparators_layout s.partLengths (by simp)
  have hlt : Decimal.ofDigits (s.fraction.getD []) < 2 ^ 64 :=
    (Nat.le_mul_of_pos_right _ (Nat.pow_pos (by decide))).trans_lt s.scaled_lt
  have hvalue := UInt64.toNat_ofNat_of_lt' hlt
  have hfraction : parseFraction s.text = some ((s.fraction.getD []).length,
      UInt64.ofNat (Decimal.ofDigits (s.fraction.getD [])), [zulu]) :=
    parseFraction_iff.2 ⟨s.fraction, drop_layout s.partLengths, s.fraction_wellFormed, rfl, hvalue⟩
  have hscaled := s.scaled_lt
  rw [← hvalue] at hscaled
  unfold parseTimestampNs
  rw [hseparators, s.parseCivilTime_text, hfraction]
  simp only [Bool.not_true, Bool.false_eq_true, if_false, ne_eq, not_true_eq_false]
  rw [(nanosecondsChecked_eq s.valid _).2 ns, toNat_scaleByTen hscaled, hvalue]
  rfl

end Stamp

theorem ReadAs.padded_eq {part : Bytes} {component : UInt32} {width : Nat}
    (h : ReadAs part component) (hlength : part.length = width) (hpos : 0 < width) :
    Decimal.padded width component.toNat = part := by
  rw [h.2, ← hlength]
  exact Decimal.padded_ofDigits (List.ne_nil_of_length_pos (hlength ▸ hpos)) h.1

theorem exists_stamp {value : Bytes} {ns : UInt64} (h : parseTimestampNs value = some ns) :
    ∃ s : Stamp, s.text = value := by
  unfold parseTimestampNs at h
  split at h
  · cases h
  · rename_i hseparators
    obtain ⟨year, month, day, hour, minute, second, rest, hlengths, rfl, hrest⟩ :=
      exists_layout (by simpa using hseparators)
    split at h
    · rename_i time count fraction unread htime hfraction
      split at h
      · cases h
      · rename_i hunread
        obtain rfl : unread = [zulu] := Decidable.not_not.1 hunread
        obtain ⟨digits, hdrop, hwell, -, -⟩ := parseFraction_iff.1 hfraction
        rw [parseCivilTime_layout hlengths, civilTimeOf_eq_some_iff hlengths] at htime
        obtain ⟨hyear, hmonth, hday, hhour, hminute, hsecond, hvalid⟩ := htime
        refine ⟨⟨time, digits, hvalid, hwell⟩, ?_⟩
        rw [Stamp.text, hyear.padded_eq hlengths.year (by decide),
          hmonth.padded_eq hlengths.month (by decide), hday.padded_eq hlengths.day (by decide),
          hhour.padded_eq hlengths.hour (by decide),
          hminute.padded_eq hlengths.minute (by decide),
          hsecond.padded_eq hlengths.second (by decide), ← hdrop, drop_layout hlengths]
    · cases h

theorem parseTimestampNs_isSome_iff (value : Bytes) :
    (parseTimestampNs value).isSome ↔
      ∃ s : Stamp, s.text = value ∧ s.nanoseconds ≤ 2 ^ 64 - 1 := by
  rw [Option.isSome_iff_exists]
  constructor
  · rintro ⟨ns, hns⟩
    obtain ⟨s, rfl⟩ := exists_stamp hns
    refine ⟨s, rfl, ?_⟩
    rw [← (s.parseTimestampNs_text ns).1 hns]
    exact Nat.le_pred_of_lt ns.toNat_lt
  · rintro ⟨s, rfl, hle⟩
    refine ⟨UInt64.ofNat s.nanoseconds, (s.parseTimestampNs_text _).2 ?_⟩
    exact UInt64.toNat_ofNat_of_lt' (Nat.lt_of_le_pred (by decide) hle)

end BengalMarket
