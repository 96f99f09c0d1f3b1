import BengalMarket.Reader.Spelling

namespace BengalMarket

open Checked

def readFractionChecked (fraction : UInt64) : Bytes → Except Fault (Option UInt64)
  | [] => .ok (some fraction)
  | character :: rest =>
    if Decimal.isDigit character then do
      let tens ← mul fraction 10
      let next ← add tens (UInt64.ofNat (Decimal.digitValue character))
      readFractionChecked next rest
    else .ok none

def scaleByTenChecked : Nat → UInt64 → Except Fault UInt64
  | 0, fraction => .ok fraction
  | times + 1, fraction => do
    let next ← mul fraction 10
    scaleByTenChecked times next

def limitChecked (negative : Bool) : Except Fault UInt64 :=
  if negative then add 9223372036854775807 1 else .ok 9223372036854775807

def signedValueChecked (negative : Bool) (magnitude limit : UInt64) :
    Except Fault (Option Int64) :=
  if negative && magnitude == limit then .ok (some Int64.minValue)
  else do
    let signedValue ← convert UInt64.toInt64 magnitude
    if negative then do
      let negated ← neg signedValue
      .ok (some negated)
    else .ok (some signedValue)

def combineChecked (negative : Bool) (whole fraction : UInt64) : Except Fault (Option Int64) := do
  let limit ← limitChecked negative
  let scale := UInt64.ofNat decimalScale
  let bound ← div limit scale
  if whole > bound then .ok none
  else do
    let scaled ← mul whole scale
    let room ← sub limit scaled
    if fraction > room then .ok none
    else do
      let magnitude ← add scaled fraction
      signedValueChecked negative magnitude limit

def parseMagnitudeChecked (negative : Bool) (wholeText fractionText : Bytes) :
    Except Fault (Option Int64) :=
  match fromChars wholeText with
  | none => .ok none
  | some (whole, unread) =>
    if unread ≠ [] then .ok none
    else do
      match ← readFractionChecked 0 fractionText with
      | none => .ok none
      | some digits => do
        let fraction ← scaleByTenChecked (8 - fractionText.length) digits
        combineChecked negative whole fraction

def parseDecimalChecked (value : Bytes) : Except Fault (Option Int64) :=
  match value with
  | [] => .ok none
  | front :: rest =>
    let negative := front == minus
    let value := if front = minus ∨ front = plus then rest else value
    if value = [] then .ok none
    else
      let position := value.findIdx? (· == dot)
      let wholeText := value.take (position.getD value.length)
      let fractionText := match position with
        | none => []
        | some index => value.drop (index + 1)
      if wholeText = [] ∨ fractionText.length > 8 ∨ dot ∈ fractionText then .ok none
      else parseMagnitudeChecked negative wholeText fractionText

theorem readFractionChecked_eq {read rest : Bytes} {before : UInt64}
    (hread : Decimal.Digits read) (hbefore : Denotes before (Decimal.ofDigits read))
    (hlength : (read ++ rest).length ≤ 9) :
    readFractionChecked before rest = .ok (readFraction before rest) := by
  induction rest generalizing read before with
  | nil => rfl
  | cons character rest ih =>
    rw [readFractionChecked, readFraction]
    by_cases hdigit : Decimal.isDigit character = true
    · have hdigits := digits_concat hread hdigit
      have hshort : read.length < 9 := by simp at hlength; omega
      have hten : Denotes (10 : UInt64) 10 := rfl
      obtain ⟨hmul, hadd, hnext⟩ := digit_step hdigits hshort hbefore hten (denotes_digit hdigit)
      rw [if_pos hdigit, if_pos hdigit, hmul, ok_bind, hadd, ok_bind]
      exact ih hdigits hnext (by simpa using hlength)
    · rw [if_neg hdigit, if_neg hdigit]

theorem scaleByTenChecked_eq {times : Nat} {fraction : UInt64}
    (h : fraction.toNat * 10 ^ times < 2 ^ 64) :
    scaleByTenChecked times fraction = .ok (scaleByTen times fraction) := by
  induction times generalizing fraction with
  | zero => rfl
  | succ times ih =>
    have hlt := mul_ten_lt h
    rw [scaleByTenChecked, mul_eq_of_lt hlt, ok_bind, scaleByTen, ih]
    have hten : (fraction * 10).toNat = fraction.toNat * 10 := by
      rw [UInt64.toNat_mul]
      exact Nat.mod_eq_of_lt hlt
    rwa [hten, Nat.mul_assoc, ← Nat.pow_succ']

theorem signedValueChecked_eq {negative : Bool} {magnitude limit : UInt64}
    (hlimit : limit.toNat = limitOf negative) (hle : magnitude.toNat ≤ limitOf negative) :
    signedValueChecked negative magnitude limit =
      .ok (if negative && magnitude == limit then some Int64.minValue
        else some (if negative then -magnitude.toInt64 else magnitude.toInt64)) := by
  unfold signedValueChecked
  by_cases hmin : (negative && magnitude == limit) = true
  · rw [if_pos hmin, if_pos hmin]
  · have hlt : magnitude.toNat < 2 ^ 63 := by
      cases negative with
      | false => exact Nat.lt_of_le_pred (by decide) hle
      | true =>
        refine lt_of_le_of_ne hle fun heq => hmin ?_
        have hsame : magnitude = limit := UInt64.toNat.inj (heq.trans hlimit.symm)
        simp [hsame]
    have hconvert : convert UInt64.toInt64 magnitude = .ok magnitude.toInt64 :=
      exactly_eq (toInt_toInt64 hlt)
    rw [if_neg hmin, if_neg hmin, hconvert, ok_bind]
    cases negative with
    | false => rfl
    | true =>
      have hneg : neg magnitude.toInt64 = .ok (-magnitude.toInt64) := by
        apply exactly_eq
        change (-magnitude.toInt64).toInt = -magnitude.toInt64.toInt
        rw [toInt_neg_toInt64 hlt, toInt_toInt64 hlt]
      simp only [if_true, hneg, ok_bind]

theorem combineChecked_eq (negative : Bool) (whole fraction : UInt64) :
    combineChecked negative whole fraction = .ok (combine negative whole fraction) := by
  obtain ⟨limit, hdef, hlimit⟩ := exists_limit negative
  have hchecked : limitChecked negative = .ok limit := by
    rw [← hdef]
    cases negative <;> rfl
  have hscale : 0 < (UInt64.ofNat decimalScale).toNat := by decide
  unfold combineChecked combine
  rw [hdef, hchecked, ok_bind]
  simp only [div_eq_of_pos hscale, ok_bind]
  by_cases hwhole : whole > limit / UInt64.ofNat decimalScale
  · rw [if_pos hwhole, if_pos hwhole]
  · have hfits := whole_fits_iff.1 hwhole
    have hscaled := toNat_scaled hfits
    have hmul : whole.toNat * (UInt64.ofNat decimalScale).toNat < 2 ^ 64 :=
      hfits.trans_lt limit.toNat_lt
    rw [if_neg hwhole, if_neg hwhole, mul_eq_of_lt hmul, ok_bind,
      sub_eq_of_le (hscaled.symm ▸ hfits), ok_bind]
    by_cases hfraction : fraction > limit - whole * UInt64.ofNat decimalScale
    · rw [if_pos hfraction, if_pos hfraction]
    · have hroom := (fraction_fits_iff hfits).1 hfraction
      have hadd : (whole * UInt64.ofNat decimalScale).toNat + fraction.toNat < 2 ^ 64 := by
        rw [hscaled]
        exact hroom.trans_lt limit.toNat_lt
      rw [if_neg hfraction, if_neg hfraction, add_eq_of_lt hadd, ok_bind]
      apply signedValueChecked_eq hlimit
      rw [toNat_magnitude hroom, ← hlimit]
      exact hroom

theorem parseMagnitudeChecked_eq {negative : Bool} {wholeText fractionText : Bytes}
    (hlength : fractionText.length ≤ 8) :
    parseMagnitudeChecked negative wholeText fractionText =
      .ok (parseMagnitude negative wholeText fractionText) := by
  have hread := @readFractionChecked_eq [] fractionText 0 Decimal.digits_nil rfl
    (hlength.trans (by decide))
  rw [parseMagnitude_eq, parseMagnitudeChecked]
  cases fromChars wholeText with
  | none => rfl
  | some found =>
    obtain ⟨whole, unread⟩ := found
    simp only [Option.bind_some]
    split
    · rfl
    · rw [hread, ok_bind]
      cases hfraction : readFraction 0 fractionText with
      | none => rfl
      | some digits =>
        have hscale := toNat_digits_scaled_lt hlength hfraction
        simp only [scaleByTenChecked_eq (hscale.trans (by decide)), ok_bind, combineChecked_eq,
          Option.bind_some]

theorem parseDecimalChecked_eq (value : Bytes) :
    parseDecimalChecked value = .ok (parseDecimal value) := by
  unfold parseDecimalChecked parseDecimal
  cases value with
  | nil => rfl
  | cons front rest =>
    refine ite_eq_ok fun _ => ite_eq_ok fun hchecks => ?_
    rw [not_or, not_or, Nat.not_lt] at hchecks
    exact parseMagnitudeChecked_eq hchecks.2.1

theorem exists_toInt_eq_iff {n : Int} :
    (∃ v : Int64, v.toInt = n) ↔ -2 ^ 63 ≤ n ∧ n ≤ 2 ^ 63 - 1 := by
  constructor
  · rintro ⟨v, rfl⟩
    exact ⟨v.le_toInt, Int.le_sub_one_of_lt v.toInt_lt⟩
  · rintro ⟨hlow, hhigh⟩
    exact ⟨Int64.ofInt n, Int64.toInt_ofInt_of_le hlow (Int.lt_of_le_sub_one hhigh)⟩

theorem parseDecimal_isSome_iff (value : Bytes) :
    (parseDecimal value).isSome ↔ ∃ s : Spelling, s.text = value ∧
      -2 ^ 63 ≤ s.number * 10 ^ 8 ∧ s.number * 10 ^ 8 ≤ 2 ^ 63 - 1 := by
  have hrange (s : Spelling) : (∃ v : Int64, v.toInt = s.scaled) ↔
      -2 ^ 63 ≤ s.number * 10 ^ 8 ∧ s.number * 10 ^ 8 ≤ 2 ^ 63 - 1 := by
    rw [exists_toInt_eq_iff, s.number_mul_scale]
    norm_cast
  simp only [Option.isSome_iff_exists, parseDecimal_eq_some_iff, ← hrange]
  constructor
  · rintro ⟨v, s, htext, hv⟩
    exact ⟨s, htext, v, hv⟩
  · rintro ⟨s, htext, v, hv⟩
    exact ⟨v, s, htext, hv⟩

theorem parseDecimal_exact (value : Bytes) :
    ((parseDecimal value).isSome ↔ ∃ s : Spelling, s.text = value ∧
      -2 ^ 63 ≤ s.number * 10 ^ 8 ∧ s.number * 10 ^ 8 ≤ 2 ^ 63 - 1) ∧
    (∀ v, parseDecimal value = some v → ∀ s : Spelling, s.text = value →
      (v.toInt : ℚ) = s.number * 10 ^ 8) ∧
    parseDecimalChecked value = .ok (parseDecimal value) := by
  refine ⟨parseDecimal_isSome_iff value, ?_, parseDecimalChecked_eq value⟩
  rintro v h s rfl
  rw [s.number_mul_scale, Spelling.scaled_eq_of_parseDecimal h]

def leastSpelling : Spelling where
  sign := .minus
  whole := ascii "0092233720368"
  fraction := some (ascii "54775808")
  whole_ne_nil := by decide
  whole_digits := by decide
  fraction_digits := by decide
  fraction_length := by decide

theorem parseDecimal_exact_least :
    (∃ s : Spelling, s.text = ascii "-0092233720368.54775808" ∧
      -2 ^ 63 ≤ s.number * 10 ^ 8 ∧ s.number * 10 ^ 8 ≤ 2 ^ 63 - 1) ∧
    (Int64.minValue.toInt : ℚ) = leastSpelling.number * 10 ^ 8 :=
  ⟨(parseDecimal_exact _).1.1 (by decide +kernel),
    (parseDecimal_exact _).2.1 _ (by decide +kernel) leastSpelling rfl⟩

end BengalMarket
