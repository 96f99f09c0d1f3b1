import BengalMarket.Library.Checked
import BengalMarket.Reader.Decimal
import Mathlib.Algebra.Order.Field.Rat
import Mathlib.Tactic.FieldSimp
import Mathlib.Tactic.NormNum
import Mathlib.Tactic.Ring

namespace BengalMarket

inductive Sign | none | plus | minus
  deriving DecidableEq

namespace Sign

def text : Sign → Bytes
  | .none => []
  | .plus => [BengalMarket.plus]
  | .minus => [BengalMarket.minus]

def factor : Sign → Int
  | .none => 1
  | .plus => 1
  | .minus => -1

end Sign

/-- An optional sign, digits, and optionally a dot with up to eight more digits. -/
structure Spelling where
  sign : Sign
  whole : Bytes
  fraction : Option Bytes
  whole_ne_nil : whole ≠ []
  whole_digits : Decimal.Digits whole
  fraction_digits : ∀ digits ∈ fraction, Decimal.Digits digits
  fraction_length : ∀ digits ∈ fraction, digits.length ≤ 8

namespace Spelling

def fractionText : Option Bytes → Bytes
  | none => []
  | some digits => dot :: digits

def text (s : Spelling) : Bytes := s.sign.text ++ s.whole ++ fractionText s.fraction

def fractionDigits (s : Spelling) : Bytes := s.fraction.getD []

def number (s : Spelling) : ℚ :=
  s.sign.factor * (Decimal.ofDigits s.whole +
    Decimal.ofDigits s.fractionDigits / 10 ^ s.fractionDigits.length)

def units (whole fraction : Bytes) : Nat :=
  Decimal.ofDigits whole * 10 ^ 8 + Decimal.ofDigits fraction * 10 ^ (8 - fraction.length)

def scaled (s : Spelling) : Int := s.sign.factor * units s.whole s.fractionDigits

theorem length_fractionDigits_le (s : Spelling) : s.fractionDigits.length ≤ 8 := by
  cases h : s.fraction with
  | none => simp [fractionDigits, h]
  | some digits => simpa [fractionDigits, h] using s.fraction_length digits h

theorem digits_fractionDigits (s : Spelling) : Decimal.Digits s.fractionDigits := by
  cases h : s.fraction with
  | none => simp [fractionDigits, h, Decimal.digits_nil]
  | some digits => simpa [fractionDigits, h] using s.fraction_digits digits h

theorem number_mul_scale (s : Spelling) : s.number * 10 ^ 8 = s.scaled := by
  have hpower : (10 : ℚ) ^ 8 =
      10 ^ (8 - s.fractionDigits.length) * 10 ^ s.fractionDigits.length := by
    rw [← pow_add, Nat.sub_add_cancel s.length_fractionDigits_le]
  have hne : (10 : ℚ) ^ s.fractionDigits.length ≠ 0 := pow_ne_zero _ (by norm_num)
  simp only [number, scaled, units]
  push_cast
  rw [mul_assoc, add_mul]
  congr 2
  rw [hpower]
  field_simp

theorem number_eq_iff {s t : Spelling} : s.number = t.number ↔ s.scaled = t.scaled := by
  rw [← Int.cast_inj (α := ℚ), ← number_mul_scale, ← number_mul_scale]
  exact (mul_left_inj' (by norm_num)).symm

end Spelling

section Magnitude

theorem parseMagnitude_eq (negative : Bool) (wholeText fractionText : Bytes) :
    parseMagnitude negative wholeText fractionText =
      (fromChars wholeText).bind fun found =>
        if found.2 ≠ [] then none
        else (readFraction 0 fractionText).bind fun digits =>
          combine negative found.1 (scaleByTen (8 - fractionText.length) digits) := by
  unfold parseMagnitude
  cases fromChars wholeText with
  | none => rfl
  | some found =>
    obtain ⟨whole, unread⟩ := found
    simp only [Option.bind_some]
    split
    · rfl
    · cases readFraction 0 fractionText <;> rfl

/-- The largest magnitude that is accepted. -/
def limitOf (negative : Bool) : Nat := if negative then 2 ^ 63 else 2 ^ 63 - 1

def signed (negative : Bool) (magnitude : Nat) : Int :=
  if negative then -(magnitude : Int) else magnitude

theorem le_limitOf {v : Int64} {negative : Bool} {magnitude : Nat}
    (h : v.toInt = signed negative magnitude) : magnitude ≤ limitOf negative := by
  have hlow := v.le_toInt
  have hhigh := v.toInt_lt
  cases negative <;> simp [signed, limitOf] at * <;> omega

theorem toInt_toInt64 {magnitude : UInt64} (h : magnitude.toNat < 2 ^ 63) :
    magnitude.toInt64.toInt = magnitude.toNat := by
  rw [← UInt64.ofNat_toNat (x := magnitude), UInt64.toInt64_ofNat', Int64.toInt_ofNat_of_lt h,
    UInt64.ofNat_toNat]

theorem toInt_neg_toInt64 {magnitude : UInt64} (h : magnitude.toNat < 2 ^ 63) :
    (-magnitude.toInt64).toInt = -magnitude.toNat := by
  rw [← UInt64.ofNat_toNat (x := magnitude), UInt64.toInt64_ofNat',
    Int64.toInt_neg_ofNat_of_le h.le, UInt64.ofNat_toNat]

theorem signedValue_eq_some_iff {negative : Bool} {magnitude limit : UInt64} {v : Int64}
    (hlimit : limit.toNat = limitOf negative) (hle : magnitude.toNat ≤ limitOf negative) :
    (if negative && magnitude == limit then some Int64.minValue
      else some (if negative then -magnitude.toInt64 else magnitude.toInt64)) = some v ↔
      v.toInt = signed negative magnitude.toNat := by
  cases negative with
  | false =>
    have hlimit : limitOf false = 2 ^ 63 - 1 := rfl
    have hlt : magnitude.toNat < 2 ^ 63 := by omega
    simp only [Bool.false_and, Bool.false_eq_true, if_false, signed, Option.some.injEq]
    rw [← Int64.toInt_inj, toInt_toInt64 hlt]
    exact eq_comm
  | true =>
    simp only [limitOf, if_true] at hlimit hle
    simp only [Bool.true_and, beq_iff_eq, if_true, signed]
    by_cases hmin : magnitude = limit
    · rw [if_pos hmin, Option.some.injEq, ← Int64.toInt_inj, hmin, hlimit, Int64.toInt_minValue]
      exact eq_comm
    · have hlt : magnitude.toNat < 2 ^ 63 :=
        lt_of_le_of_ne hle fun heq => hmin (UInt64.toNat.inj (heq.trans hlimit.symm))
      rw [if_neg hmin, Option.some.injEq, ← Int64.toInt_inj, toInt_neg_toInt64 hlt]
      exact eq_comm

theorem toNat_decimalScale : (UInt64.ofNat decimalScale).toNat = 10 ^ 8 := rfl

/-- The first check keeps the whole part within the limit, so its scaling does not wrap. -/
theorem whole_fits_iff {whole limit : UInt64} :
    ¬ whole > limit / UInt64.ofNat decimalScale ↔ whole.toNat * 10 ^ 8 ≤ limit.toNat := by
  rw [gt_iff_lt, UInt64.not_lt, UInt64.le_iff_toNat_le, UInt64.toNat_div, toNat_decimalScale,
    Nat.le_div_iff_mul_le (by decide)]

theorem toNat_scaled {whole limit : UInt64} (h : whole.toNat * 10 ^ 8 ≤ limit.toNat) :
    (whole * UInt64.ofNat decimalScale).toNat = whole.toNat * 10 ^ 8 := by
  rw [UInt64.toNat_mul, toNat_decimalScale, Nat.mod_eq_of_lt (h.trans_lt limit.toNat_lt)]

theorem fraction_fits_iff {whole fraction limit : UInt64}
    (h : whole.toNat * 10 ^ 8 ≤ limit.toNat) :
    ¬ fraction > limit - whole * UInt64.ofNat decimalScale ↔
      whole.toNat * 10 ^ 8 + fraction.toNat ≤ limit.toNat := by
  have hscaled := toNat_scaled h
  have hle : whole * UInt64.ofNat decimalScale ≤ limit :=
    UInt64.le_iff_toNat_le.2 (hscaled.symm ▸ h)
  rw [gt_iff_lt, UInt64.not_lt, UInt64.le_iff_toNat_le, UInt64.toNat_sub_of_le _ _ hle, hscaled]
  omega

theorem toNat_magnitude {whole fraction limit : UInt64}
    (h : whole.toNat * 10 ^ 8 + fraction.toNat ≤ limit.toNat) :
    (whole * UInt64.ofNat decimalScale + fraction).toNat =
      whole.toNat * 10 ^ 8 + fraction.toNat := by
  rw [UInt64.toNat_add, @toNat_scaled whole limit ((Nat.le_add_right _ _).trans h)]
  exact Nat.mod_eq_of_lt (h.trans_lt limit.toNat_lt)

theorem exists_limit (negative : Bool) :
    ∃ limit : UInt64, (if negative then 9223372036854775807 + 1 else 9223372036854775807) = limit ∧
      limit.toNat = limitOf negative := by
  refine ⟨_, rfl, ?_⟩
  cases negative <;> rfl

theorem combine_eq_some_iff {negative : Bool} {whole fraction : UInt64} {v : Int64} :
    combine negative whole fraction = some v ↔
      v.toInt = signed negative (whole.toNat * 10 ^ 8 + fraction.toNat) := by
  obtain ⟨limit, hdef, hlimit⟩ := exists_limit negative
  unfold combine
  rw [hdef]
  by_cases hwhole : whole > limit / UInt64.ofNat decimalScale
  · rw [if_pos hwhole]
    simp only [reduceCtorEq, false_iff]
    intro hv
    have hle := hlimit ▸ le_limitOf hv
    exact absurd (whole_fits_iff.2 ((Nat.le_add_right _ _).trans hle)) (not_not_intro hwhole)
  · have hfits := whole_fits_iff.1 hwhole
    rw [if_neg hwhole]
    by_cases hfraction : fraction > limit - whole * UInt64.ofNat decimalScale
    · simp only [if_pos hfraction, reduceCtorEq, false_iff]
      intro hv
      have hle := hlimit ▸ le_limitOf hv
      exact absurd ((fraction_fits_iff hfits).2 hle) (not_not_intro hfraction)
    · have hroom := (fraction_fits_iff hfits).1 hfraction
      have hmagnitude := toNat_magnitude hroom
      simp only [if_neg hfraction]
      rw [← hmagnitude]
      exact signedValue_eq_some_iff hlimit (by rw [hmagnitude, ← hlimit]; exact hroom)

theorem fromChars_eq_some_iff {text : Bytes} {whole : UInt64} :
    fromChars text = some (whole, []) ↔
      text ≠ [] ∧ Decimal.Digits text ∧ whole.toNat = Decimal.ofDigits text := by
  constructor
  · intro h
    simp only [fromChars] at h
    split at h
    · cases h
    · rename_i hne
      split at h
      · rename_i hlt
        obtain ⟨rfl, hrest⟩ := Prod.mk.inj (Option.some.inj h)
        have hdigits : Decimal.Digits text := List.dropWhile_eq_nil_iff.1 hrest
        rw [List.takeWhile_eq_self_iff.2 hdigits] at hne hlt ⊢
        exact ⟨hne, hdigits, UInt64.toNat_ofNat_of_lt' hlt⟩
      · cases h
  · rintro ⟨hne, hdigits, hwhole⟩
    have hlt : Decimal.ofDigits text < 2 ^ 64 := hwhole ▸ whole.toNat_lt
    simp only [fromChars, List.takeWhile_eq_self_iff.2 hdigits, List.dropWhile_eq_nil_iff.2 hdigits]
    rw [if_neg hne, if_pos hlt, ← hwhole, UInt64.ofNat_toNat]

section Digit

open Checked

variable {μ : Type} [Add μ] [Sub μ] [Mul μ] [Div μ] [Machine μ] {before ten digit : μ}

/-- What one more digit does to the value of those read before: up to nine digits fit every
machine type. -/
theorem digit_step {read : Bytes} {character : UInt8}
    (hdigits : Decimal.Digits (read ++ [character])) (hlength : read.length < 9)
    (hbefore : Denotes before (Decimal.ofDigits read)) (hten : Denotes ten 10)
    (hdigit : Denotes digit (Decimal.digitValue character)) :
    mul before ten = .ok (before * ten) ∧ add (before * ten) digit = .ok (before * ten + digit) ∧
      Denotes (before * ten + digit) (Decimal.ofDigits (read ++ [character])) := by
  have hlt : Decimal.ofDigits (read ++ [character]) < 10 ^ 9 :=
    (Decimal.ofDigits_lt hdigits).trans_le
      (Nat.pow_le_pow_right (by decide) (by rw [List.length_append]; exact hlength))
  rw [Decimal.ofDigits_append_singleton] at hlt ⊢
  obtain ⟨hmul, htens⟩ := mul_small hbefore hten (by omega)
  obtain ⟨hadd, hsum⟩ := add_small htens hdigit (by omega)
  exact ⟨hmul, hadd, hsum⟩

theorem digits_concat {read : Bytes} {character : UInt8} (hread : Decimal.Digits read)
    (hdigit : Decimal.isDigit character = true) : Decimal.Digits (read ++ [character]) :=
  Decimal.digits_append_iff.2 ⟨hread, by simpa [Decimal.digits_nil] using hdigit⟩

theorem denotes_uint64 {a : UInt64} {n : Nat} : Denotes a n ↔ a.toNat = n := Int.ofNat_inj

theorem denotes_digit {character : UInt8} (hdigit : Decimal.isDigit character = true) :
    Denotes (UInt64.ofNat (Decimal.digitValue character)) (Decimal.digitValue character) :=
  denotes_uint64.2 (UInt64.toNat_ofNat_of_lt' ((Decimal.digitValue_lt hdigit).trans (by decide)))

end Digit

theorem readFraction_eq_some_iff {read rest : Bytes} {before fraction : UInt64}
    (hread : Decimal.Digits read) (hbefore : Checked.Denotes before (Decimal.ofDigits read))
    (hlength : (read ++ rest).length ≤ 9) :
    readFraction before rest = some fraction ↔
      Decimal.Digits rest ∧ fraction.toNat = Decimal.ofDigits (read ++ rest) := by
  induction rest generalizing read before with
  | nil =>
    rw [readFraction, Option.some.injEq, ← UInt64.toNat_inj, denotes_uint64.1 hbefore,
      List.append_nil]
    simp [Decimal.digits_nil, eq_comm]
  | cons character rest ih =>
    rw [readFraction]
    by_cases hdigit : Decimal.isDigit character = true
    · have hdigits := digits_concat hread hdigit
      have hsplit : read ++ character :: rest = read ++ [character] ++ rest := by simp
      have hshort : read.length < 9 := by simp at hlength; omega
      have hten : Checked.Denotes (10 : UInt64) 10 := rfl
      obtain ⟨-, -, hnext⟩ := digit_step hdigits hshort hbefore hten (denotes_digit hdigit)
      rw [if_pos hdigit, hsplit, ih hdigits hnext (hsplit ▸ hlength)]
      simp [hdigit]
    · rw [if_neg hdigit]
      simp [hdigit]

theorem mul_ten_lt {times : Nat} {fraction : UInt64}
    (h : fraction.toNat * 10 ^ (times + 1) < 2 ^ 64) : fraction.toNat * 10 < 2 ^ 64 := by
  rw [Nat.pow_succ', ← Nat.mul_assoc] at h
  exact (Nat.le_mul_of_pos_right _ (Nat.pow_pos (by decide))).trans_lt h

theorem toNat_scaleByTen {times : Nat} {fraction : UInt64}
    (h : fraction.toNat * 10 ^ times < 2 ^ 64) :
    (scaleByTen times fraction).toNat = fraction.toNat * 10 ^ times := by
  induction times generalizing fraction with
  | zero => simp [scaleByTen]
  | succ times ih =>
    have hten : (fraction * 10).toNat = fraction.toNat * 10 := by
      rw [UInt64.toNat_mul]
      exact Nat.mod_eq_of_lt (mul_ten_lt h)
    rw [Nat.pow_succ', ← Nat.mul_assoc] at h ⊢
    rw [scaleByTen, ih (by rw [hten]; exact h), hten]

theorem ofDigits_scaled_lt {digits : Bytes} {width : Nat} (h : Decimal.Digits digits)
    (hlength : digits.length ≤ width) :
    Decimal.ofDigits digits * 10 ^ (width - digits.length) < 10 ^ width := by
  calc Decimal.ofDigits digits * 10 ^ (width - digits.length)
      < 10 ^ digits.length * 10 ^ (width - digits.length) :=
        Nat.mul_lt_mul_of_pos_right (Decimal.ofDigits_lt h) (Nat.pow_pos (by decide))
    _ = 10 ^ width := by rw [← Nat.pow_add, Nat.add_sub_cancel' hlength]

theorem toNat_digits_scaled_lt {fractionText : Bytes} {digits : UInt64}
    (hlength : fractionText.length ≤ 8) (h : readFraction 0 fractionText = some digits) :
    digits.toNat * 10 ^ (8 - fractionText.length) < 10 ^ 8 := by
  obtain ⟨hdigits, hvalue⟩ := (@readFraction_eq_some_iff [] fractionText 0 digits
    Decimal.digits_nil rfl (hlength.trans (by decide))).1 h
  rw [hvalue]
  exact ofDigits_scaled_lt hdigits hlength

theorem parseMagnitude_eq_some_iff {negative : Bool} {wholeText fractionText : Bytes} {v : Int64}
    (hlength : fractionText.length ≤ 8) :
    parseMagnitude negative wholeText fractionText = some v ↔
      wholeText ≠ [] ∧ Decimal.Digits wholeText ∧ Decimal.Digits fractionText ∧
        v.toInt = signed negative (Spelling.units wholeText fractionText) := by
  have hfraction (digits : UInt64) := @readFraction_eq_some_iff [] fractionText 0 digits
    Decimal.digits_nil rfl (hlength.trans (by decide))
  have hscaled {digits : UInt64} (hread : readFraction 0 fractionText = some digits) :
      (scaleByTen (8 - fractionText.length) digits).toNat =
        Decimal.ofDigits fractionText * 10 ^ (8 - fractionText.length) := by
    have hvalue := ((hfraction digits).1 hread).2
    rw [List.nil_append] at hvalue
    rw [← hvalue]
    exact toNat_scaleByTen ((toNat_digits_scaled_lt hlength hread).trans (by decide))
  rw [parseMagnitude_eq, Option.bind_eq_some_iff]
  constructor
  · rintro ⟨⟨whole, unread⟩, hwhole, h⟩
    simp only at h
    split at h
    · cases h
    · rename_i hunread
      obtain rfl : unread = [] := Decidable.not_not.1 hunread
      obtain ⟨hne, hdigits, hvalue⟩ := fromChars_eq_some_iff.1 hwhole
      obtain ⟨digits, hread, hcombine⟩ := Option.bind_eq_some_iff.1 h
      have hfractionDigits := ((hfraction digits).1 hread).1
      rw [combine_eq_some_iff, hvalue, hscaled hread] at hcombine
      exact ⟨hne, hdigits, hfractionDigits, hcombine⟩
  · rintro ⟨hne, hdigits, hfractionDigits, hv⟩
    have hle := le_limitOf hv
    have hsmall : limitOf negative ≤ 2 ^ 63 := by cases negative <;> decide
    have hlt : Decimal.ofDigits wholeText < 2 ^ 64 := by
      rw [Spelling.units] at hle
      omega
    have hfractionLt : Decimal.ofDigits fractionText < 2 ^ 64 :=
      (Decimal.ofDigits_lt hfractionDigits).trans_le
        ((Nat.pow_le_pow_right (by decide) hlength).trans (by decide))
    have hvalue := UInt64.toNat_ofNat_of_lt' hlt
    have hfractionValue := UInt64.toNat_ofNat_of_lt' hfractionLt
    refine ⟨(UInt64.ofNat (Decimal.ofDigits wholeText), []),
      fromChars_eq_some_iff.2 ⟨hne, hdigits, hvalue⟩, ?_⟩
    rw [if_neg (by simp), Option.bind_eq_some_iff]
    have hread := (hfraction _).2 ⟨hfractionDigits, hfractionValue⟩
    refine ⟨_, hread, ?_⟩
    rw [combine_eq_some_iff, hvalue, hscaled hread]
    exact hv

end Magnitude

section Grammar

def WellFormed (whole : Bytes) (fraction : Option Bytes) : Prop :=
  whole ≠ [] ∧ Decimal.Digits whole ∧
    ∀ digits ∈ fraction, Decimal.Digits digits ∧ digits.length ≤ 8

theorem parseDecimal_minus (rest : Bytes) :
    parseDecimal (minus :: rest) = parseUnsigned true rest := rfl

theorem parseDecimal_plus (rest : Bytes) :
    parseDecimal (plus :: rest) = parseUnsigned false rest := rfl

theorem parseDecimal_of_unsigned {front : UInt8} {rest : Bytes} (hminus : front ≠ minus)
    (hplus : front ≠ plus) : parseDecimal (front :: rest) = parseUnsigned false (front :: rest) := by
  have hne : (front == minus) = false := beq_eq_false_iff_ne.2 hminus
  simp only [parseDecimal, hne, hminus, hplus, or_self, if_false]

theorem dot_not_mem {digits : Bytes} (h : Decimal.Digits digits) : dot ∉ digits :=
  fun hmem => absurd (h dot hmem) (by decide)

theorem findIdx?_dot {whole : Bytes} (h : Decimal.Digits whole) (fraction : Option Bytes) :
    (whole ++ Spelling.fractionText fraction).findIdx? (· == dot) =
      fraction.map fun _ => whole.length := by
  have hnone : whole.findIdx? (· == dot) = none := by
    rw [List.findIdx?_eq_none_iff]
    intro byte hbyte
    exact beq_eq_false_iff_ne.2 fun heq => dot_not_mem h (heq ▸ hbyte)
  rw [List.findIdx?_append, hnone]
  cases fraction <;> simp [Spelling.fractionText, List.findIdx?_cons]

theorem parseUnsigned_of_wellFormed {negative : Bool} {whole : Bytes} {fraction : Option Bytes}
    (h : WellFormed whole fraction) :
    parseUnsigned negative (whole ++ Spelling.fractionText fraction) =
      parseMagnitude negative whole (fraction.getD []) := by
  obtain ⟨hne, hdigits, hfraction⟩ := h
  unfold parseUnsigned
  rw [if_neg (by simp [hne]), findIdx?_dot hdigits]
  cases fraction with
  | none => simp [Spelling.fractionText, hne]
  | some digits =>
    obtain ⟨hfractionDigits, hlength⟩ := hfraction digits rfl
    simp [Spelling.fractionText, hne, dot_not_mem hfractionDigits, hlength]

theorem parseUnsigned_eq_some_iff {negative : Bool} {value : Bytes} {v : Int64} :
    parseUnsigned negative value = some v ↔
      ∃ whole fraction, whole ++ Spelling.fractionText fraction = value ∧
        WellFormed whole fraction ∧
        v.toInt = signed negative (Spelling.units whole (fraction.getD [])) := by
  constructor
  · intro h
    unfold parseUnsigned at h
    split at h
    · cases h
    · cases hposition : value.findIdx? (· == dot) with
      | none =>
        simp only [hposition, Option.getD_none, List.take_length] at h
        split at h
        · cases h
        · obtain ⟨hne, hdigits, -, hv⟩ := (parseMagnitude_eq_some_iff (by simp)).1 h
          exact ⟨value, none, List.append_nil _, ⟨hne, hdigits, by simp⟩, hv⟩
      | some index =>
        simp only [hposition, Option.getD_some] at h
        split at h
        · cases h
        · rename_i hchecks
          rw [not_or, not_or, Nat.not_lt] at hchecks
          obtain ⟨hne, hdigits, hfraction, hv⟩ := (parseMagnitude_eq_some_iff hchecks.2.1).1 h
          obtain ⟨hindex, hdot, -⟩ := List.findIdx?_eq_some_iff_getElem.1 hposition
          refine ⟨value.take index, some (value.drop (index + 1)), ?_, ⟨hne, hdigits, ?_⟩, hv⟩
          · have hcons : value.drop index = dot :: value.drop (index + 1) := by
              rw [List.drop_eq_getElem_cons hindex, beq_iff_eq.1 hdot]
            rw [Spelling.fractionText, ← hcons, List.take_append_drop]
          · rintro digits ⟨⟩
            exact ⟨hfraction, hchecks.2.1⟩
  · rintro ⟨whole, fraction, rfl, h, hv⟩
    rw [parseUnsigned_of_wellFormed h, parseMagnitude_eq_some_iff]
    · refine ⟨h.1, h.2.1, ?_, hv⟩
      cases fraction with
      | none => exact Decimal.digits_nil
      | some digits => exact (h.2.2 digits rfl).1
    · cases fraction with
      | none => simp
      | some digits => exact (h.2.2 digits rfl).2

theorem Spelling.wellFormed (s : Spelling) : WellFormed s.whole s.fraction :=
  ⟨s.whole_ne_nil, s.whole_digits, fun digits h =>
    ⟨s.fraction_digits digits h, s.fraction_length digits h⟩⟩

def Spelling.ofWellFormed (sign : Sign) {whole : Bytes} {fraction : Option Bytes}
    (h : WellFormed whole fraction) : Spelling where
  sign := sign
  whole := whole
  fraction := fraction
  whole_ne_nil := h.1
  whole_digits := h.2.1
  fraction_digits := fun digits hdigits => (h.2.2 digits hdigits).1
  fraction_length := fun digits hdigits => (h.2.2 digits hdigits).2

theorem front_of_wellFormed {whole : Bytes} {fraction : Option Bytes}
    (h : WellFormed whole fraction) :
    ∃ front rest, whole ++ Spelling.fractionText fraction = front :: rest ∧
      front ≠ minus ∧ front ≠ plus := by
  obtain ⟨hne, hdigits, -⟩ := h
  cases whole with
  | nil => exact absurd rfl hne
  | cons front whole =>
    have hfront := (Decimal.digits_cons_iff.1 hdigits).1
    refine ⟨front, _, rfl, ?_, ?_⟩ <;> rintro rfl <;> exact absurd hfront (by decide)

theorem factor_mul (sign : Sign) (magnitude : Nat) :
    sign.factor * magnitude = signed (sign == .minus) magnitude := by
  cases sign <;> simp [Sign.factor, signed]

theorem Spelling.scaled_eq (s : Spelling) :
    s.scaled = signed (s.sign == .minus) (Spelling.units s.whole (s.fraction.getD [])) :=
  factor_mul _ _

theorem parseDecimal_text (s : Spelling) :
    parseDecimal s.text =
      parseUnsigned (s.sign == .minus) (s.whole ++ Spelling.fractionText s.fraction) := by
  have htext : s.text = s.sign.text ++ (s.whole ++ Spelling.fractionText s.fraction) :=
    List.append_assoc _ _ _
  rw [htext]
  cases s.sign with
  | minus => exact parseDecimal_minus _
  | plus => exact parseDecimal_plus _
  | none =>
    obtain ⟨front, rest, hfront, hminus, hplus⟩ := front_of_wellFormed s.wellFormed
    rw [hfront]
    exact parseDecimal_of_unsigned hminus hplus

theorem exists_sign_of_parseDecimal {value : Bytes} {v : Int64} (h : parseDecimal value = some v) :
    ∃ sign : Sign, ∃ rest, value = sign.text ++ rest ∧
      parseUnsigned (sign == .minus) rest = some v := by
  cases value with
  | nil => cases h
  | cons front rest =>
    by_cases hminus : front = minus
    · subst hminus
      exact ⟨.minus, rest, rfl, h⟩
    · by_cases hplus : front = plus
      · subst hplus
        exact ⟨.plus, rest, rfl, h⟩
      · exact ⟨.none, front :: rest, rfl, (parseDecimal_of_unsigned hminus hplus).symm.trans h⟩

/-- The parser decides the grammar, with the value that is spelled. -/
theorem parseDecimal_eq_some_iff {value : Bytes} {v : Int64} :
    parseDecimal value = some v ↔ ∃ s : Spelling, s.text = value ∧ v.toInt = s.scaled := by
  constructor
  · intro h
    obtain ⟨sign, rest, rfl, hparse⟩ := exists_sign_of_parseDecimal h
    obtain ⟨whole, fraction, rfl, hwell, hv⟩ := parseUnsigned_eq_some_iff.1 hparse
    refine ⟨Spelling.ofWellFormed sign hwell, List.append_assoc _ _ _, ?_⟩
    rw [Spelling.scaled_eq]
    exact hv
  · rintro ⟨s, rfl, hv⟩
    rw [parseDecimal_text, parseUnsigned_eq_some_iff]
    exact ⟨s.whole, s.fraction, rfl, s.wellFormed, hv.trans s.scaled_eq⟩

theorem Spelling.scaled_eq_of_parseDecimal {s : Spelling} {v : Int64}
    (h : parseDecimal s.text = some v) : v.toInt = s.scaled := by
  rw [parseDecimal_text, parseUnsigned_of_wellFormed s.wellFormed] at h
  obtain ⟨-, -, -, hv⟩ := (parseMagnitude_eq_some_iff s.length_fractionDigits_le).1 h
  exact hv.trans s.scaled_eq.symm

end Grammar

end BengalMarket
