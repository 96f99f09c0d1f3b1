import BengalMarket.Reader.Spelling

namespace BengalMarket

namespace Spelling

/-- Without a plus, leading zeros, a bare dot, trailing fractional zeros or minus zero. -/
structure Canonical (s : Spelling) : Prop where
  noPlus : s.sign ≠ .plus
  noLeadingZero : s.whole.head? = some Decimal.zero → s.whole = [Decimal.zero]
  noBareDot : s.fraction ≠ some []
  noTrailingZero : ∀ digits ∈ s.fraction, digits.getLast? ≠ some Decimal.zero
  noMinusZero : s.sign = .minus → s.number ≠ 0

/-- Every other spelling of the number is longer. -/
def Shortest (c : Spelling) : Prop :=
  ∀ s : Spelling, s.number = c.number →
    c.text.length ≤ s.text.length ∧ (s.text.length ≤ c.text.length → s.text = c.text)

theorem length_text (s : Spelling) :
    s.text.length = s.sign.text.length + s.whole.length + (fractionText s.fraction).length := by
  rw [text, List.length_append, List.length_append]

theorem scaled_eq_zero_iff {s : Spelling} : s.scaled = 0 ↔ units s.whole s.fractionDigits = 0 := by
  rw [scaled, Int.mul_eq_zero]
  cases s.sign <;> simp [Sign.factor]

theorem number_eq_zero_iff {s : Spelling} : s.number = 0 ↔ s.scaled = 0 := by
  rw [← Int.cast_eq_zero (α := ℚ), ← number_mul_scale]
  exact (mul_eq_zero_iff_right (by norm_num)).symm

theorem units_eq_of_scaled {s t : Spelling} (h : s.scaled = t.scaled) :
    units s.whole s.fractionDigits = units t.whole t.fractionDigits := by
  have habs := congrArg Int.natAbs h
  rw [scaled, scaled, Int.natAbs_mul, Int.natAbs_mul] at habs
  have hone (sign : Sign) : sign.factor.natAbs = 1 := by cases sign <;> rfl
  simpa [hone] using habs

theorem sign_eq_minus_iff {s : Spelling} (hne : s.scaled ≠ 0) : s.sign = .minus ↔ s.scaled < 0 := by
  have hunits : units s.whole s.fractionDigits ≠ 0 := fun h => hne (scaled_eq_zero_iff.2 h)
  rw [scaled]
  cases s.sign <;> simp only [Sign.factor, reduceCtorEq, true_iff, false_iff] <;> omega

theorem parts_eq_of_units {s t : Spelling}
    (h : units s.whole s.fractionDigits = units t.whole t.fractionDigits) :
    Decimal.ofDigits s.whole = Decimal.ofDigits t.whole ∧
      Decimal.ofDigits s.fractionDigits * 10 ^ (8 - s.fractionDigits.length) =
        Decimal.ofDigits t.fractionDigits * 10 ^ (8 - t.fractionDigits.length) := by
  have hs := ofDigits_scaled_lt s.digits_fractionDigits s.length_fractionDigits_le
  have ht := ofDigits_scaled_lt t.digits_fractionDigits t.length_fractionDigits_le
  rw [units, units] at h
  omega

theorem sign_le {c s : Spelling} (hc : c.Canonical) (h : s.scaled = c.scaled) :
    c.sign.text.length ≤ s.sign.text.length ∧
      (s.sign.text.length ≤ c.sign.text.length → s.sign = c.sign) := by
  cases hsign : c.sign with
  | plus => exact absurd hsign hc.noPlus
  | none =>
    cases s.sign <;> simp [Sign.text]
  | minus =>
    have hne : c.scaled ≠ 0 := fun hzero => hc.noMinusZero hsign (number_eq_zero_iff.2 hzero)
    have hminus : s.sign = .minus := by
      rw [sign_eq_minus_iff (h ▸ hne), h, ← sign_eq_minus_iff hne]
      exact hsign
    simp [hminus]

theorem whole_le {c s : Spelling} (hc : c.Canonical)
    (h : Decimal.ofDigits s.whole = Decimal.ofDigits c.whole) :
    c.whole.length ≤ s.whole.length ∧ (s.whole.length ≤ c.whole.length → s.whole = c.whole) := by
  have htext := (Decimal.eq_text_iff c.whole_ne_nil c.whole_digits).2 hc.noLeadingZero
  rw [htext, ← h]
  exact ⟨Decimal.length_text_ofDigits_le s.whole_ne_nil s.whole_digits,
    Decimal.eq_text_of_length_le s.whole_ne_nil s.whole_digits⟩

theorem fractionDigits_le {c s : Spelling} (hc : c.Canonical)
    (h : Decimal.ofDigits s.fractionDigits * 10 ^ (8 - s.fractionDigits.length) =
      Decimal.ofDigits c.fractionDigits * 10 ^ (8 - c.fractionDigits.length)) :
    c.fractionDigits.length ≤ s.fractionDigits.length ∧
      (s.fractionDigits.length ≤ c.fractionDigits.length →
        s.fractionDigits = c.fractionDigits) := by
  apply Decimal.length_fraction_le c.digits_fractionDigits s.digits_fractionDigits
    c.length_fractionDigits_le s.length_fractionDigits_le _ h.symm
  cases hfraction : c.fraction with
  | none => simp [fractionDigits, hfraction]
  | some digits => simpa [fractionDigits, hfraction] using hc.noTrailingZero digits hfraction

theorem fraction_le {c s : Spelling} (hc : c.Canonical)
    (h : Decimal.ofDigits s.fractionDigits * 10 ^ (8 - s.fractionDigits.length) =
      Decimal.ofDigits c.fractionDigits * 10 ^ (8 - c.fractionDigits.length)) :
    (fractionText c.fraction).length ≤ (fractionText s.fraction).length ∧
      ((fractionText s.fraction).length ≤ (fractionText c.fraction).length →
        s.fraction = c.fraction) := by
  obtain ⟨hle, heq⟩ := fractionDigits_le hc h
  cases hcf : c.fraction with
  | none =>
    cases s.fraction <;> simp [fractionText]
  | some digits =>
    have hpos : digits ≠ [] := fun hnil => hc.noBareDot (by rw [hcf, hnil])
    cases hsf : s.fraction with
    | none =>
      simp [fractionDigits, hcf, hsf] at hle
      exact absurd hle hpos
    | some others =>
      simp only [fractionDigits, hcf, hsf, Option.getD_some] at hle heq
      simp only [fractionText, List.length_cons, Nat.add_le_add_iff_right, Option.some.injEq]
      exact ⟨hle, heq⟩

theorem Canonical.shortest {c : Spelling} (hc : c.Canonical) : c.Shortest := by
  intro s h
  have hscaled := number_eq_iff.1 h
  obtain ⟨hwholes, hfractions⟩ := parts_eq_of_units (units_eq_of_scaled hscaled)
  obtain ⟨hsign, hsignEq⟩ := sign_le hc hscaled
  obtain ⟨hwhole, hwholeEq⟩ := whole_le hc hwholes
  obtain ⟨hfraction, hfractionEq⟩ := fraction_le hc hfractions
  rw [length_text, length_text]
  refine ⟨by omega, fun hle => ?_⟩
  rw [text, text, hsignEq (by omega), hwholeEq (by omega), hfractionEq (by omega)]

theorem Canonical.unique {c s : Spelling} (hc : c.Canonical) (hs : s.Canonical)
    (h : s.number = c.number) : s.text = c.text :=
  (hc.shortest s h).2 (hs.shortest c h.symm).1

end Spelling

section Format

open Spelling

def printedFraction (fraction : Nat) : Option Bytes :=
  if fraction = 0 then none else some (Decimal.stripped (Decimal.padded 8 fraction))

theorem stripped_padded_spec {fraction : Nat} (hpos : 0 < fraction) (hlt : fraction < 10 ^ 8) :
    let digits := Decimal.stripped (Decimal.padded 8 fraction)
    digits ≠ [] ∧ Decimal.Digits digits ∧ digits.length ≤ 8 ∧
      digits.getLast? ≠ some Decimal.zero ∧
      Decimal.ofDigits digits * 10 ^ (8 - digits.length) = fraction := by
  obtain ⟨k, hk⟩ := Decimal.exists_stripped_append (Decimal.padded 8 fraction)
  have hlast := Decimal.getLast?_stripped (Decimal.padded 8 fraction)
  have hdigits := Decimal.digits_padded 8 fraction
  have hlength := Decimal.length_padded hlt (by decide)
  have hvalue := Decimal.ofDigits_padded 8 fraction
  generalize Decimal.stripped (Decimal.padded 8 fraction) = digits at hk hlast
  rw [hk] at hdigits hlength hvalue
  rw [Decimal.ofDigits_append_zeros] at hvalue
  rw [List.length_append, List.length_replicate] at hlength
  have hzeros : 8 - digits.length = k := by omega
  refine ⟨?_, (Decimal.digits_append_iff.1 hdigits).1, by omega, hlast, hzeros ▸ hvalue⟩
  rintro rfl
  rw [Decimal.ofDigits_nil, Nat.zero_mul] at hvalue
  omega

theorem wellFormed_printed {fraction : Nat} (whole : Nat) (hlt : fraction < 10 ^ 8) :
    WellFormed (Decimal.text whole) (printedFraction fraction) := by
  refine ⟨Decimal.text_ne_nil _, Decimal.digits_text _, fun digits hdigits => ?_⟩
  unfold printedFraction at hdigits
  split at hdigits
  · cases hdigits
  · rename_i hne
    cases hdigits
    obtain ⟨-, hall, hlength, -⟩ := stripped_padded_spec (Nat.pos_of_ne_zero hne) hlt
    exact ⟨hall, hlength⟩

theorem units_printed {fraction : Nat} (whole : Nat) (hlt : fraction < 10 ^ 8) :
    units (Decimal.text whole) ((printedFraction fraction).getD []) =
      whole * 10 ^ 8 + fraction := by
  unfold units printedFraction
  split
  · rename_i hzero
    simp [hzero]
  · rename_i hne
    obtain ⟨-, -, -, -, hvalue⟩ := stripped_padded_spec (Nat.pos_of_ne_zero hne) hlt
    rw [Option.getD_some, Decimal.ofDigits_text, hvalue]

def magnitude (value : Int64) : UInt64 :=
  if value < 0 then 0 - value.toUInt64 else value.toUInt64

theorem toInt_eq_toNat (value : Int64) :
    value.toInt = if 2 * value.toUInt64.toNat < 2 ^ 64 then (value.toUInt64.toNat : Int)
      else value.toUInt64.toNat - 2 ^ 64 :=
  BitVec.toInt_eq_toNat_cond value.toBitVec

/-- The unsigned negation is right for the least number too. -/
theorem toNat_magnitude_eq (value : Int64) : (magnitude value).toNat = value.toInt.natAbs := by
  have hvalue := toInt_eq_toNat value
  have hlt := value.toUInt64.toNat_lt
  have hneg : value < 0 ↔ value.toInt < 0 := Int64.lt_iff_toInt_lt
  unfold magnitude
  by_cases h : value < 0
  · have hint := hneg.1 h
    rw [if_pos h, UInt64.toNat_sub]
    change (2 ^ 64 - value.toUInt64.toNat + 0) % 2 ^ 64 = _
    split at hvalue <;> omega
  · have hint : ¬ value.toInt < 0 := fun hlt => h (hneg.2 hlt)
    rw [if_neg h]
    split at hvalue <;> omega

def printedSign (value : Int64) : Sign := if value < 0 then .minus else .none

theorem factor_printedSign (value : Int64) :
    (printedSign value).factor * value.toInt.natAbs = value.toInt := by
  have hneg : value < 0 ↔ value.toInt < 0 := Int64.lt_iff_toInt_lt
  unfold printedSign
  by_cases h : value < 0
  · have hint := hneg.1 h
    rw [if_pos h]
    change -1 * _ = _
    omega
  · have hint : ¬ value.toInt < 0 := fun hlt => h (hneg.2 hlt)
    rw [if_neg h]
    change 1 * _ = _
    omega

theorem formatDecimal_eq (value : Int64) :
    formatDecimal value = (printedSign value).text ++
      Decimal.text ((magnitude value).toNat / 10 ^ 8) ++
        fractionText (printedFraction ((magnitude value).toNat % 10 ^ 8)) := by
  have hsign : (printedSign value).text = if value < 0 then [minus] else [] := by
    unfold printedSign
    split <;> rfl
  have hwhole : (magnitude value / UInt64.ofNat decimalScale).toNat =
      (magnitude value).toNat / 10 ^ 8 := by rw [UInt64.toNat_div, toNat_decimalScale]
  have hfraction : (magnitude value % UInt64.ofNat decimalScale).toNat =
      (magnitude value).toNat % 10 ^ 8 := by rw [UInt64.toNat_mod, toNat_decimalScale]
  have hzero : magnitude value % UInt64.ofNat decimalScale = 0 ↔
      (magnitude value).toNat % 10 ^ 8 = 0 := by
    rw [← UInt64.toNat_inj, hfraction]
    rfl
  change (if magnitude value % UInt64.ofNat decimalScale ≠ 0 then
      Decimal.stripped ((if value < 0 then [minus] else []) ++
        Decimal.text (magnitude value / UInt64.ofNat decimalScale).toNat ++
          dot :: Decimal.padded 8 (magnitude value % UInt64.ofNat decimalScale).toNat)
    else (if value < 0 then [minus] else []) ++
      Decimal.text (magnitude value / UInt64.ofNat decimalScale).toNat) = _
  rw [hwhole, hfraction, ← hsign]
  unfold printedFraction
  by_cases h : (magnitude value).toNat % 10 ^ 8 = 0
  · rw [if_neg (not_not_intro (hzero.2 h)), if_pos h, fractionText, List.append_nil]
  · obtain ⟨hne, -⟩ := stripped_padded_spec (Nat.pos_of_ne_zero h) (Nat.mod_lt _ (by decide))
    rw [if_pos (fun heq => h (hzero.1 heq)), if_neg h, fractionText, List.append_cons,
      Decimal.stripped_append hne]
    simp

def printed (value : Int64) : Spelling :=
  Spelling.ofWellFormed (printedSign value) (wellFormed_printed
    ((magnitude value).toNat / 10 ^ 8) (Nat.mod_lt (magnitude value).toNat (by decide)))

@[simp] theorem text_printed (value : Int64) : (printed value).text = formatDecimal value :=
  (formatDecimal_eq value).symm

@[simp] theorem scaled_printed (value : Int64) : (printed value).scaled = value.toInt := by
  have hunits := units_printed ((magnitude value).toNat / 10 ^ 8)
    (Nat.mod_lt (magnitude value).toNat (by decide : 0 < 10 ^ 8))
  rw [Nat.div_add_mod', toNat_magnitude_eq] at hunits
  rw [← factor_printedSign value, ← hunits, ← toNat_magnitude_eq]
  rfl

theorem canonical_printed (value : Int64) : (printed value).Canonical where
  noPlus := by
    change printedSign value ≠ .plus
    unfold printedSign
    split <;> decide
  noLeadingZero := by
    apply (Decimal.eq_text_iff (printed value).whole_ne_nil (printed value).whole_digits).1
    exact congrArg Decimal.text (Decimal.ofDigits_text _).symm
  noBareDot := by
    change printedFraction _ ≠ _
    unfold printedFraction
    split
    · simp
    · rename_i hne
      obtain ⟨hnil, -⟩ := stripped_padded_spec (Nat.pos_of_ne_zero hne) (Nat.mod_lt _ (by decide))
      simpa using hnil
  noTrailingZero := by
    intro digits hdigits
    change digits ∈ printedFraction _ at hdigits
    unfold printedFraction at hdigits
    split at hdigits
    · cases hdigits
    · cases hdigits
      exact Decimal.getLast?_stripped _
  noMinusZero := by
    intro hminus hzero
    rw [number_eq_zero_iff, scaled_printed] at hzero
    have hneg : value < 0 := by
      by_contra h
      change printedSign value = .minus at hminus
      simp [printedSign, h] at hminus
    rw [Int64.lt_iff_toInt_lt, hzero] at hneg
    exact absurd hneg (by decide)

theorem parseDecimal_formatDecimal (value : Int64) :
    parseDecimal (formatDecimal value) = some value :=
  parseDecimal_eq_some_iff.2 ⟨printed value, text_printed value, (scaled_printed value).symm⟩

theorem formatDecimal_injective : Function.Injective formatDecimal := by
  intro v w h
  have hparse := parseDecimal_formatDecimal v
  rw [h, parseDecimal_formatDecimal] at hparse
  exact (Option.some.inj hparse).symm

def DenotesNumber (value : Bytes) (number : ℚ) : Prop :=
  ∃ s : Spelling, s.text = value ∧ s.number = number

theorem denotesNumber_iff {value : Bytes} {v : Int64} (h : parseDecimal value = some v) {x : ℚ} :
    DenotesNumber value x ↔ x = (printed v).number := by
  constructor
  · rintro ⟨s, rfl, rfl⟩
    rw [number_eq_iff, scaled_printed]
    exact (Spelling.scaled_eq_of_parseDecimal h).symm
  · rintro rfl
    obtain ⟨s, htext, hscaled⟩ := parseDecimal_eq_some_iff.1 h
    exact ⟨s, htext, by rw [number_eq_iff, scaled_printed, hscaled]⟩

theorem number_printed_injective {v w : Int64} (h : (printed v).number = (printed w).number) :
    v = w := by
  rw [number_eq_iff, scaled_printed, scaled_printed] at h
  exact Int64.toInt_inj.1 h

/-- Two accepted texts are printed alike if and only if they denote the same number. -/
theorem formatDecimal_eq_iff {value other : Bytes} {v w : Int64}
    (hv : parseDecimal value = some v) (hw : parseDecimal other = some w) :
    formatDecimal v = formatDecimal w ↔ ∃ x, DenotesNumber value x ∧ DenotesNumber other x := by
  simp only [denotesNumber_iff hv, denotesNumber_iff hw]
  constructor
  · intro h
    exact ⟨_, rfl, by rw [formatDecimal_injective h]⟩
  · rintro ⟨x, rfl, h⟩
    rw [number_printed_injective h]

theorem formatDecimal_canonical :
    (∀ v, parseDecimal (formatDecimal v) = some v) ∧
    (∀ value v, parseDecimal value = some v → ∃ c : Spelling,
      c.text = formatDecimal v ∧ DenotesNumber value c.number ∧ c.Canonical ∧ c.Shortest ∧
        ∀ s : Spelling, s.Canonical → s.number = c.number → s.text = formatDecimal v) ∧
    ∀ value other v w, parseDecimal value = some v → parseDecimal other = some w →
      (formatDecimal v = formatDecimal w ↔ ∃ x, DenotesNumber value x ∧ DenotesNumber other x) := by
  refine ⟨parseDecimal_formatDecimal, ?_, fun _ _ _ _ => formatDecimal_eq_iff⟩
  intro value v h
  have hcanonical := canonical_printed v
  refine ⟨printed v, text_printed v, (denotesNumber_iff h).2 rfl, hcanonical,
    hcanonical.shortest, ?_⟩
  intro s hs hnumber
  rw [hcanonical.unique hs hnumber, text_printed]

theorem formatDecimal_canonical_padded :
    (∃ c : Spelling, c.text = ascii "7.5" ∧ DenotesNumber (ascii "+007.50") c.number ∧ c.Canonical ∧
      c.Shortest ∧ ∀ s : Spelling, s.Canonical → s.number = c.number → s.text = ascii "7.5") ∧
    ∃ x, DenotesNumber (ascii "+007.50") x ∧ DenotesNumber (ascii "7.5") x := by
  have hformat : formatDecimal 750000000 = ascii "7.5" := by decide +kernel
  have hpadded : parseDecimal (ascii "+007.50") = some 750000000 := by decide +kernel
  have hplain : parseDecimal (ascii "7.5") = some 750000000 := by decide +kernel
  refine ⟨?_, (formatDecimal_canonical.2.2 _ _ _ _ hpadded hplain).1 rfl⟩
  rw [← hformat]
  exact formatDecimal_canonical.2.1 _ _ hpadded

end Format

end BengalMarket
