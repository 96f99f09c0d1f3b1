import Mathlib.Algebra.Group.Nat.Defs
import Mathlib.Data.List.Basic
import Mathlib.Data.List.DropRight

namespace Decimal

def isDigit (byte : UInt8) : Bool := 48 ≤ byte && byte ≤ 57

def digitValue (byte : UInt8) : Nat := byte.toNat - 48

def ofDigits (digits : List UInt8) : Nat :=
  digits.foldl (fun value byte => value * 10 + digitValue byte) 0

def text (n : Nat) : List UInt8 := (Nat.toDigits 10 n).map Char.toUInt8

theorem text_eq_if (n : Nat) :
    text n = if n < 10 then [UInt8.ofNat (48 + n)]
      else text (n / 10) ++ [UInt8.ofNat (48 + n % 10)] := by
  have digit : ∀ d < 10, (Nat.digitChar d).toUInt8 = UInt8.ofNat (48 + d) := by decide
  unfold text
  rw [Nat.toDigits_eq_if (by decide)]
  split
  · rename_i h
    simp [digit n h]
  · simp [digit (n % 10) (Nat.mod_lt _ (by decide))]

theorem text_ne_nil (n : Nat) : text n ≠ [] := by
  simp [text, Nat.toDigits_ne_nil]

theorem isDigit_ofNat {d : Nat} (h : d < 10) : isDigit (UInt8.ofNat (48 + d)) = true := by
  have all : ∀ d < 10, isDigit (UInt8.ofNat (48 + d)) = true := by decide
  exact all d h

theorem digitValue_ofNat {d : Nat} (h : d < 10) : digitValue (UInt8.ofNat (48 + d)) = d := by
  have all : ∀ d < 10, digitValue (UInt8.ofNat (48 + d)) = d := by decide
  exact all d h

theorem isDigit_of_mem_text {n : Nat} {byte : UInt8} (h : byte ∈ text n) : isDigit byte = true := by
  induction n using Nat.strong_induction_on with
  | _ n ih =>
    rw [text_eq_if] at h
    split at h
    · rename_i hlt
      rw [List.mem_singleton] at h
      exact h ▸ isDigit_ofNat hlt
    · rename_i hge
      rcases List.mem_append.1 h with h | h
      · exact ih (n / 10) (by omega) h
      · rw [List.mem_singleton] at h
        exact h ▸ isDigit_ofNat (Nat.mod_lt _ (by decide))

@[simp] theorem ofDigits_append_singleton (digits : List UInt8) (byte : UInt8) :
    ofDigits (digits ++ [byte]) = ofDigits digits * 10 + digitValue byte := by
  simp [ofDigits]

@[simp] theorem ofDigits_text (n : Nat) : ofDigits (text n) = n := by
  induction n using Nat.strong_induction_on with
  | _ n ih =>
    rw [text_eq_if]
    split
    · rename_i h
      change 0 * 10 + digitValue (UInt8.ofNat (48 + n)) = n
      rw [digitValue_ofNat h]
      omega
    · rename_i h
      rw [ofDigits_append_singleton, ih (n / 10) (by omega),
        digitValue_ofNat (Nat.mod_lt _ (by decide))]
      omega

theorem length_text_le {n k : Nat} (h : n < 10 ^ k) (hk : 0 < k) : (text n).length ≤ k := by
  rw [text, List.length_map]
  exact (Nat.length_toDigits_le_iff (by decide) hk).2 h

theorem takeWhile_text_append (n : Nat) {rest : List UInt8}
    (h : ∀ byte ∈ rest.head?, isDigit byte = false) :
    (text n ++ rest).takeWhile isDigit = text n := by
  rw [List.takeWhile_append_of_pos fun _ => isDigit_of_mem_text]
  cases rest with
  | nil => simp
  | cons byte rest => simp [h byte (by simp)]

theorem dropWhile_text_append (n : Nat) {rest : List UInt8}
    (h : ∀ byte ∈ rest.head?, isDigit byte = false) :
    (text n ++ rest).dropWhile isDigit = rest := by
  rw [List.dropWhile_append_of_pos fun _ => isDigit_of_mem_text]
  cases rest with
  | nil => rfl
  | cons byte rest => simp [h byte (by simp)]

section Values

def Digits (bytes : List UInt8) : Prop := ∀ byte ∈ bytes, isDigit byte = true

instance (bytes : List UInt8) : Decidable (Digits bytes) :=
  decidable_of_iff (bytes.all isDigit = true) List.all_eq_true

def zero : UInt8 := 48

/-- The numeral, filled up with zeros on the left to at least `width` digits. -/
def padded (width n : Nat) : List UInt8 :=
  List.replicate (width - (text n).length) zero ++ text n

theorem digits_nil : Digits [] := by simp [Digits]

@[simp] theorem digits_append_iff {xs ys : List UInt8} :
    Digits (xs ++ ys) ↔ Digits xs ∧ Digits ys := by
  simp [Digits, or_imp, forall_and]

@[simp] theorem digits_cons_iff {byte : UInt8} {digits : List UInt8} :
    Digits (byte :: digits) ↔ isDigit byte = true ∧ Digits digits := by
  simp [Digits]

theorem digits_text (n : Nat) : Digits (text n) := fun _ => isDigit_of_mem_text

theorem digits_replicate_zero (k : Nat) : Digits (List.replicate k zero) := by
  intro byte hbyte
  rw [List.eq_of_mem_replicate hbyte]
  rfl

theorem isDigit_iff {byte : UInt8} : isDigit byte = true ↔ 48 ≤ byte.toNat ∧ byte.toNat ≤ 57 := by
  simp [isDigit, UInt8.le_iff_toNat_le]

theorem digitValue_lt {byte : UInt8} (h : isDigit byte = true) : digitValue byte < 10 := by
  have hbounds := isDigit_iff.1 h
  rw [digitValue]
  omega

theorem digitValue_inj {a b : UInt8} (ha : isDigit a = true) (hb : isDigit b = true)
    (h : digitValue a = digitValue b) : a = b := by
  have hboundsa := isDigit_iff.1 ha
  have hboundsb := isDigit_iff.1 hb
  apply UInt8.toNat.inj
  rw [digitValue, digitValue] at h
  omega

@[simp] theorem ofDigits_nil : ofDigits [] = 0 := rfl

theorem ofDigits_append (xs ys : List UInt8) :
    ofDigits (xs ++ ys) = ofDigits xs * 10 ^ ys.length + ofDigits ys := by
  induction ys using List.reverseRecOn with
  | nil => simp
  | append_singleton ys byte ih =>
    rw [← List.append_assoc, ofDigits_append_singleton, ih, ofDigits_append_singleton,
      List.length_append, List.length_singleton, Nat.pow_succ, Nat.add_mul, Nat.mul_assoc,
      Nat.add_assoc]

theorem ofDigits_cons (byte : UInt8) (digits : List UInt8) :
    ofDigits (byte :: digits) = digitValue byte * 10 ^ digits.length + ofDigits digits := by
  have hsplit := ofDigits_append [byte] digits
  simpa [ofDigits] using hsplit

@[simp] theorem ofDigits_replicate_zero (k : Nat) : ofDigits (List.replicate k zero) = 0 := by
  induction k with
  | zero => rfl
  | succ k ih =>
    rw [List.replicate_succ, ofDigits_cons, ih]
    simp [digitValue, zero]

theorem ofDigits_lt {digits : List UInt8} (h : Digits digits) :
    ofDigits digits < 10 ^ digits.length := by
  induction digits using List.reverseRecOn with
  | nil => decide
  | append_singleton digits byte ih =>
    obtain ⟨hdigits, hbyte⟩ := digits_append_iff.1 h
    have hlast := digitValue_lt (hbyte byte (by simp))
    have hlt := ih hdigits
    rw [ofDigits_append_singleton, List.length_append, List.length_singleton, Nat.pow_succ]
    omega

theorem ofDigits_inj {xs ys : List UInt8} (hx : Digits xs) (hy : Digits ys)
    (hlength : xs.length = ys.length) (h : ofDigits xs = ofDigits ys) : xs = ys := by
  induction xs using List.reverseRecOn generalizing ys with
  | nil => exact (List.eq_nil_of_length_eq_zero hlength.symm).symm
  | append_singleton xs x ih =>
    rcases List.eq_nil_or_concat ys with rfl | ⟨ys, y, rfl⟩
    · simp at hlength
    · rw [List.concat_eq_append] at *
      obtain ⟨hxs, hlastx⟩ := digits_append_iff.1 hx
      obtain ⟨hys, hlasty⟩ := digits_append_iff.1 hy
      have hdigitx := hlastx x (by simp)
      have hdigity := hlasty y (by simp)
      have hltx := digitValue_lt hdigitx
      have hlty := digitValue_lt hdigity
      rw [ofDigits_append_singleton, ofDigits_append_singleton] at h
      have hlast : x = y := digitValue_inj hdigitx hdigity (by omega)
      have hrest : xs = ys := ih hxs hys (by simpa using hlength) (by omega)
      rw [hlast, hrest]

theorem length_text_ofDigits_le {digits : List UInt8} (hne : digits ≠ []) (h : Digits digits) :
    (text (ofDigits digits)).length ≤ digits.length :=
  length_text_le (ofDigits_lt h) (List.length_pos_of_ne_nil hne)

theorem eq_text_of_length_le {digits : List UInt8} (hne : digits ≠ []) (h : Digits digits)
    (hlength : digits.length ≤ (text (ofDigits digits)).length) :
    digits = text (ofDigits digits) :=
  ofDigits_inj h (digits_text _) (hlength.antisymm (length_text_ofDigits_le hne h))
    (ofDigits_text _).symm

theorem eq_text_iff {digits : List UInt8} (hne : digits ≠ []) (h : Digits digits) :
    digits = text (ofDigits digits) ↔ (digits.head? = some zero → digits = [zero]) := by
  cases digits with
  | nil => exact absurd rfl hne
  | cons first digits =>
    obtain ⟨hfirst, hdigits⟩ := digits_cons_iff.1 h
    constructor
    · intro heq hhead
      obtain rfl : first = zero := by simpa using hhead
      by_contra hlong
      have hrest : digits ≠ [] := fun hnil => hlong (by rw [hnil])
      have hshort := length_text_ofDigits_le hrest hdigits
      have hvalue : ofDigits (zero :: digits) = ofDigits digits := by
        simp [ofDigits_cons, digitValue, zero]
      rw [hvalue] at heq
      rw [← heq, List.length_cons] at hshort
      omega
    · intro hleading
      apply eq_text_of_length_le hne h
      by_cases hzero : first = zero
      · rw [hleading (by rw [hzero]; rfl)]
        decide
      · by_contra hshort
        have hpos : 0 < digitValue first := by
          have hvalue : digitValue first ≠ digitValue zero := fun heq =>
            hzero (digitValue_inj hfirst rfl heq)
          exact Nat.pos_of_ne_zero hvalue
        have hlow : 10 ^ digits.length ≤ ofDigits (first :: digits) := by
          rw [ofDigits_cons]
          exact (Nat.le_mul_of_pos_left _ hpos).trans (Nat.le_add_right _ _)
        have hle : (text (ofDigits (first :: digits))).length ≤ digits.length := by
          rw [List.length_cons] at hshort
          omega
        have hpositive : 0 < digits.length :=
          (List.length_pos_of_ne_nil (text_ne_nil _)).trans_le hle
        rw [text, List.length_map, Nat.length_toDigits_le_iff (by decide) hpositive] at hle
        exact absurd hle (Nat.not_lt.2 hlow)

@[simp] theorem ofDigits_padded (width n : Nat) : ofDigits (padded width n) = n := by
  rw [padded, ofDigits_append, ofDigits_replicate_zero, ofDigits_text, Nat.zero_mul, Nat.zero_add]

theorem digits_padded (width n : Nat) : Digits (padded width n) :=
  digits_append_iff.2 ⟨digits_replicate_zero _, digits_text n⟩

theorem length_padded {width n : Nat} (h : n < 10 ^ width) (hwidth : 0 < width) :
    (padded width n).length = width := by
  have hle := length_text_le h hwidth
  rw [padded, List.length_append, List.length_replicate]
  omega

theorem padded_ofDigits {digits : List UInt8} (hne : digits ≠ []) (h : Digits digits) :
    padded digits.length (ofDigits digits) = digits :=
  ofDigits_inj (digits_padded _ _) h
    (length_padded (ofDigits_lt h) (List.length_pos_of_ne_nil hne)) (ofDigits_padded _ _)

end Values

section Fractions

def stripped (digits : List UInt8) : List UInt8 := digits.rdropWhile (· == zero)

theorem stripped_concat_zero (digits : List UInt8) :
    stripped (digits ++ [zero]) = stripped digits :=
  List.rdropWhile_concat_pos _ _ _ rfl

theorem stripped_concat_of_ne {byte : UInt8} (h : byte ≠ zero) (digits : List UInt8) :
    stripped (digits ++ [byte]) = digits ++ [byte] :=
  List.rdropWhile_concat_neg _ _ _ (by simpa using h)

theorem exists_stripped_append (digits : List UInt8) :
    ∃ k, digits = stripped digits ++ List.replicate k zero := by
  induction digits using List.reverseRecOn with
  | nil => exact ⟨0, rfl⟩
  | append_singleton digits byte ih =>
    by_cases hzero : byte = zero
    · subst hzero
      obtain ⟨k, hk⟩ := ih
      refine ⟨k + 1, ?_⟩
      rw [stripped_concat_zero, List.replicate_succ', ← List.append_assoc, ← hk]
    · exact ⟨0, by rw [stripped_concat_of_ne hzero, List.replicate_zero, List.append_nil]⟩

theorem stripped_append {ys : List UInt8} (h : stripped ys ≠ []) (xs : List UInt8) :
    stripped (xs ++ ys) = xs ++ stripped ys := by
  induction ys using List.reverseRecOn with
  | nil => exact absurd rfl h
  | append_singleton ys byte ih =>
    rw [← List.append_assoc]
    by_cases hzero : byte = zero
    · subst hzero
      rw [stripped_concat_zero] at h ⊢
      rw [stripped_concat_zero]
      exact ih h
    · rw [stripped_concat_of_ne hzero, stripped_concat_of_ne hzero, List.append_assoc]

theorem getLast?_stripped (digits : List UInt8) : (stripped digits).getLast? ≠ some zero := by
  induction digits using List.reverseRecOn with
  | nil => simp [stripped]
  | append_singleton digits byte ih =>
    by_cases hzero : byte = zero
    · subst hzero
      rwa [stripped_concat_zero]
    · simpa [stripped_concat_of_ne hzero] using hzero

theorem ofDigits_append_zeros (digits : List UInt8) (k : Nat) :
    ofDigits (digits ++ List.replicate k zero) = ofDigits digits * 10 ^ k := by
  rw [ofDigits_append, ofDigits_replicate_zero, List.length_replicate, Nat.add_zero]

/-- Of the fractions with one value, the one without trailing zeros is the only
shortest one. -/
theorem length_fraction_le {xs ys : List UInt8} {width : Nat} (hx : Digits xs) (hy : Digits ys)
    (hlx : xs.length ≤ width) (hly : ys.length ≤ width) (hlast : xs.getLast? ≠ some zero)
    (h : ofDigits xs * 10 ^ (width - xs.length) = ofDigits ys * 10 ^ (width - ys.length)) :
    xs.length ≤ ys.length ∧ (ys.length ≤ xs.length → ys = xs) := by
  have hpadded : xs ++ List.replicate (width - xs.length) zero =
      ys ++ List.replicate (width - ys.length) zero := by
    apply ofDigits_inj
    · exact digits_append_iff.2 ⟨hx, digits_replicate_zero _⟩
    · exact digits_append_iff.2 ⟨hy, digits_replicate_zero _⟩
    · simp only [List.length_append, List.length_replicate]
      omega
    · rw [ofDigits_append_zeros, ofDigits_append_zeros, h]
  have hle : xs.length ≤ ys.length := by
    by_contra hshort
    rw [Nat.not_le] at hshort
    have hget : xs.getLast? = some zero := by
      rw [List.getLast?_eq_getElem?]
      have hindex : xs.length - 1 < xs.length := by omega
      have hsame := congrArg (fun bytes => bytes[xs.length - 1]?) hpadded
      rw [List.getElem?_append_left hindex, List.getElem?_append_right (by omega),
        List.getElem?_replicate, if_pos (by omega)] at hsame
      exact hsame
    exact hlast hget
  refine ⟨hle, fun hge => ?_⟩
  exact (List.append_inj hpadded (hle.antisymm hge)).1.symm

end Fractions

end Decimal
