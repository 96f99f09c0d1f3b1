import BengalMarket.Library.Decimal
import BengalMarket.Library.Json

namespace JsonText

/-- Well-formed UTF-8: no overlong form, no surrogate, nothing above U+10FFFF. -/
def utf8 : List UInt8 → Bool
  | [] => true
  | a :: rest =>
    if a < 0x80 then utf8 rest
    else match rest with
      | [] => false
      | b :: rest =>
        if 0xC2 ≤ a && a ≤ 0xDF then 0x80 ≤ b && b ≤ 0xBF && utf8 rest
        else match rest with
          | [] => false
          | c :: rest =>
            if 0xE0 ≤ a && a ≤ 0xEF then
              (if a = 0xE0 then (0xA0 : UInt8) else 0x80) ≤ b &&
                b ≤ (if a = 0xED then (0x9F : UInt8) else 0xBF) &&
                0x80 ≤ c && c ≤ 0xBF && utf8 rest
            else match rest with
              | [] => false
              | d :: rest =>
                0xF0 ≤ a && a ≤ 0xF4 &&
                  (if a = 0xF0 then (0x90 : UInt8) else 0x80) ≤ b &&
                  b ≤ (if a = 0xF4 then (0x8F : UInt8) else 0xBF) &&
                  0x80 ≤ c && c ≤ 0xBF && 0x80 ≤ d && d ≤ 0xBF && utf8 rest

def quote : UInt8 := 0x22

def backslash : UInt8 := 0x5C

def hexDigit (n : Nat) : UInt8 := UInt8.ofNat (if n < 10 then 0x30 + n else 0x57 + n)

def escapeByte (byte : UInt8) : List UInt8 :=
  if byte = quote then [backslash, quote]
  else if byte = backslash then [backslash, backslash]
  else if byte = 0x08 then [backslash, 0x62]
  else if byte = 0x09 then [backslash, 0x74]
  else if byte = 0x0A then [backslash, 0x6E]
  else if byte = 0x0C then [backslash, 0x66]
  else if byte = 0x0D then [backslash, 0x72]
  else if byte < 0x20 then
    [backslash, 0x75, 0x30, 0x30, hexDigit (byte.toNat / 16), hexDigit (byte.toNat % 16)]
  else [byte]

def escape (text : List UInt8) : List UInt8 := text.flatMap escapeByte

def string (text : List UInt8) : List UInt8 := quote :: (escape text ++ [quote])

def integer (value : Int) : List UInt8 :=
  if 0 ≤ value then Decimal.text value.toNat else 0x2D :: Decimal.text value.natAbs

variable {Double : Type} (double : Double → List UInt8)

mutual

/-- The text of a value; `double` prints the doubles. -/
def render : Json Double → List UInt8
  | .null => [0x6E, 0x75, 0x6C, 0x6C]
  | .bool true => [0x74, 0x72, 0x75, 0x65]
  | .bool false => [0x66, 0x61, 0x6C, 0x73, 0x65]
  | .unsigned value => Decimal.text value.toNat
  | .integer value => integer value.toInt
  | .float value => double value
  | .string value => string value
  | .array [] => [0x5B, 0x5D]
  | .array (value :: rest) => 0x5B :: (render value ++ renderElements rest)
  | .object [] => [0x7B, 0x7D]
  | .object ((key, value) :: rest) =>
    0x7B :: (string key ++ 0x3A :: (render value ++ renderMembers rest))

def renderElements : List (Json Double) → List UInt8
  | [] => [0x5D]
  | value :: rest => 0x2C :: (render value ++ renderElements rest)

def renderMembers : List (List UInt8 × Json Double) → List UInt8
  | [] => [0x7D]
  | (key, value) :: rest =>
    0x2C :: (string key ++ 0x3A :: (render value ++ renderMembers rest))

end

def compact (value : Json Double) : List UInt8 := render (fun _ => []) value

def increasing : List (List UInt8 × Json Double) → Bool
  | [] => true
  | (key, _) :: rest => rest.all (fun member => decide (key < member.1)) && increasing rest

theorem increasing_iff (members : List (List UInt8 × Json Double)) :
    increasing members = true ↔ (members.map Prod.fst).Pairwise (· < ·) := by
  induction members with
  | nil => simp [increasing]
  | cons member rest ih =>
    obtain ⟨key, value⟩ := member
    simp [increasing, ih]

mutual

/-- A value without doubles; `checked`, its texts are UTF-8; `parsed`, it is one that a
parser builds: its numbers are signed only if negative, and its keys increase. -/
def plain (checked parsed : Bool) : Json Double → Bool
  | .null | .bool _ | .unsigned _ => true
  | .integer value => !parsed || decide (value < 0)
  | .float _ => false
  | .string value => !checked || utf8 value
  | .array elements => plainElements checked parsed elements
  | .object members => (!parsed || increasing members) && plainMembers checked parsed members

def plainElements (checked parsed : Bool) : List (Json Double) → Bool
  | [] => true
  | value :: rest => plain checked parsed value && plainElements checked parsed rest

def plainMembers (checked parsed : Bool) : List (List UInt8 × Json Double) → Bool
  | [] => true
  | (key, value) :: rest =>
    (!checked || utf8 key) && plain checked parsed value && plainMembers checked parsed rest

end

abbrev doubleFree : Json Double → Bool := plain false false

abbrev printable : Json Double → Bool := plain true false

abbrev canonical : Json Double → Bool := plain true true

section Plain

variable {checked parsed : Bool}

theorem plainElements_iff {elements : List (Json Double)} :
    plainElements checked parsed elements = true ↔
      ∀ value ∈ elements, plain checked parsed value = true := by
  induction elements with
  | nil => simp [plainElements]
  | cons value elements ih => simp [plainElements, ih]

theorem plainMembers_iff {members : List (List UInt8 × Json Double)} :
    plainMembers checked parsed members = true ↔
      ∀ member ∈ members,
        (!checked || utf8 member.1) = true ∧ plain checked parsed member.2 = true := by
  induction members with
  | nil => simp [plainMembers]
  | cons member members ih =>
    obtain ⟨key, value⟩ := member
    simp [plainMembers, ih]

theorem plain_object_iff {members : List (List UInt8 × Json Double)} {keys : List (List UInt8)}
    (hkeys : keys.Pairwise (· < ·) ∧ ∀ key ∈ keys, utf8 key = true)
    (hmembers : members.map Prod.fst = keys) :
    plain checked parsed (.object members) = true ↔
      ∀ member ∈ members, plain checked parsed member.2 = true := by
  have hincreasing : increasing members = true := (increasing_iff members).2 (hmembers ▸ hkeys.1)
  rw [plain, hincreasing, Bool.or_true, Bool.true_and, plainMembers_iff]
  refine forall₂_congr fun member hmember => ?_
  have hutf8 := hkeys.2 member.1 (hmembers ▸ List.mem_map_of_mem hmember)
  simp [hutf8]

end Plain

theorem escapeByte_of_le {byte : UInt8} (h : 0x20 ≤ byte) :
    escapeByte byte =
      if byte = quote then [backslash, quote]
      else if byte = backslash then [backslash, backslash] else [byte] := by
  have hne : ∀ control : UInt8, control < 0x20 → byte ≠ control :=
    fun control hcontrol heq => absurd (heq ▸ h) (UInt8.not_le.2 hcontrol)
  rw [escapeByte, if_neg (hne 0x08 (by decide)), if_neg (hne 0x09 (by decide)),
    if_neg (hne 0x0A (by decide)), if_neg (hne 0x0C (by decide)), if_neg (hne 0x0D (by decide)),
    if_neg (UInt8.not_lt.2 h)]

theorem forall_control {P : UInt8 → Prop} (h : ∀ n < 32, P (UInt8.ofNat n)) {byte : UInt8}
    (hbyte : byte < 0x20) : P byte := by
  have hlt : byte.toNat < 32 := UInt8.lt_iff_toNat_lt.1 hbyte
  simpa using h byte.toNat hlt

theorem length_escapeByte_le (byte : UInt8) : (escapeByte byte).length ≤ 6 := by
  by_cases h : byte < 0x20
  · exact forall_control (P := fun byte => (escapeByte byte).length ≤ 6) (by decide) h
  · rw [escapeByte_of_le (UInt8.not_lt.1 h)]
    split
    · simp
    · split <;> simp

theorem le_of_mem_all {text : List UInt8} (hall : text.all (0x20 ≤ ·) = true) {out : UInt8}
    (h : out ∈ text) : 0x20 ≤ out :=
  of_decide_eq_true (List.all_eq_true.1 hall out h)

theorem le_of_mem_escapeByte {byte out : UInt8} (h : out ∈ escapeByte byte) : 0x20 ≤ out := by
  by_cases hbyte : byte < 0x20
  · exact le_of_mem_all (forall_control
      (P := fun byte => (escapeByte byte).all (0x20 ≤ ·) = true) (by decide) hbyte) h
  · rw [escapeByte_of_le (UInt8.not_lt.1 hbyte)] at h
    split at h
    · rcases List.mem_pair.1 h with rfl | rfl <;> decide
    · split at h
      · rcases List.mem_pair.1 h with rfl | rfl <;> decide
      · rw [List.mem_singleton.1 h]
        exact UInt8.not_lt.1 hbyte

theorem length_escape_le (text : List UInt8) : (escape text).length ≤ 6 * text.length := by
  induction text with
  | nil => exact Nat.le_refl _
  | cons byte text ih =>
    have hbyte := length_escapeByte_le byte
    simp only [escape, List.flatMap_cons, List.length_append, List.length_cons] at ih ⊢
    omega

theorem length_string (text : List UInt8) : (string text).length = (escape text).length + 2 := by
  simp [string]

theorem le_of_mem_string {text : List UInt8} {out : UInt8} (h : out ∈ string text) :
    0x20 ≤ out := by
  rcases List.mem_cons.1 h with rfl | h
  · decide
  · rcases List.mem_append.1 h with h | h
    · obtain ⟨byte, -, hout⟩ := List.mem_flatMap.1 h
      exact le_of_mem_escapeByte hout
    · rw [List.mem_singleton.1 h]
      decide

theorem le_of_mem_text {n : Nat} {out : UInt8} (h : out ∈ Decimal.text n) : 0x20 ≤ out := by
  have hdigit := Decimal.isDigit_of_mem_text h
  simp only [Decimal.isDigit, Bool.and_eq_true, decide_eq_true_eq] at hdigit
  exact UInt8.le_trans (by decide) hdigit.1

theorem le_of_mem_integer {value : Int} {out : UInt8} (h : out ∈ integer value) : 0x20 ≤ out := by
  unfold integer at h
  split at h
  · exact le_of_mem_text h
  · rcases List.mem_cons.1 h with rfl | h
    · decide
    · exact le_of_mem_text h

variable {checked parsed : Bool}

mutual

/-- The text of a value without doubles has no control character, so no newline. -/
theorem le_of_mem_render {value : Json Double} (hvalue : plain checked parsed value = true)
    {out : UInt8} (h : out ∈ render double value) : 0x20 ≤ out := by
  match value with
  | .null => rw [render] at h; exact le_of_mem_all (by decide) h
  | .bool true => rw [render] at h; exact le_of_mem_all (by decide) h
  | .bool false => rw [render] at h; exact le_of_mem_all (by decide) h
  | .unsigned value => exact le_of_mem_text (by simpa [render] using h)
  | .integer value => exact le_of_mem_integer (by simpa [render] using h)
  | .float value => simp [plain] at hvalue
  | .string value => exact le_of_mem_string (by simpa [render] using h)
  | .array [] => rw [render] at h; exact le_of_mem_all (by decide) h
  | .array (value :: rest) =>
    simp only [plain, plainElements, Bool.and_eq_true] at hvalue
    simp only [render, List.mem_cons, List.mem_append] at h
    rcases h with rfl | h | h
    · decide
    · exact le_of_mem_render hvalue.1 h
    · exact le_of_mem_renderElements hvalue.2 h
  | .object [] => rw [render] at h; exact le_of_mem_all (by decide) h
  | .object ((key, value) :: rest) =>
    simp only [plain, plainMembers, Bool.and_eq_true] at hvalue
    simp only [render, List.mem_cons, List.mem_append] at h
    rcases h with rfl | h | rfl | h | h
    · decide
    · exact le_of_mem_string h
    · decide
    · exact le_of_mem_render hvalue.2.1.2 h
    · exact le_of_mem_renderMembers hvalue.2.2 h

theorem le_of_mem_renderElements {values : List (Json Double)}
    (hvalues : plainElements checked parsed values = true) {out : UInt8}
    (h : out ∈ renderElements double values) : 0x20 ≤ out := by
  match values with
  | [] => rw [renderElements] at h; exact le_of_mem_all (by decide) h
  | value :: rest =>
    simp only [plainElements, Bool.and_eq_true] at hvalues
    simp only [renderElements, List.mem_cons, List.mem_append] at h
    rcases h with rfl | h | h
    · decide
    · exact le_of_mem_render hvalues.1 h
    · exact le_of_mem_renderElements hvalues.2 h

theorem le_of_mem_renderMembers {members : List (List UInt8 × Json Double)}
    (hmembers : plainMembers checked parsed members = true) {out : UInt8}
    (h : out ∈ renderMembers double members) : 0x20 ≤ out := by
  match members with
  | [] => rw [renderMembers] at h; exact le_of_mem_all (by decide) h
  | (key, value) :: rest =>
    simp only [plainMembers, Bool.and_eq_true] at hmembers
    simp only [renderMembers, List.mem_cons, List.mem_append] at h
    rcases h with rfl | h | rfl | h | h
    · decide
    · exact le_of_mem_string h
    · decide
    · exact le_of_mem_render hmembers.1.2 h
    · exact le_of_mem_renderMembers hmembers.2 h

end

end JsonText

/-- What the serializer and the parser of a library promise for values without doubles. -/
structure JsonLibrary.Lawful (J : JsonLibrary) : Prop where
  dump : ∀ value, JsonText.printable value = true → J.dump value = .ok (JsonText.compact value)
  refuse : ∀ value, JsonText.doubleFree value = true → JsonText.printable value = false →
    ∃ what, J.dump value = .error what
  parse : ∀ value, JsonText.canonical value = true → J.parse (JsonText.compact value) = some value
