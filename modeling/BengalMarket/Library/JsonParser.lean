import BengalMarket.Library.JsonLayout
import Mathlib.Tactic.IntervalCases

namespace JsonText

abbrev Plain := Json Empty

def skipSpace (input : List UInt8) : List UInt8 := input.dropWhile isSpace

def hexValue (byte : UInt8) : Option Nat :=
  if 0x30 ≤ byte && byte ≤ 0x39 then some (byte.toNat - 0x30)
  else if 0x61 ≤ byte && byte ≤ 0x66 then some (byte.toNat - 0x57)
  else if 0x41 ≤ byte && byte ≤ 0x46 then some (byte.toNat - 0x37)
  else none

def parseHex4 : List UInt8 → Option (Nat × List UInt8)
  | a :: b :: c :: d :: rest => do
    let a ← hexValue a
    let b ← hexValue b
    let c ← hexValue c
    let d ← hexValue d
    some (((a * 16 + b) * 16 + c) * 16 + d, rest)
  | _ => none

def encode (code : Nat) : List UInt8 :=
  if code < 0x80 then [UInt8.ofNat code]
  else if code < 0x800 then [UInt8.ofNat (0xC0 + code / 64), UInt8.ofNat (0x80 + code % 64)]
  else if code < 0x10000 then
    [UInt8.ofNat (0xE0 + code / 4096), UInt8.ofNat (0x80 + code / 64 % 64),
      UInt8.ofNat (0x80 + code % 64)]
  else
    [UInt8.ofNat (0xF0 + code / 262144), UInt8.ofNat (0x80 + code / 4096 % 64),
      UInt8.ofNat (0x80 + code / 64 % 64), UInt8.ofNat (0x80 + code % 64)]

def isHigh (code : Nat) : Bool := 0xD800 ≤ code && code < 0xDC00

def isLow (code : Nat) : Bool := 0xDC00 ≤ code && code < 0xE000

def parseUnicode (input : List UInt8) : Option (List UInt8 × List UInt8) := do
  let (code, rest) ← parseHex4 input
  if isHigh code then
    match rest with
    | 0x5C :: 0x75 :: rest =>
      let (low, rest) ← parseHex4 rest
      if isLow low then some (encode (0x10000 + (code - 0xD800) * 1024 + (low - 0xDC00)), rest)
      else none
    | _ => none
  else if isLow code then none
  else some (encode code, rest)

def parseEscape : List UInt8 → Option (List UInt8 × List UInt8)
  | 0x22 :: rest => some ([0x22], rest)
  | 0x5C :: rest => some ([0x5C], rest)
  | 0x2F :: rest => some ([0x2F], rest)
  | 0x62 :: rest => some ([0x08], rest)
  | 0x66 :: rest => some ([0x0C], rest)
  | 0x6E :: rest => some ([0x0A], rest)
  | 0x72 :: rest => some ([0x0D], rest)
  | 0x74 :: rest => some ([0x09], rest)
  | 0x75 :: rest => parseUnicode rest
  | _ => none

def parseChar : List UInt8 → Option (List UInt8 × List UInt8)
  | [] => none
  | byte :: rest =>
    if byte < 0x20 then none
    else if byte = backslash then parseEscape rest
    else some ([byte], rest)

def parseChars : Nat → List UInt8 → Option (List UInt8 × List UInt8)
  | 0, _ => none
  | _, [] => none
  | fuel + 1, byte :: rest =>
    if byte = quote then some ([], rest)
    else do
      let (char, rest) ← parseChar (byte :: rest)
      let (chars, rest) ← parseChars fuel rest
      some (char ++ chars, rest)

def parseString (input : List UInt8) : Option (List UInt8 × List UInt8) := do
  let (text, rest) ← parseChars (input.length + 1) input
  if utf8 text then some (text, rest) else none

def continues : List UInt8 → Bool
  | byte :: _ => byte == 0x2E || byte == 0x65 || byte == 0x45
  | [] => false

def digitsOk : List UInt8 → Bool
  | [] => false
  | [_] => true
  | first :: _ => first != 0x30

def parseDigits (input : List UInt8) : Option (Nat × List UInt8) :=
  let digits := input.takeWhile Decimal.isDigit
  let rest := input.dropWhile Decimal.isDigit
  if digitsOk digits && !continues rest then some (Decimal.ofDigits digits, rest) else none

def parseNumber : List UInt8 → Option (Plain × List UInt8)
  | 0x2D :: input => do
    let (n, rest) ← parseDigits input
    if n ≤ 2 ^ 63 then some (.integer (Int64.ofInt (-n)), rest) else none
  | input => do
    let (n, rest) ← parseDigits input
    if n < 2 ^ 64 then some (.unsigned (UInt64.ofNat n), rest) else none

def insertMember (key : List UInt8) (value : Plain) :
    List (List UInt8 × Plain) → List (List UInt8 × Plain)
  | [] => [(key, value)]
  | (other, first) :: rest =>
    if key < other then (key, value) :: (other, first) :: rest
    else if key = other then (key, value) :: rest
    else (other, first) :: insertMember key value rest

/-- The map of the members in the order of the text; the last of equal keys stays. -/
def mapOf (members : List (List UInt8 × Plain)) : List (List UInt8 × Plain) :=
  members.foldl (fun map member => insertMember member.1 member.2 map) []

section Loops

variable (parseValue : List UInt8 → Option (Plain × List UInt8))

def parseElements : Nat → List UInt8 → Option (List Plain × List UInt8)
  | 0, _ => none
  | fuel + 1, input =>
    match skipSpace input with
    | 0x5D :: rest => some ([], rest)
    | 0x2C :: rest => do
      let (value, rest) ← parseValue rest
      let (values, rest) ← parseElements fuel rest
      some (value :: values, rest)
    | _ => none

def parseMember (input : List UInt8) : Option ((List UInt8 × Plain) × List UInt8) :=
  match skipSpace input with
  | 0x22 :: rest => do
    let (key, rest) ← parseString rest
    match skipSpace rest with
    | 0x3A :: rest => do
      let (value, rest) ← parseValue rest
      some ((key, value), rest)
    | _ => none
  | _ => none

def parseMembers : Nat → List UInt8 → Option (List (List UInt8 × Plain) × List UInt8)
  | 0, _ => none
  | fuel + 1, input =>
    match skipSpace input with
    | 0x7D :: rest => some ([], rest)
    | 0x2C :: rest => do
      let (member, rest) ← parseMember parseValue rest
      let (members, rest) ← parseMembers fuel rest
      some (member :: members, rest)
    | _ => none

end Loops

def parseValue : Nat → List UInt8 → Option (Plain × List UInt8)
  | 0, _ => none
  | fuel + 1, input =>
    match skipSpace input with
    | 0x6E :: 0x75 :: 0x6C :: 0x6C :: rest => some (.null, rest)
    | 0x74 :: 0x72 :: 0x75 :: 0x65 :: rest => some (.bool true, rest)
    | 0x66 :: 0x61 :: 0x6C :: 0x73 :: 0x65 :: rest => some (.bool false, rest)
    | 0x22 :: rest => do
      let (text, rest) ← parseString rest
      some (.string text, rest)
    | 0x5B :: rest =>
      match skipSpace rest with
      | 0x5D :: rest => some (.array [], rest)
      | rest => do
        let (value, rest) ← parseValue fuel rest
        let (values, rest) ← parseElements (parseValue fuel) fuel rest
        some (.array (value :: values), rest)
    | 0x7B :: rest =>
      match skipSpace rest with
      | 0x7D :: rest => some (.object [], rest)
      | rest => do
        let (member, rest) ← parseMember (parseValue fuel) rest
        let (members, rest) ← parseMembers (parseValue fuel) fuel rest
        some (.object (mapOf (member :: members)), rest)
    | input => parseNumber input

def parse (text : List UInt8) : Option Plain := do
  let (value, rest) ← parseValue (text.length + 1) text
  if skipSpace rest = [] then some value else none

section Strings

theorem parseChar_escapeByte (byte : UInt8) (rest : List UInt8) :
    parseChar (escapeByte byte ++ rest) = some ([byte], rest) := by
  by_cases h : byte < 0x20
  · refine forall_control (P := fun byte =>
      parseChar (escapeByte byte ++ rest) = some ([byte], rest)) ?_ h
    intro n hn
    interval_cases n <;> rfl
  · rw [escapeByte_of_le (UInt8.not_lt.1 h)]
    by_cases hquote : byte = quote
    · rw [if_pos hquote, hquote]
      rfl
    · by_cases hbackslash : byte = backslash
      · rw [if_neg hquote, if_pos hbackslash, hbackslash]
        rfl
      · rw [if_neg hquote, if_neg hbackslash, List.singleton_append, parseChar, if_neg h,
          if_neg hbackslash]

theorem escapeByte_head (byte : UInt8) :
    ∃ first more, escapeByte byte = first :: more ∧ first ≠ quote := by
  by_cases h : byte < 0x20
  · refine forall_control (P := fun byte =>
      ∃ first more, escapeByte byte = first :: more ∧ first ≠ quote) ?_ h
    intro n hn
    interval_cases n <;> exact ⟨_, _, rfl, by decide⟩
  · rw [escapeByte_of_le (UInt8.not_lt.1 h)]
    split
    · exact ⟨_, _, rfl, by decide⟩
    · rename_i hquote
      split
      · exact ⟨_, _, rfl, by decide⟩
      · exact ⟨_, _, rfl, hquote⟩

theorem parseChars_escape {fuel : Nat} {text : List UInt8} (h : text.length < fuel)
    (rest : List UInt8) : parseChars fuel (escape text ++ quote :: rest) = some (text, rest) := by
  induction text generalizing fuel with
  | nil =>
    cases fuel with
    | zero => cases h
    | succ fuel => rfl
  | cons byte text ih =>
    cases fuel with
    | zero => cases h
    | succ fuel =>
      have hchar := parseChar_escapeByte byte (escape text ++ quote :: rest)
      obtain ⟨first, more, hescape, hfirst⟩ := escapeByte_head byte
      have hsplit : escape (byte :: text) ++ quote :: rest =
          first :: (more ++ (escape text ++ quote :: rest)) := by
        simp [escape, hescape]
      rw [hescape, List.cons_append] at hchar
      rw [hsplit, parseChars, if_neg hfirst, hchar]
      simp only [Option.bind_eq_bind, Option.bind_some, ih (Nat.lt_of_succ_lt_succ h)]
      rfl

theorem length_le_escape (text : List UInt8) : text.length ≤ (escape text).length := by
  induction text with
  | nil => exact Nat.le_refl _
  | cons byte text ih =>
    obtain ⟨first, more, hescape, -⟩ := escapeByte_head byte
    have hsplit : escape (byte :: text) = first :: (more ++ escape text) := by
      simp [escape, hescape]
    rw [hsplit]
    simp only [List.length_cons, List.length_append]
    omega

theorem parseString_escape {text : List UInt8} (h : utf8 text = true) (rest : List UInt8) :
    parseString (escape text ++ quote :: rest) = some (text, rest) := by
  have hlength := length_le_escape text
  have hchars : parseChars ((escape text ++ quote :: rest).length + 1)
      (escape text ++ quote :: rest) = some (text, rest) := by
    apply parseChars_escape
    rw [List.length_append]
    omega
  rw [parseString, hchars]
  simp [h]

end Strings

section Numbers

def Stops (rest : List UInt8) : Prop :=
  (∀ byte ∈ rest.head?, Decimal.isDigit byte = false) ∧ continues rest = false

theorem text_head {n : Nat} (h : 0 < n) :
    ∃ first more, Decimal.text n = first :: more ∧ first ≠ 0x30 := by
  induction n using Nat.strong_induction_on with
  | _ n ih =>
    rw [Decimal.text_eq_if]
    split
    · rename_i hlt
      refine ⟨_, _, rfl, ?_⟩
      interval_cases n <;> decide
    · rename_i hge
      obtain ⟨first, more, htext, hfirst⟩ := ih (n / 10) (by omega) (by omega)
      exact ⟨first, _, by rw [htext, List.cons_append], hfirst⟩

theorem digitsOk_text (n : Nat) : digitsOk (Decimal.text n) = true := by
  rcases Nat.eq_zero_or_pos n with rfl | hpos
  · rfl
  · obtain ⟨first, more, htext, hfirst⟩ := text_head hpos
    rw [htext]
    cases more with
    | nil => rfl
    | cons second more => simpa [digitsOk] using hfirst

theorem parseDigits_text (n : Nat) {rest : List UInt8} (h : Stops rest) :
    parseDigits (Decimal.text n ++ rest) = some (n, rest) := by
  rw [parseDigits, Decimal.takeWhile_text_append n h.1, Decimal.dropWhile_text_append n h.1]
  simp [digitsOk_text, h.2]

theorem isDigit_cases {byte : UInt8} (h : Decimal.isDigit byte = true) :
    ∃ d < 10, byte = UInt8.ofNat (48 + d) := by
  simp only [Decimal.isDigit, Bool.and_eq_true, decide_eq_true_eq, UInt8.le_iff_toNat_le] at h
  have hlow : 48 ≤ byte.toNat := h.1
  have hhigh : byte.toNat ≤ 57 := h.2
  refine ⟨byte.toNat - 48, by omega, ?_⟩
  rw [Nat.add_sub_cancel' hlow]
  simp

theorem parseValue_digit {byte : UInt8} (h : Decimal.isDigit byte = true) (fuel : Nat)
    (rest : List UInt8) : parseValue (fuel + 1) (byte :: rest) = parseNumber (byte :: rest) := by
  obtain ⟨d, hd, rfl⟩ := isDigit_cases h
  interval_cases d <;> rfl

theorem parseNumber_digit {byte : UInt8} (h : Decimal.isDigit byte = true) (rest : List UInt8) :
    parseNumber (byte :: rest) = (parseDigits (byte :: rest)).bind fun p =>
      if p.1 < 2 ^ 64 then some (.unsigned (UInt64.ofNat p.1), p.2) else none := by
  obtain ⟨d, hd, rfl⟩ := isDigit_cases h
  interval_cases d <;> rfl

theorem parseValue_unsigned (value : UInt64) (fuel : Nat) {rest : List UInt8} (h : Stops rest) :
    parseValue (fuel + 1) (Decimal.text value.toNat ++ rest) = some (.unsigned value, rest) := by
  obtain ⟨byte, more, htext⟩ := List.exists_cons_of_ne_nil (Decimal.text_ne_nil value.toNat)
  have hdigit : Decimal.isDigit byte = true :=
    Decimal.isDigit_of_mem_text (by rw [htext]; exact List.mem_cons_self)
  have hdigits := parseDigits_text value.toNat h
  rw [htext, List.cons_append] at hdigits ⊢
  rw [parseValue_digit hdigit, parseNumber_digit hdigit, hdigits]
  simp only [Option.bind_some, if_pos value.toNat_lt]
  simp

theorem parseValue_negative {value : Int64} (hvalue : value < 0) (fuel : Nat) {rest : List UInt8}
    (h : Stops rest) :
    parseValue (fuel + 1) (integer value.toInt ++ rest) = some (.integer value, rest) := by
  have hneg : value.toInt < 0 := Int64.lt_iff_toInt_lt.1 hvalue
  have hlow := value.le_toInt
  have hnat : value.toInt.natAbs ≤ 2 ^ 63 := by omega
  have hback : Int64.ofInt (-(value.toInt.natAbs : Int)) = value := by
    rw [Int.ofNat_natAbs_of_nonpos hneg.le, Int.neg_neg]
    simp
  have hnumber : parseValue (fuel + 1) (integer value.toInt ++ rest) =
      (parseDigits (Decimal.text value.toInt.natAbs ++ rest)).bind fun p =>
        if p.1 ≤ 2 ^ 63 then some (.integer (Int64.ofInt (-p.1)), p.2) else none := by
    rw [integer, if_neg (by omega)]
    rfl
  rw [hnumber, parseDigits_text _ h, Option.bind_some, if_pos hnat, hback]

end Numbers

section Objects

theorem insertMember_concat {key : List UInt8} (value : Plain)
    {members : List (List UInt8 × Plain)} (h : ∀ member ∈ members, member.1 < key) :
    insertMember key value members = members ++ [(key, value)] := by
  induction members with
  | nil => rfl
  | cons member members ih =>
    obtain ⟨other, first⟩ := member
    have hlt : other < key := h (other, first) (by simp)
    have hnot : ¬ key < other := List.lt_asymm hlt
    have hne : key ≠ other := fun heq => List.lt_irrefl _ (heq ▸ hlt)
    rw [insertMember, if_neg hnot, if_neg hne, ih fun m hm => h m (by simp [hm])]
    rfl

theorem foldl_insertMember {members map : List (List UInt8 × Plain)}
    (hmembers : increasing members = true)
    (hmap : ∀ entry ∈ map, ∀ member ∈ members, entry.1 < member.1) :
    members.foldl (fun map member => insertMember member.1 member.2 map) map = map ++ members := by
  induction members generalizing map with
  | nil => simp
  | cons member members ih =>
    obtain ⟨key, value⟩ := member
    simp only [increasing, Bool.and_eq_true, List.all_eq_true, decide_eq_true_eq] at hmembers
    rw [List.foldl_cons, insertMember_concat value fun entry hentry =>
      hmap entry hentry (key, value) (by simp), ih hmembers.2, List.append_assoc]
    · rfl
    · intro entry hentry member hmember
      rcases List.mem_append.1 hentry with hentry | hentry
      · exact hmap entry hentry member (by simp [hmember])
      · rw [List.mem_singleton.1 hentry]
        exact hmembers.1 member hmember

theorem mapOf_increasing {members : List (List UInt8 × Plain)} (h : increasing members = true) :
    mapOf members = members := by
  rw [mapOf, foldl_insertMember h (by simp), List.nil_append]

end Objects

section Blanks

theorem skipSpace_blank {blank : List UInt8} (h : Blank blank) (input : List UInt8) :
    skipSpace (blank ++ input) = skipSpace input := List.dropWhile_append_of_pos h

theorem isSpace_cases {byte : UInt8} (h : isSpace byte = true) :
    byte = 0x20 ∨ byte = 0x09 ∨ byte = 0x0A ∨ byte = 0x0D := by
  simpa [isSpace, or_assoc] using h

theorem stops_blank {blank rest : List UInt8} (h : Blank blank) (hrest : Stops rest) :
    Stops (blank ++ rest) := by
  cases blank with
  | nil => exact hrest
  | cons byte blank =>
    rcases isSpace_cases (h byte List.mem_cons_self) with rfl | rfl | rfl | rfl <;>
      simp [Stops, continues] <;> decide

theorem stops_nil : Stops [] := ⟨by simp, rfl⟩

variable {blank : List UInt8} (hblank : Blank blank)

include hblank

theorem parseValue_blank (fuel : Nat) (input : List UInt8) :
    parseValue fuel (blank ++ input) = parseValue fuel input := by
  cases fuel with
  | zero => rfl
  | succ fuel => rw [parseValue, parseValue, skipSpace_blank hblank]

theorem parseMember_blank (parseValue : List UInt8 → Option (Plain × List UInt8))
    (input : List UInt8) :
    parseMember parseValue (blank ++ input) = parseMember parseValue input := by
  rw [parseMember, parseMember, skipSpace_blank hblank]

theorem parseElements_blank (parseValue : List UInt8 → Option (Plain × List UInt8)) (fuel : Nat)
    (input : List UInt8) :
    parseElements parseValue fuel (blank ++ input) = parseElements parseValue fuel input := by
  cases fuel with
  | zero => rfl
  | succ fuel => rw [parseElements, parseElements, skipSpace_blank hblank]

theorem parseMembers_blank (parseValue : List UInt8 → Option (Plain × List UInt8)) (fuel : Nat)
    (input : List UInt8) :
    parseMembers parseValue fuel (blank ++ input) = parseMembers parseValue fuel input := by
  cases fuel with
  | zero => rfl
  | succ fuel => rw [parseMembers, parseMembers, skipSpace_blank hblank]

end Blanks

section RoundTrip

def Opens (text : List UInt8) : Prop :=
  ∃ first more, text = first :: more ∧ isSpace first = false ∧ first ≠ 0x5D ∧ first ≠ 0x7D

theorem skipSpace_of_opens {text : List UInt8} (h : Opens text) (rest : List UInt8) :
    skipSpace (text ++ rest) = text ++ rest := by
  obtain ⟨first, more, rfl, hspace, -⟩ := h
  simp [skipSpace, hspace]

theorem opens_text (n : Nat) : Opens (Decimal.text n) := by
  obtain ⟨byte, more, htext⟩ := List.exists_cons_of_ne_nil (Decimal.text_ne_nil n)
  have hdigit : Decimal.isDigit byte = true :=
    Decimal.isDigit_of_mem_text (by rw [htext]; exact List.mem_cons_self)
  obtain ⟨d, hd, rfl⟩ := isDigit_cases hdigit
  refine ⟨_, more, htext, ?_⟩
  interval_cases d <;> decide

variable (L : Layout)

theorem opens_layout (depth : Nat) {value : Plain} (h : canonical value = true) :
    Opens (layout Empty.elim L depth value) := by
  match value with
  | .null | .bool true | .bool false => exact ⟨_, _, rfl, by decide⟩
  | .unsigned value => exact opens_text _
  | .integer value =>
    simp only [canonical, plain, Bool.not_true, Bool.false_or, decide_eq_true_eq,
      Int64.lt_iff_toInt_lt] at h
    have hneg : ¬ 0 ≤ value.toInt := Int.not_le.2 h
    rw [layout, render, integer, if_neg hneg]
    · exact ⟨_, _, rfl, by decide⟩
    all_goals simp
  | .string value => exact ⟨_, _, rfl, by decide⟩
  | .array [] | .array (_ :: _) | .object [] | .object ((_, _) :: _) =>
    exact ⟨_, _, rfl, by decide⟩

theorem stops_elements (depth : Nat) (values : List Plain) (rest : List UInt8) :
    Stops (layoutElements Empty.elim L depth values ++ rest) := by
  cases values with
  | nil =>
    rw [layoutElements, List.append_assoc]
    exact stops_blank (L.blank_line depth) (by simp [Stops, continues]; decide)
  | cons value values => simp [layoutElements, Stops, continues]; decide

theorem stops_members (depth : Nat) (members : List (List UInt8 × Plain)) (rest : List UInt8) :
    Stops (layoutMembers Empty.elim L depth members ++ rest) := by
  cases members with
  | nil =>
    rw [layoutMembers, List.append_assoc]
    exact stops_blank (L.blank_line depth) (by simp [Stops, continues]; decide)
  | cons member members => simp [layoutMembers, Stops, continues]; decide

theorem parseMember_string {key : List UInt8} (hkey : utf8 key = true)
    (parseValue : List UInt8 → Option (Plain × List UInt8)) (rest : List UInt8) :
    parseMember parseValue (string key ++ 0x3A :: rest) =
      (parseValue rest).bind fun p => some ((key, p.1), p.2) := by
  have hstring := parseString_escape hkey (0x3A :: rest)
  have hsplit : string key ++ 0x3A :: rest = 0x22 :: (escape key ++ quote :: 0x3A :: rest) := by
    simp [string, quote]
  have hskip : ∀ tail, skipSpace (0x22 :: tail) = 0x22 :: tail := fun _ => rfl
  rw [hsplit, parseMember, hskip]
  simp only [hstring]
  rfl

theorem parseValue_array {blank text : List UInt8} (hblank : Blank blank) (hopens : Opens text)
    (fuel : Nat) (rest : List UInt8) :
    parseValue (fuel + 1) (0x5B :: (blank ++ (text ++ rest))) =
      (parseValue fuel (text ++ rest)).bind fun p =>
        (parseElements (parseValue fuel) fuel p.2).bind fun q =>
          some (.array (p.1 :: q.1), q.2) := by
  have hskip : ∀ tail, skipSpace (0x5B :: tail) = 0x5B :: tail := fun _ => rfl
  rw [parseValue, hskip]
  simp only [skipSpace_blank hblank, skipSpace_of_opens hopens]
  obtain ⟨first, more, rfl, -, hne, -⟩ := hopens
  rw [List.cons_append]
  split
  · rename_i heq
    exact absurd (List.cons.inj heq).1 hne
  · rfl

theorem parseValue_object {blank : List UInt8} (hblank : Blank blank) (key : List UInt8)
    (fuel : Nat) (rest : List UInt8) :
    parseValue (fuel + 1) (0x7B :: (blank ++ (string key ++ rest))) =
      (parseMember (parseValue fuel) (string key ++ rest)).bind fun p =>
        (parseMembers (parseValue fuel) fuel p.2).bind fun q =>
          some (.object (mapOf (p.1 :: q.1)), q.2) := by
  have hskip : ∀ tail, skipSpace (0x7B :: tail) = 0x7B :: tail := fun _ => rfl
  rw [parseValue, hskip]
  simp only [skipSpace_blank hblank]
  rfl

mutual

theorem parseValue_layout (depth : Nat) {value : Plain} (hvalue : canonical value = true)
    (fuel : Nat) (hfuel : (layout Empty.elim L depth value).length < fuel) {rest : List UInt8}
    (hrest : Stops rest) :
    parseValue fuel (layout Empty.elim L depth value ++ rest) = some (value, rest) := by
  obtain ⟨fuel, rfl⟩ := Nat.exists_eq_add_one_of_ne_zero (Nat.ne_zero_of_lt hfuel)
  match value with
  | .null => rfl
  | .bool true => rfl
  | .bool false => rfl
  | .unsigned value => exact parseValue_unsigned value fuel hrest
  | .integer value =>
    exact parseValue_negative (by simpa [canonical, plain] using hvalue) fuel hrest
  | .string value =>
    have hsplit : layout Empty.elim L depth (.string value : Plain) ++ rest =
        0x22 :: (escape value ++ quote :: rest) := by simp [layout, render, string, quote]
    have hskip : ∀ tail, skipSpace (0x22 :: tail) = 0x22 :: tail := fun _ => rfl
    rw [hsplit, parseValue, hskip]
    simp only [parseString_escape (by simpa [canonical, plain] using hvalue)]
    rfl
  | .array [] => rfl
  | .array (value :: values) =>
    simp only [canonical, plain, plainElements, Bool.and_eq_true] at hvalue
    simp only [layout, List.length_cons, List.length_append] at hfuel
    have hfirst := parseValue_layout (depth + 1) hvalue.1 fuel (by omega)
      (stops_elements L depth values rest)
    have hmore := parseElements_layout depth hvalue.2 fuel fuel (by omega) (by omega) rest
    rw [layout, List.cons_append, List.append_assoc, List.append_assoc,
      parseValue_array (L.blank_line _) (opens_layout L _ hvalue.1), hfirst,
      Option.bind_some, hmore, Option.bind_some]
  | .object [] => rfl
  | .object ((key, value) :: members) =>
    simp only [canonical, plain, plainMembers, Bool.not_true, Bool.false_or, Bool.and_eq_true]
      at hvalue
    simp only [layout, List.length_cons, List.length_append] at hfuel
    have hfirst := parseValue_layout (depth + 1) hvalue.2.1.2 fuel (by omega)
      (stops_members L depth members rest)
    have hmore := parseMembers_layout depth hvalue.2.2 fuel fuel (by omega) (by omega) rest
    rw [layout, List.cons_append, List.append_assoc, List.append_assoc, List.cons_append,
      List.append_assoc, List.append_assoc, parseValue_object (L.blank_line _),
      parseMember_string hvalue.2.1.1, parseValue_blank L.blank_colon, hfirst]
    simp only [Option.bind_some, hmore, mapOf_increasing hvalue.1]

theorem parseElements_layout (depth : Nat) {values : List Plain}
    (hvalues : plainElements true true values = true) (fuel inner : Nat)
    (hfuel : (layoutElements Empty.elim L depth values).length ≤ fuel)
    (hinner : (layoutElements Empty.elim L depth values).length ≤ inner) (rest : List UInt8) :
    parseElements (parseValue inner) fuel (layoutElements Empty.elim L depth values ++ rest) =
      some (values, rest) := by
  match values with
  | [] =>
    simp only [layoutElements, List.length_append, List.length_cons, List.length_nil] at hfuel
    obtain ⟨fuel, rfl⟩ := Nat.exists_eq_add_one_of_ne_zero (n := fuel) (by omega)
    rw [layoutElements, List.append_assoc, parseElements_blank (L.blank_line _)]
    rfl
  | value :: values =>
    simp only [plainElements, Bool.and_eq_true] at hvalues
    simp only [layoutElements, List.length_cons, List.length_append] at hfuel hinner
    obtain ⟨fuel, rfl⟩ := Nat.exists_eq_add_one_of_ne_zero (Nat.ne_zero_of_lt hfuel)
    have hfirst := parseValue_layout (depth + 1) hvalues.1 inner (by omega)
      (stops_elements L depth values rest)
    have hmore := parseElements_layout depth hvalues.2 fuel inner (by omega) (by omega) rest
    have hskip : ∀ tail, skipSpace (0x2C :: tail) = 0x2C :: tail := fun _ => rfl
    rw [layoutElements, List.cons_append, List.append_assoc, List.append_assoc, parseElements,
      hskip]
    simp only [parseValue_blank (L.blank_line _), hfirst, Option.bind_eq_bind, Option.bind_some,
      hmore]

theorem parseMembers_layout (depth : Nat) {members : List (List UInt8 × Plain)}
    (hmembers : plainMembers true true members = true) (fuel inner : Nat)
    (hfuel : (layoutMembers Empty.elim L depth members).length ≤ fuel)
    (hinner : (layoutMembers Empty.elim L depth members).length ≤ inner) (rest : List UInt8) :
    parseMembers (parseValue inner) fuel (layoutMembers Empty.elim L depth members ++ rest) =
      some (members, rest) := by
  match members with
  | [] =>
    simp only [layoutMembers, List.length_append, List.length_cons, List.length_nil] at hfuel
    obtain ⟨fuel, rfl⟩ := Nat.exists_eq_add_one_of_ne_zero (n := fuel) (by omega)
    rw [layoutMembers, List.append_assoc, parseMembers_blank (L.blank_line _)]
    rfl
  | (key, value) :: members =>
    simp only [plainMembers, Bool.not_true, Bool.false_or, Bool.and_eq_true] at hmembers
    simp only [layoutMembers, List.length_cons, List.length_append] at hfuel hinner
    obtain ⟨fuel, rfl⟩ := Nat.exists_eq_add_one_of_ne_zero (Nat.ne_zero_of_lt hfuel)
    have hfirst := parseValue_layout (depth + 1) hmembers.1.2 inner (by omega)
      (stops_members L depth members rest)
    have hmore := parseMembers_layout depth hmembers.2 fuel inner (by omega) (by omega) rest
    have hskip : ∀ tail, skipSpace (0x2C :: tail) = 0x2C :: tail := fun _ => rfl
    rw [layoutMembers, List.cons_append, List.append_assoc, List.append_assoc, List.cons_append,
      List.append_assoc, List.append_assoc, parseMembers, hskip]
    simp only [parseMember_blank (L.blank_line _), parseMember_string hmembers.1.1,
      parseValue_blank L.blank_colon, hfirst, Option.bind_eq_bind, Option.bind_some, hmore]

end

theorem parse_layout {value : Plain} (h : canonical value = true) {space : List UInt8}
    (hspace : Blank space) : parse (layout Empty.elim L 0 value ++ space) = some value := by
  have hstops : Stops space := by simpa using stops_blank hspace stops_nil
  have hlength : (layout Empty.elim L 0 value).length <
      (layout Empty.elim L 0 value ++ space).length + 1 := by
    rw [List.length_append]
    omega
  have hskip : skipSpace space = [] := List.dropWhile_eq_nil_iff.2 hspace
  rw [parse, parseValue_layout L 0 h _ hlength hstops]
  exact if_pos hskip

theorem parse_render {value : Plain} (h : canonical value = true) :
    parse (render Empty.elim value) = some value := by
  simpa [layout_compact] using parse_layout .compact h blank_nil

end RoundTrip

theorem double_eq_elim : (fun _ : Empty => ([] : List UInt8)) = Empty.elim := by
  funext double
  exact double.elim

theorem compact_eq_render (value : Plain) : compact value = render Empty.elim value := by
  rw [compact, double_eq_elim]

theorem indented_eq_layout (step : Nat) (value : Plain) :
    indented step value = layout Empty.elim (.indented step) 0 value := by
  rw [indented, double_eq_elim]

end JsonText

/-- The library of values without doubles. -/
def JsonLibrary.reference : JsonLibrary where
  Double := Empty
  toUInt64 := Empty.elim
  equalsInt value _ := value.elim
  parse := JsonText.parse
  dump value :=
    if JsonText.printable value then .ok (JsonText.compact value)
    else .error "[json.exception.type_error.316] invalid UTF-8 byte"

theorem JsonLibrary.reference_lawful : reference.Lawful where
  dump _ h := if_pos h
  refuse _ _ h := ⟨_, if_neg (ne_of_eq_of_ne h Bool.false_ne_true)⟩
  parse _ h :=
    (congrArg JsonText.parse (JsonText.compact_eq_render _)).trans (JsonText.parse_render h)

def JsonLibrary.referenceIndented (step : Nat) (value : JsonText.Plain) :
    Except String (List UInt8) :=
  if JsonText.printable value then .ok (JsonText.indented step value)
  else .error "[json.exception.type_error.316] invalid UTF-8 byte"

theorem JsonLibrary.reference_indents : reference.Indents referenceIndented where
  dump _ _ h := if_pos h
  refuse _ _ _ h := ⟨_, if_neg (ne_of_eq_of_ne h Bool.false_ne_true)⟩
  parse step value space h hspace :=
    (congrArg (fun text => JsonText.parse (text ++ space))
      (JsonText.indented_eq_layout step value)).trans
        (JsonText.parse_layout (.indented step) h hspace)
