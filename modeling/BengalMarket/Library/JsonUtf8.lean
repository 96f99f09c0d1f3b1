import BengalMarket.Library.JsonText

namespace JsonText

def Ascii (text : List UInt8) : Prop := ∀ byte ∈ text, byte < 0x80

theorem ascii_of_all {text : List UInt8} (h : text.all (· < 0x80) = true) : Ascii text :=
  fun byte hbyte => of_decide_eq_true (List.all_eq_true.1 h byte hbyte)

theorem utf8_cons_of_lt {byte : UInt8} (h : byte < 0x80) (rest : List UInt8) :
    utf8 (byte :: rest) = utf8 rest := by rw [utf8.eq_def]; simp [h]

theorem utf8_ascii_append {text : List UInt8} (h : Ascii text) (rest : List UInt8) :
    utf8 (text ++ rest) = utf8 rest := by
  induction text with
  | nil => rfl
  | cons byte text ih =>
    obtain ⟨hbyte, htext⟩ := List.forall_mem_cons.1 h
    rw [List.cons_append, utf8_cons_of_lt hbyte, ih htext]

theorem utf8_of_ascii {text : List UInt8} (h : Ascii text) : utf8 text = true := by
  have happend := utf8_ascii_append h []
  rwa [List.append_nil] at happend

theorem ascii_text (n : Nat) : Ascii (Decimal.text n) := by
  intro byte hbyte
  have hdigit := Decimal.isDigit_of_mem_text hbyte
  simp only [Decimal.isDigit, Bool.and_eq_true, decide_eq_true_eq] at hdigit
  exact UInt8.lt_of_le_of_lt hdigit.2 (by decide)

structure Character (bytes : List UInt8) : Prop where
  ne_nil : bytes ≠ []
  uniform : Ascii bytes ∨ ∀ byte ∈ bytes, 0x80 ≤ byte
  utf8_append : ∀ more, utf8 (bytes ++ more) = utf8 more

theorem exists_character {byte : UInt8} {text : List UInt8} (h : utf8 (byte :: text) = true) :
    ∃ bytes rest, byte :: text = bytes ++ rest ∧ Character bytes := by
  rw [utf8.eq_def] at h
  by_cases hascii : byte < 0x80
  · have hone : Ascii [byte] := List.forall_mem_singleton.2 hascii
    exact ⟨[byte], text, rfl, by simp, .inl hone, utf8_ascii_append hone⟩
  have hbyte := UInt8.not_lt.1 hascii
  simp only [if_neg hascii] at h
  split at h
  · cases h
  rename_i b rest
  split at h
  · rename_i htwo
    simp only [Bool.and_eq_true, decide_eq_true_eq] at h
    refine ⟨[byte, b], rest, rfl, by simp, .inr (by simp [hbyte, h]), fun more => ?_⟩
    rw [List.cons_append, List.cons_append, utf8.eq_def]
    simp [hascii, htwo, h]
  rename_i htwo
  split at h
  · cases h
  rename_i c rest
  have hlow {least : UInt8} (h : (if byte = least then 0xA0 else 0x80) ≤ b) : 0x80 ≤ b :=
    UInt8.le_trans (by split <;> decide) h
  split at h
  · rename_i hthree
    simp only [Bool.and_eq_true, decide_eq_true_eq] at h
    have hb := hlow h.1.1.1.1
    refine ⟨[byte, b, c], rest, rfl, by simp, .inr (by simp [hbyte, h, hb]), fun more => ?_⟩
    rw [List.cons_append, List.cons_append, List.cons_append, utf8.eq_def]
    simp [hascii, htwo, hthree, h]
  rename_i hthree
  split at h
  · cases h
  rename_i d rest
  simp only [Bool.and_eq_true, decide_eq_true_eq] at h
  have hb : 0x80 ≤ b := UInt8.le_trans (by split <;> decide) h.1.1.1.1.1.1.2
  refine ⟨[byte, b, c, d], rest, rfl, by simp, .inr (by simp [hbyte, h, hb]), fun more => ?_⟩
  rw [List.cons_append, List.cons_append, List.cons_append, List.cons_append, utf8.eq_def]
  simp [hascii, htwo, hthree, h]

theorem utf8_induction {P : List UInt8 → Prop} (nil : P [])
    (append : ∀ bytes rest, Character bytes → utf8 rest = true → P rest → P (bytes ++ rest))
    {text : List UInt8} (h : utf8 text = true) : P text := by
  induction hlength : text.length using Nat.strong_induction_on generalizing text with
  | _ length ih =>
    cases text with
    | nil => exact nil
    | cons byte text =>
      obtain ⟨bytes, rest, hsplit, hbytes⟩ := exists_character h
      have hpos := List.length_pos_of_ne_nil hbytes.ne_nil
      rw [hsplit, hbytes.utf8_append] at h
      rw [hsplit, List.length_append] at hlength
      rw [hsplit]
      exact append bytes rest hbytes h (ih rest.length (by omega) h rfl)

theorem utf8_append {text rest : List UInt8} (h : utf8 text = true) :
    utf8 (text ++ rest) = utf8 rest := by
  refine utf8_induction (P := fun text => utf8 (text ++ rest) = utf8 rest) rfl ?_ h
  intro bytes text hbytes _ ih
  rw [List.append_assoc, hbytes.utf8_append, ih]

theorem ascii_escapeByte {byte : UInt8} (h : byte < 0x80) : Ascii (escapeByte byte) := by
  by_cases hcontrol : byte < 0x20
  · have hall : (escapeByte byte).all (· < 0x80) = true :=
      forall_control (P := fun byte => (escapeByte byte).all (· < 0x80) = true) (by decide) hcontrol
    exact ascii_of_all hall
  · rw [escapeByte_of_le (UInt8.not_lt.1 hcontrol)]
    split
    · exact ascii_of_all (by decide)
    · split
      · exact ascii_of_all (by decide)
      · exact List.forall_mem_singleton.2 h

theorem escapeByte_of_ge {byte : UInt8} (h : 0x80 ≤ byte) : escapeByte byte = [byte] := by
  have hne {other : UInt8} (hother : other < 0x80) : byte ≠ other :=
    fun heq => absurd (heq ▸ h) (UInt8.not_le.2 hother)
  rw [escapeByte_of_le (UInt8.le_trans (by decide) h), if_neg (hne (by decide)),
    if_neg (hne (by decide))]

theorem escape_append (xs ys : List UInt8) : escape (xs ++ ys) = escape xs ++ escape ys :=
  List.flatMap_append

theorem ascii_escape {text : List UInt8} (h : Ascii text) : Ascii (escape text) := by
  intro out hout
  obtain ⟨byte, hbyte, hout⟩ := List.mem_flatMap.1 hout
  exact ascii_escapeByte (h byte hbyte) out hout

theorem escape_of_ge {text : List UInt8} (h : ∀ byte ∈ text, 0x80 ≤ byte) : escape text = text := by
  induction text with
  | nil => rfl
  | cons byte text ih =>
    obtain ⟨hbyte, htext⟩ := List.forall_mem_cons.1 h
    have hrest := ih htext
    rw [escape] at hrest ⊢
    rw [List.flatMap_cons, hrest, escapeByte_of_ge hbyte]
    rfl

theorem utf8_escape {text : List UInt8} (h : utf8 text = true) : utf8 (escape text) = true := by
  refine utf8_induction (P := fun text => utf8 (escape text) = true) rfl ?_ h
  intro bytes rest hbytes _ ih
  rw [escape_append]
  rcases hbytes.uniform with hascii | hlarge
  · rwa [utf8_ascii_append (ascii_escape hascii)]
  · rwa [escape_of_ge hlarge, hbytes.utf8_append]

theorem utf8_string {text : List UInt8} (h : utf8 text = true) : utf8 (string text) = true := by
  have hquote : quote < 0x80 := by decide
  rw [string, utf8_cons_of_lt hquote, utf8_append (utf8_escape h)]
  rfl

theorem ascii_integer (value : Int) : Ascii (integer value) := by
  unfold integer
  split
  · exact ascii_text _
  · exact List.forall_mem_cons.2 ⟨by decide, ascii_text _⟩

variable {Double : Type} {double : Double → List UInt8} {parsed : Bool}

mutual

theorem utf8_render {value : Json Double} (h : plain true parsed value = true) :
    utf8 (render double value) = true := by
  match value with
  | .null => rw [render]; decide
  | .bool true => rw [render]; decide
  | .bool false => rw [render]; decide
  | .unsigned value => rw [render]; exact utf8_of_ascii (ascii_text _)
  | .integer value => rw [render]; exact utf8_of_ascii (ascii_integer _)
  | .float value => simp [plain] at h
  | .string value => rw [render]; exact utf8_string (by simpa [plain] using h)
  | .array [] => rw [render]; decide
  | .array (value :: rest) =>
    simp only [plain, plainElements, Bool.and_eq_true] at h
    rw [render, utf8_cons_of_lt (by decide), utf8_append (utf8_render h.1)]
    exact utf8_renderElements h.2
  | .object [] => rw [render]; decide
  | .object ((key, value) :: rest) =>
    simp only [plain, plainMembers, Bool.and_eq_true, Bool.not_true, Bool.false_or] at h
    rw [render, utf8_cons_of_lt (by decide), utf8_append (utf8_string h.2.1.1),
      utf8_cons_of_lt (by decide), utf8_append (utf8_render h.2.1.2)]
    exact utf8_renderMembers h.2.2

theorem utf8_renderElements {values : List (Json Double)}
    (h : plainElements true parsed values = true) :
    utf8 (renderElements double values) = true := by
  match values with
  | [] => rw [renderElements]; decide
  | value :: rest =>
    simp only [plainElements, Bool.and_eq_true] at h
    rw [renderElements, utf8_cons_of_lt (by decide), utf8_append (utf8_render h.1)]
    exact utf8_renderElements h.2

theorem utf8_renderMembers {members : List (List UInt8 × Json Double)}
    (h : plainMembers true parsed members = true) :
    utf8 (renderMembers double members) = true := by
  match members with
  | [] => rw [renderMembers]; decide
  | (key, value) :: rest =>
    simp only [plainMembers, Bool.and_eq_true, Bool.not_true, Bool.false_or] at h
    rw [renderMembers, utf8_cons_of_lt (by decide), utf8_append (utf8_string h.1.1),
      utf8_cons_of_lt (by decide), utf8_append (utf8_render h.1.2)]
    exact utf8_renderMembers h.2

end

theorem utf8_compact {value : Json Double} (h : plain true parsed value = true) :
    utf8 (compact value) = true := utf8_render h

end JsonText
