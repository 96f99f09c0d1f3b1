import Mathlib.Data.List.Basic

namespace Lines

def newline : UInt8 := 10

/-- The pieces between newlines, in order; the last one only if it is not empty. -/
def pieces : List UInt8 → List (List UInt8)
  | [] => []
  | byte :: rest =>
    if byte = newline then [] :: pieces rest
    else match pieces rest with
      | [] => [[byte]]
      | line :: lines => (byte :: line) :: lines

@[simp] theorem pieces_nil : pieces [] = [] := rfl

@[simp] theorem pieces_newline_cons (rest : List UInt8) :
    pieces (newline :: rest) = [] :: pieces rest := by simp [pieces]

theorem pieces_append_newline {line : List UInt8} (h : newline ∉ line) (rest : List UInt8) :
    pieces (line ++ newline :: rest) = line :: pieces rest := by
  induction line with
  | nil => exact pieces_newline_cons rest
  | cons byte line ih =>
    rw [List.mem_cons, not_or] at h
    rw [List.cons_append, pieces, if_neg (Ne.symm h.1), ih h.2]

theorem pieces_of_not_mem {line : List UInt8} (h : newline ∉ line) (hne : line ≠ []) :
    pieces line = [line] := by
  induction line with
  | nil => exact absurd rfl hne
  | cons byte line ih =>
    rw [List.mem_cons, not_or] at h
    rw [pieces, if_neg (Ne.symm h.1)]
    cases line with
    | nil => rfl
    | cons next line => rw [ih h.2 (by simp)]

def terminated (lines : List (List UInt8)) : List UInt8 :=
  lines.flatMap fun line => line ++ [newline]

theorem pieces_terminated {lines : List (List UInt8)} (h : ∀ line ∈ lines, newline ∉ line) :
    pieces (terminated lines) = lines := by
  induction lines with
  | nil => rfl
  | cons line lines ih =>
    have hsplit : terminated (line :: lines) = line ++ newline :: terminated lines := by
      simp [terminated]
    rw [hsplit, pieces_append_newline (h line (by simp)), ih fun l hl => h l (by simp [hl])]

theorem getLast?_terminated {lines : List (List UInt8)} (h : lines ≠ []) :
    (terminated lines).getLast? = some newline := by
  obtain ⟨before, line, rfl⟩ := List.eq_nil_or_concat lines |>.resolve_left h
  simp [terminated]

theorem pieces_eq_nil_iff {stream : List UInt8} : pieces stream = [] ↔ stream = [] := by
  cases stream with
  | nil => simp
  | cons byte rest =>
    rw [pieces]
    split
    · simp
    · split <;> simp

def Boundary (text : List UInt8) : Prop := text = [] ∨ text.getLast? = some newline

theorem boundary_cons_cons {byte next : UInt8} {rest : List UInt8} :
    Boundary (byte :: next :: rest) ↔ Boundary (next :: rest) := by
  simp [Boundary, List.getLast?_cons_cons]

theorem pieces_append {head : List UInt8} (h : Boundary head) (tail : List UInt8) :
    pieces (head ++ tail) = pieces head ++ pieces tail := by
  induction head with
  | nil => rfl
  | cons byte rest ih =>
    cases rest with
    | nil =>
      obtain rfl : byte = newline := by simpa [Boundary] using h
      simp
    | cons next rest =>
      have hrest := ih (boundary_cons_cons.1 h)
      have hne : pieces (next :: rest) ≠ [] := by simp [pieces_eq_nil_iff]
      obtain ⟨line, lines, hlines⟩ := List.exists_cons_of_ne_nil hne
      rw [List.cons_append, pieces, pieces, hrest, hlines]
      split <;> rfl

def withoutEmptyLast : List (List UInt8) → List (List UInt8)
  | [] => []
  | [last] => if last = [] then [] else [last]
  | first :: next :: rest => first :: withoutEmptyLast (next :: rest)

theorem withoutEmptyLast_cons {parts : List (List UInt8)} (h : parts ≠ []) (first : List UInt8) :
    withoutEmptyLast (first :: parts) = first :: withoutEmptyLast parts := by
  obtain ⟨next, rest, rfl⟩ := List.exists_cons_of_ne_nil h
  rfl

/-- The pieces are the parts between newlines, the last one only if it is not empty. -/
theorem pieces_eq_splitOn (stream : List UInt8) :
    pieces stream = withoutEmptyLast (stream.splitOn newline) := by
  induction stream with
  | nil => rfl
  | cons byte rest ih =>
    have hne := List.splitOnP_ne_nil (· == newline) rest
    rw [List.splitOn, List.splitOnP_cons_eq_if_modifyHead, pieces]
    by_cases hbyte : byte = newline
    · rw [if_pos hbyte, if_pos (by simpa using hbyte), withoutEmptyLast_cons hne, ih]
      rfl
    · rw [if_neg hbyte, if_neg (by simpa using hbyte), ih, List.splitOn]
      obtain ⟨first, parts, hparts⟩ := List.exists_cons_of_ne_nil hne
      rw [hparts, List.modifyHead_cons]
      cases parts with
      | nil => cases first <;> simp [withoutEmptyLast]
      | cons next parts => simp [withoutEmptyLast]

theorem terminated_pieces (stream : List UInt8) :
    terminated (pieces stream) = stream ∨ terminated (pieces stream) = stream ++ [newline] := by
  induction stream with
  | nil => exact Or.inl rfl
  | cons byte rest ih =>
    rw [pieces]
    by_cases hbyte : byte = newline
    · rw [if_pos hbyte, hbyte]
      have hsplit : terminated ([] :: pieces rest) = newline :: terminated (pieces rest) := rfl
      rw [hsplit]
      exact ih.imp (congrArg _) (congrArg _)
    · rw [if_neg hbyte]
      cases hpieces : pieces rest with
      | nil =>
        rw [pieces_eq_nil_iff.1 hpieces]
        exact Or.inr rfl
      | cons line lines =>
        rw [hpieces] at ih
        have hsplit :
            terminated ((byte :: line) :: lines) = byte :: terminated (line :: lines) := rfl
        dsimp only
        rw [hsplit]
        exact ih.imp (congrArg _) (congrArg _)

theorem length_pieces_le (stream : List UInt8) : (pieces stream).length ≤ stream.length := by
  induction stream with
  | nil => exact Nat.le_refl _
  | cons byte rest ih =>
    rw [pieces]
    split
    · simpa using ih
    · split
      · simp
      · rename_i heq
        rw [heq] at ih
        simp only [List.length_cons] at ih ⊢
        omega

end Lines
