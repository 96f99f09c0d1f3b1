import BengalMarket.Reader.Core

namespace BengalMarket.Reader

open Lines

theorem pieces_append_isPrefix {line : Bytes} (h : newline ∉ line) (hne : line ≠ [])
    (rest : Bytes) : ∃ piece more, pieces (line ++ rest) = piece :: more ∧ line <+: piece := by
  induction line with
  | nil => exact absurd rfl hne
  | cons byte line ih =>
    rw [List.mem_cons, not_or] at h
    rw [List.cons_append, pieces, if_neg (Ne.symm h.1)]
    cases line with
    | nil =>
      cases hrest : pieces ([] ++ rest) with
      | nil => exact ⟨[byte], [], rfl, List.prefix_rfl⟩
      | cons piece more => exact ⟨byte :: piece, more, rfl, by simp⟩
    | cons next line =>
      obtain ⟨piece, more, hpieces, hpre⟩ := ih h.2 (by simp)
      rw [hpieces]
      exact ⟨byte :: piece, more, rfl, List.cons_prefix_cons.2 ⟨rfl, hpre⟩⟩

theorem readBoundedLine_spec {line : Bytes} (hline : newline ∉ line)
    (hlength : line.length ≤ maximumRecordSize) (stream : Bytes) :
    match readBoundedLine line stream with
    | .error error => error = recordTooLong ∧
        ∃ piece more, pieces (line ++ stream) = piece :: more ∧ maximumRecordSize < piece.length
    | .ok (false, _, _) => pieces (line ++ stream) = []
    | .ok (true, next, rest) =>
      pieces (line ++ stream) = next :: pieces rest ∧ next.length ≤ maximumRecordSize := by
  induction stream generalizing line with
  | nil =>
    rw [readBoundedLine, List.append_nil]
    cases line with
    | nil => exact pieces_nil
    | cons byte line => exact ⟨pieces_of_not_mem hline (by simp), hlength⟩
  | cons character stream ih =>
    rw [readBoundedLine]
    by_cases hnewline : character = newline
    · rw [if_pos hnewline, hnewline]
      exact ⟨pieces_append_newline hline stream, hlength⟩
    · rw [if_neg hnewline]
      have hlong : newline ∉ line ++ [character] := by
        simp [hline, Ne.symm hnewline]
      have happend : line ++ character :: stream = line ++ [character] ++ stream := by simp
      by_cases hfull : line.length = maximumRecordSize
      · rw [if_pos hfull]
        obtain ⟨piece, more, hpieces, hpre⟩ := pieces_append_isPrefix hlong (by simp) stream
        have hle := hpre.length_le
        rw [List.length_append, hfull, List.length_singleton] at hle
        exact ⟨rfl, piece, more, by rw [happend, hpieces], by omega⟩
      · rw [if_neg hfull, happend]
        exact ih hlong (by simp; omega)

variable (J : JsonLibrary)

def readLines (s : ReaderState) : List Bytes → ReaderState × Option String
  | [] => (s, none)
  | line :: lines =>
    if line.length > maximumRecordSize then (s, some recordTooLong)
    else readLines (step J s line) lines

theorem readLoop_eq_readLines (s : ReaderState) (stream : Bytes) :
    readLoop J s stream = readLines J s (pieces stream) := by
  have hspec := readBoundedLine_spec List.not_mem_nil (Nat.zero_le _) stream
  fun_induction readLoop J s stream with
  | case1 s stream error hread =>
    simp only [hread] at hspec
    obtain ⟨rfl, piece, more, hpieces, hlong⟩ := hspec
    rw [List.nil_append] at hpieces
    rw [hpieces, readLines, if_pos hlong]
  | case2 s stream line rest hread =>
    simp only [hread] at hspec
    rw [List.nil_append] at hspec
    rw [hspec, readLines]
  | case3 s stream line rest hread ih =>
    simp only [hread] at hspec
    obtain ⟨hpieces, hshort⟩ := hspec
    rw [List.nil_append] at hpieces
    rw [hpieces, readLines, if_neg (by omega)]
    exact ih (readBoundedLine_spec (by simp) (Nat.zero_le _) rest)

def Bounded (lines : List Bytes) : Prop := ∀ line ∈ lines, line.length ≤ maximumRecordSize

variable {J}

theorem readLines_of_bounded {s : ReaderState} {lines : List Bytes} (h : Bounded lines) :
    readLines J s lines = (lines.foldl (step J) s, none) := by
  induction lines generalizing s with
  | nil => rfl
  | cons line lines ih =>
    have hline : ¬ line.length > maximumRecordSize := Nat.not_lt.2 (h line (by simp))
    rw [readLines, if_neg hline]
    exact ih fun l hl => h l (by simp [hl])

theorem bounded_of_readLines {s t : ReaderState} {lines : List Bytes}
    (h : readLines J s lines = (t, none)) : Bounded lines := by
  induction lines generalizing s with
  | nil => intro line hline; cases hline
  | cons line lines ih =>
    rw [readLines] at h
    split at h
    · cases h
    · rename_i hline
      intro l hl
      rcases List.mem_cons.1 hl with rfl | hl
      · exact Nat.not_lt.1 hline
      · exact ih h l hl

structure Visits (J : JsonLibrary) (stream : Bytes) (s : ReaderState) (line : Bytes) : Prop where
  visit : ∃ before after, pieces stream = before ++ line :: after ∧ Bounded (before ++ [line]) ∧
    s = before.foldl (step J) {}

theorem readLines_append_of_bounded {s : ReaderState} {before : List Bytes} (h : Bounded before)
    (after : List Bytes) :
    readLines J s (before ++ after) = readLines J (before.foldl (step J) s) after := by
  induction before generalizing s with
  | nil => rfl
  | cons line before ih =>
    have hline : ¬ line.length > maximumRecordSize := Nat.not_lt.2 (h line (by simp))
    rw [List.cons_append, readLines, if_neg hline]
    exact ih fun l hl => h l (by simp [hl])

def finalState (J : JsonLibrary) (stream : Bytes) : ReaderState :=
  (pieces stream).foldl (step J) {}

theorem readCapture_of_bounded {path : String} {stream : Bytes} (h : Bounded (pieces stream)) :
    readCapture J path (some stream) =
      if (finalState J stream).metadataSeen then
        ⟨(finalState J stream).delivered, .ok (finalState J stream).metrics⟩
      else ⟨(finalState J stream).delivered, .error "capture has no metadata record"⟩ := by
  simp only [readCapture, readLoop_eq_readLines, readLines_of_bounded h]
  rfl

theorem readCapture_of_seen {path : String} {stream : Bytes} (h : Bounded (pieces stream))
    (hseen : (finalState J stream).metadataSeen = true) :
    readCapture J path (some stream) =
      ⟨(finalState J stream).delivered, .ok (finalState J stream).metrics⟩ := by
  rw [readCapture_of_bounded h, if_pos hseen]

theorem readCapture_eq_ok_iff {path : String} {stream : Bytes} {reading : CaptureReading}
    {metrics : ParseMetrics} (hread : readCapture J path (some stream) = reading) :
    reading.outcome = .ok metrics ↔
      Bounded (pieces stream) ∧ (finalState J stream).metadataSeen = true ∧
        reading.delivered = (finalState J stream).delivered ∧
        metrics = (finalState J stream).metrics := by
  subst hread
  constructor
  · intro hok
    have hbounded : Bounded (pieces stream) := by
      rw [readCapture, readLoop_eq_readLines] at hok
      rcases hlines : readLines J {} (pieces stream) with ⟨t, _ | error⟩
      · exact bounded_of_readLines hlines
      · simp [hlines] at hok
    rw [readCapture_of_bounded hbounded] at hok ⊢
    cases hseen : (finalState J stream).metadataSeen with
    | true => simp_all
    | false => simp [hseen] at hok
  · rintro ⟨hbounded, hseen, -, rfl⟩
    rw [readCapture_of_bounded hbounded, if_pos hseen]

end BengalMarket.Reader
