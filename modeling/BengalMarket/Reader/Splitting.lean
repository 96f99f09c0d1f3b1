import BengalMarket.Reader.Lines

namespace BengalMarket.Reader

open Lines

/-- The values of `line` during one call, in order; what a call that throws leaves is the last. -/
def buffers (line : Bytes) : Bytes → List Bytes
  | [] => [line]
  | character :: rest =>
    if character = newline then [line]
    else if line.length = maximumRecordSize then [line]
    else line :: buffers (line ++ [character]) rest

/-- What the calls return until one returns false or throws, and every value of `line`. -/
structure Splitting where
  lines : List Bytes
  error : Option String
  buffers : List Bytes

def readAll (stream : Bytes) : Splitting :=
  match _h : readBoundedLine [] stream with
  | .error error => ⟨[], some error, buffers [] stream⟩
  | .ok (false, _, _) => ⟨[], none, buffers [] stream⟩
  | .ok (true, line, rest) =>
    let next := readAll rest
    ⟨line :: next.lines, next.error, buffers [] stream ++ next.buffers⟩
termination_by stream.length
decreasing_by exact length_rest_lt _h

theorem length_le_of_mem_buffers {line : Bytes} (hline : line.length ≤ maximumRecordSize)
    (stream : Bytes) : ∀ buffer ∈ buffers line stream, buffer.length ≤ maximumRecordSize := by
  induction stream generalizing line with
  | nil => simpa [buffers] using hline
  | cons character stream ih =>
    rw [buffers]
    split
    · simpa using hline
    · split
      · simpa using hline
      · rename_i hfull
        have hnext : (line ++ [character]).length ≤ maximumRecordSize := by simp; omega
        exact List.forall_mem_cons.2 ⟨hline, ih hnext⟩

theorem getLast?_buffers {line next rest stream : Bytes} {read : Bool}
    (h : readBoundedLine line stream = .ok (read, next, rest)) :
    (buffers line stream).getLast? = some next := by
  induction stream generalizing line with
  | nil => cases h; rfl
  | cons character stream ih =>
    rw [readBoundedLine] at h
    rw [buffers]
    split at h
    · cases h
      simp [*]
    · split at h
      · cases h
      · rename_i hnewline hfull
        rw [if_neg hnewline, if_neg hfull, List.getLast?_cons, ih h]
        rfl

/-- How the calls end: behind the last piece, or at one that is too long. -/
inductive Ending (stream : Bytes) (splitting : Splitting) : Prop
  | finished (herror : splitting.error = none) (hlines : splitting.lines = pieces stream)
  | tooLong (piece : Bytes) (later : List Bytes) (herror : splitting.error = some recordTooLong)
    (hpieces : pieces stream = splitting.lines ++ piece :: later)
    (hlong : maximumRecordSize < piece.length)

theorem readAll_ending (stream : Bytes) : Ending stream (readAll stream) := by
  have hspec := readBoundedLine_spec List.not_mem_nil (Nat.zero_le _) stream
  fun_induction readAll stream with
  | case1 stream error hread =>
    simp only [hread] at hspec
    obtain ⟨rfl, piece, more, hpieces, hlong⟩ := hspec
    exact .tooLong piece more rfl hpieces hlong
  | case2 stream line rest hread =>
    simp only [hread] at hspec
    exact .finished rfl hspec.symm
  | case3 stream line rest hread next ih =>
    simp only [hread] at hspec
    have hpieces : pieces stream = line :: pieces rest := hspec.1
    cases ih (readBoundedLine_spec List.not_mem_nil (Nat.zero_le _) rest) with
    | finished herror hlines => exact .finished herror (by rw [hpieces, ← hlines])
    | tooLong piece later herror hlater hlong =>
      exact .tooLong piece later herror (by rw [hpieces, hlater]; rfl) hlong

theorem length_le_of_mem_readAll_buffers (stream : Bytes) :
    ∀ buffer ∈ (readAll stream).buffers, buffer.length ≤ maximumRecordSize := by
  fun_induction readAll stream with
  | case1 | case2 => exact length_le_of_mem_buffers (Nat.zero_le _) _
  | case3 stream line rest hread next ih =>
    exact List.forall_mem_append.2 ⟨length_le_of_mem_buffers (Nat.zero_le _) _, ih⟩

theorem mem_buffers_of_mem_lines (stream : Bytes) :
    ∀ line ∈ (readAll stream).lines, line ∈ (readAll stream).buffers := by
  fun_induction readAll stream with
  | case1 | case2 => exact fun line hline => absurd hline List.not_mem_nil
  | case3 stream line rest hread next ih =>
    refine List.forall_mem_cons.2 ⟨?_, fun other hother => ?_⟩
    · exact List.mem_append_left _ (List.mem_of_getLast? (getLast?_buffers hread))
    · exact List.mem_append_right _ (ih other hother)

theorem bounded_lines_readAll (stream : Bytes) : Bounded (readAll stream).lines :=
  fun line hline => length_le_of_mem_readAll_buffers stream line
    (mem_buffers_of_mem_lines stream line hline)

theorem lines_readAll (stream : Bytes) :
    (readAll stream).lines =
      (pieces stream).takeWhile fun piece => piece.length ≤ maximumRecordSize := by
  have hbounded : ∀ line ∈ (readAll stream).lines,
      decide (line.length ≤ maximumRecordSize) = true :=
    fun line hline => decide_eq_true (bounded_lines_readAll stream line hline)
  cases readAll_ending stream with
  | finished _ hlines =>
    rw [← hlines]
    exact (List.takeWhile_eq_self_iff.2 hbounded).symm
  | tooLong piece later _ hpieces hlong =>
    rw [hpieces, List.takeWhile_append_of_pos hbounded,
      List.takeWhile_cons_of_neg (by simpa using hlong), List.append_nil]

theorem error_readAll_eq_none_iff {stream : Bytes} :
    (readAll stream).error = none ↔ Bounded (pieces stream) := by
  cases readAll_ending stream with
  | finished herror hlines => simp [herror, ← hlines, bounded_lines_readAll]
  | tooLong piece later herror hpieces hlong =>
    have hunbounded : ¬ Bounded (pieces stream) := fun h =>
      absurd (h piece (by simp [hpieces])) (Nat.not_le.2 hlong)
    simp [herror, hunbounded]

theorem readLoop_eq_readAll (J : JsonLibrary) (s : ReaderState) (stream : Bytes) :
    readLoop J s stream = ((readAll stream).lines.foldl (step J) s, (readAll stream).error) := by
  rw [readLoop_eq_readLines]
  cases readAll_ending stream with
  | finished herror hlines =>
    rw [herror, ← hlines, readLines_of_bounded (bounded_lines_readAll stream)]
  | tooLong piece later herror hpieces hlong =>
    rw [hpieces, readLines_append_of_bounded (bounded_lines_readAll stream), readLines,
      if_pos hlong, herror]

/-- Repeated calls return the parts between newlines, without an empty last one, up to the first
part that is too long; nothing else is lost, and nothing larger than a record is stored. -/
theorem readAll_splits (stream : Bytes) :
    let parts := withoutEmptyLast (stream.splitOn newline)
    let reading := readAll stream
    reading.lines = parts.takeWhile (fun part => part.length ≤ maximumRecordSize) ∧
    (reading.error = none ↔ ∀ part ∈ parts, part.length ≤ maximumRecordSize) ∧
    (reading.error = none → reading.lines = parts ∧
      (terminated reading.lines = stream ∨ terminated reading.lines = stream ++ [newline])) ∧
    (∀ error, reading.error = some error → error = recordTooLong ∧
      ∃ part later, parts = reading.lines ++ part :: later ∧ maximumRecordSize < part.length) ∧
    (∀ line ∈ reading.lines, line.length ≤ maximumRecordSize ∧ line ∈ reading.buffers) ∧
    ∀ buffer ∈ reading.buffers, buffer.length ≤ maximumRecordSize := by
  intro parts reading
  have hparts : pieces stream = parts := pieces_eq_splitOn stream
  have hlines := bounded_lines_readAll stream
  have hstored := mem_buffers_of_mem_lines stream
  refine ⟨?_, ?_, ?_, ?_, fun line h => ⟨hlines line h, hstored line h⟩,
    length_le_of_mem_readAll_buffers stream⟩
  · rw [← hparts]
    exact lines_readAll stream
  · rw [← hparts]
    exact error_readAll_eq_none_iff
  · intro hnone
    cases readAll_ending stream with
    | finished herror hall =>
      refine ⟨hall.trans hparts, ?_⟩
      have hterminated := terminated_pieces stream
      rwa [← hall] at hterminated
    | tooLong piece later herror => exact absurd (herror.symm.trans hnone) (by simp)
  · intro error herror
    cases readAll_ending stream with
    | finished hnone => exact absurd (hnone.symm.trans herror) (by simp)
    | tooLong piece later hthrown hpieces hlong =>
      have heq : error = recordTooLong := Option.some.inj (herror.symm.trans hthrown)
      exact ⟨heq, piece, later, hparts.symm.trans hpieces, hlong⟩

end BengalMarket.Reader
