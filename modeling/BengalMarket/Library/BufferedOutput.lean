import Mathlib.Data.List.Induction
import Mathlib.Data.List.TakeDrop

/-! Output through a buffer to a device that accepts only so much.  A stream notices that the
device has stopped when it hands over more than is accepted, and not before. -/

universe u

namespace BufferedOutput

/-- How a stream uses its buffer: how much stays behind of what is in the buffer and what is
inserted. -/
structure Policy where
  keeps : Nat → Nat → Nat
  keeps_le : ∀ pending inserted, keeps pending inserted ≤ pending + inserted

/-- A buffer that keeps everything until its size is reached, and hands over everything then. -/
def Policy.upTo (size : Nat) : Policy where
  keeps pending inserted := if pending + inserted < size then pending + inserted else 0
  keeps_le pending inserted := by split <;> omega

structure Stream (α : Type u) where
  room : Nat
  stored : List α := []
  buffer : List α := []
  good : Bool := true

namespace Stream

variable {α : Type u}

def hand (s : Stream α) (data : List α) : Stream α := { s with
  stored := s.stored ++ data.take (s.room - s.stored.length)
  good := s.good && data.length ≤ s.room - s.stored.length }

def insert (p : Policy) (s : Stream α) (data : List α) : Stream α :=
  if s.good then
    let waiting := s.buffer ++ data
    let handed := waiting.length - p.keeps s.buffer.length data.length
    { s.hand (waiting.take handed) with buffer := waiting.drop handed }
  else s

/-- What is on the device when the stream is gone: the last flush has nobody to report to. -/
def close (s : Stream α) : List α := (s.hand s.buffer).stored

def insertAll (p : Policy) (s : Stream α) (chunks : List (List α)) : Stream α :=
  chunks.foldl (insert p) s

end Stream

section Accounting

variable {α : Type u}

def pending (p : Policy) (chunks : List (List α)) : Nat :=
  chunks.foldl (fun waiting chunk => p.keeps waiting chunk.length) 0

def handed (p : Policy) (chunks : List (List α)) : Nat := chunks.flatten.length - pending p chunks

theorem pending_append_singleton (p : Policy) (chunks : List (List α)) (chunk : List α) :
    pending p (chunks ++ [chunk]) = p.keeps (pending p chunks) chunk.length := by
  simp [pending]

theorem pending_le (p : Policy) (chunks : List (List α)) :
    pending p chunks ≤ chunks.flatten.length := by
  induction chunks using List.reverseRecOn with
  | nil => exact Nat.le_refl 0
  | append_singleton chunks chunk ih =>
    rw [pending_append_singleton, List.flatten_concat, List.length_append]
    exact Nat.le_trans (p.keeps_le _ _) (Nat.add_le_add_right ih _)

theorem handed_append_singleton (p : Policy) (chunks : List (List α)) (chunk : List α) :
    handed p (chunks ++ [chunk]) = handed p chunks +
      (pending p chunks + chunk.length - p.keeps (pending p chunks) chunk.length) := by
  have hle := pending_le p chunks
  have hkeeps := p.keeps_le (pending p chunks) chunk.length
  rw [handed, handed, pending_append_singleton, List.flatten_concat, List.length_append]
  omega

theorem handed_le (p : Policy) (chunks : List (List α)) :
    handed p chunks ≤ chunks.flatten.length := Nat.sub_le _ _

end Accounting

section Laws

variable {α : Type u} {p : Policy} {room : Nat} {chunks : List (List α)}

structure Holds (p : Policy) (room : Nat) (chunks : List (List α)) (s : Stream α) : Prop where
  room_eq : s.room = room
  good_iff : s.good = true ↔ handed p chunks ≤ room
  stored : s.stored = chunks.flatten.take (min room (handed p chunks))
  buffer : s.good = true → s.buffer = chunks.flatten.drop (handed p chunks)

theorem holds_nil (p : Policy) (room : Nat) :
    Holds p room ([] : List (List α)) { room := room } where
  room_eq := rfl
  good_iff := by simp [handed]
  stored := by simp
  buffer _ := by simp

theorem Holds.insert {s : Stream α} (h : Holds p room chunks s) (chunk : List α) :
    Holds p room (chunks ++ [chunk]) (s.insert p chunk) := by
  have hhanded := handed_append_singleton p chunks chunk
  have hle := handed_le p chunks
  have hpending := pending_le p chunks
  by_cases hgood : s.good = true
  · have hfits := h.good_iff.1 hgood
    have hbuffer := h.buffer hgood
    have hstored := h.stored
    rw [Nat.min_eq_right hfits] at hstored
    have hwaiting : s.buffer.length = pending p chunks := by
      rw [hbuffer, List.length_drop, handed]
      omega
    have hlength : s.stored.length = handed p chunks := by
      rw [hstored, List.length_take, Nat.min_eq_left hle]
    -- the whole content is what is stored and what waits
    have hcontent : (chunks ++ [chunk]).flatten = s.stored ++ (s.buffer ++ chunk) := by
      rw [List.flatten_concat, hstored, hbuffer, ← List.append_assoc, List.take_append_drop]
    have hcount : (s.buffer ++ chunk).length - p.keeps s.buffer.length chunk.length =
        handed p (chunks ++ [chunk]) - handed p chunks := by
      rw [hhanded, List.length_append, hwaiting]
      omega
    have hstep : s.insert p chunk = { s.hand ((s.buffer ++ chunk).take
        (handed p (chunks ++ [chunk]) - handed p chunks)) with
          buffer :=
            (s.buffer ++ chunk).drop (handed p (chunks ++ [chunk]) - handed p chunks) } := by
      rw [Stream.insert, if_pos hgood]
      simp only [hcount]
    have hall : handed p (chunks ++ [chunk]) - handed p chunks ≤ (s.buffer ++ chunk).length := by
      rw [← hcount]
      exact Nat.sub_le _ _
    rw [hstep]
    clear hstep hcount
    generalize s.buffer ++ chunk = waiting at hcontent hall ⊢
    constructor
    · exact h.room_eq
    · simp only [Stream.hand, hgood, Bool.true_and, decide_eq_true_eq, List.length_take, hlength,
        h.room_eq, Nat.min_eq_left hall]
      omega
    · have hfirst : s.stored.take (min room (handed p (chunks ++ [chunk]))) = s.stored := by
        apply List.take_of_length_le
        rw [hlength]
        omega
      have hsame : min (room - handed p chunks) (handed p (chunks ++ [chunk]) - handed p chunks) =
          min room (handed p (chunks ++ [chunk])) - handed p chunks := by omega
      rw [hcontent, List.take_append, hfirst, hlength]
      simp only [Stream.hand, hlength, h.room_eq]
      rw [List.take_take, hsame]
    · intro _
      have hfirst : s.stored.drop (handed p (chunks ++ [chunk])) = [] := by
        apply List.drop_eq_nil_of_le
        rw [hlength]
        omega
      rw [hcontent, List.drop_append, hfirst, hlength, List.nil_append]
  · have hbad : ¬ handed p chunks ≤ room := fun hfits => hgood (h.good_iff.2 hfits)
    rw [Stream.insert, if_neg hgood]
    constructor
    · exact h.room_eq
    · exact iff_of_false hgood (by omega)
    · rw [h.stored, List.flatten_concat, Nat.min_eq_left (by omega), Nat.min_eq_left (by omega),
        List.take_append_of_le_length (by omega)]
    · exact fun hcontra => absurd hcontra hgood

theorem holds_insertAll (p : Policy) (room : Nat) (chunks : List (List α)) :
    Holds p room chunks (Stream.insertAll p { room := room } chunks) := by
  induction chunks using List.reverseRecOn with
  | nil => exact holds_nil p room
  | append_singleton chunks chunk ih =>
    rw [Stream.insertAll, List.foldl_append]
    exact ih.insert chunk

theorem good_insertAll : (Stream.insertAll p { room := room } chunks).good = true ↔
    handed p chunks ≤ room := (holds_insertAll p room chunks).good_iff

theorem close_insertAll :
    (Stream.insertAll p { room := room } chunks).close = chunks.flatten.take room := by
  have h := holds_insertAll p room chunks
  have hle := handed_le p chunks
  rw [Stream.close, Stream.hand]
  simp only [h.room_eq, h.stored, List.length_take]
  by_cases hfits : handed p chunks ≤ room
  · rw [h.buffer (h.good_iff.2 hfits), Nat.min_eq_right hfits, Nat.min_eq_left hle]
    conv => rhs; rw [← List.take_append_drop (handed p chunks) chunks.flatten]
    rw [List.take_append, List.length_take, Nat.min_eq_left hle, List.take_take,
      Nat.min_eq_right hfits]
  · have hzero : room - min (min room (handed p chunks)) chunks.flatten.length = 0 := by omega
    rw [hzero, List.take_zero, List.append_nil, Nat.min_eq_left (by omega)]

/-- The device stops inside the tail that is still in the buffer when the stream is tested. -/
def Cut (p : Policy) (room : Nat) (chunks : List (List α)) : Prop :=
  handed p chunks ≤ room ∧ room < chunks.flatten.length

theorem complete_of_good_iff :
    ((Stream.insertAll p { room := room } chunks).good = true →
      (Stream.insertAll p { room := room } chunks).close = chunks.flatten) ↔
        ¬ Cut p room chunks := by
  rw [good_insertAll, close_insertAll, List.take_eq_self_iff, Cut, not_and, Nat.not_lt]

end Laws

end BufferedOutput
