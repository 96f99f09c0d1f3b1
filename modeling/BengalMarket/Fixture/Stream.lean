import BengalMarket.Fixture.Generator
import BengalMarket.Library.BufferedOutput

/-! The stream that the generator of fixtures writes to.  The test after the loop sees what the
stream has handed over by then. -/

namespace BengalMarket.Fixture

open BufferedOutput

structure Device where
  opens : Bool := true
  room : Nat

structure Outcome where
  error : Option String
  file : Option Bytes := none

variable (J : JsonLibrary) (p : Policy)

/-- `generateFixture` with the stream that it writes to. -/
def streamFixture (device : Device) (output : String) (eventCount : UInt64) (productId : Bytes) :
    Outcome :=
  match refusal device.opens output eventCount productId with
  | some what => { error := some what }
  | none =>
    let written := writeFixture J eventCount productId
    let s := Stream.insertAll p { room := device.room } written.chunks
    -- an exception of the library leaves the function before the stream is tested
    { error := written.error <|> if s.good then none else some "failed writing fixture"
      file := some s.close }

section Outcomes

variable {J p} {device : Device} {output : String} {eventCount : UInt64} {productId : Bytes}

def Accepted (device : Device) (eventCount : UInt64) (productId : Bytes) : Prop :=
  eventCount ≠ 0 ∧ productId ≠ [] ∧ productId.length ≤ 20 ∧ device.opens = true

theorem error_of_not_accepted (h : ¬ Accepted device eventCount productId) :
    (streamFixture J p device output eventCount productId).error ≠ none := by
  rw [streamFixture]
  cases hrefusal : refusal device.opens output eventCount productId with
  | some what => simp
  | none => exact absurd (refusal_eq_none_iff.1 hrefusal) h

section Run

variable (h : Accepted device eventCount productId)

include h

theorem streamFixture_of_ok {chunks : List Bytes}
    (hchunks : fixtureChunks J eventCount productId = .ok chunks) :
    streamFixture J p device output eventCount productId =
      { error := if handed p chunks ≤ device.room then none else some "failed writing fixture"
        file := some (chunks.flatten.take device.room) } := by
  rw [fixtureChunks] at hchunks
  rw [streamFixture, refusal_eq_none_iff.2 h]
  cases herror : (writeFixture J eventCount productId).error with
  | some what => simp [herror] at hchunks
  | none =>
    simp only [herror, Except.ok.injEq] at hchunks
    simp [hchunks, herror, close_insertAll, good_insertAll]

theorem error_of_chunks {what : String}
    (hchunks : fixtureChunks J eventCount productId = .error what) :
    (streamFixture J p device output eventCount productId).error ≠ none := by
  rw [fixtureChunks] at hchunks
  rw [streamFixture, refusal_eq_none_iff.2 h]
  cases herror : (writeFixture J eventCount productId).error with
  | some what => simp [herror]
  | none => simp [herror] at hchunks

theorem generateFixture_eq_flatten : generateFixture J true true output eventCount productId =
    (fixtureChunks J eventCount productId).map List.flatten := by
  rw [generateFixture, refusal_eq_none_iff.2 ⟨h.1, h.2.1, h.2.2.1, rfl⟩]
  cases fixtureChunks J eventCount productId with
  | error what => rfl
  | ok chunks => rfl

end Run

theorem streamFixture_eq_none_iff :
    (streamFixture J p device output eventCount productId).error = none ↔
      Accepted device eventCount productId ∧ ∃ chunks,
        fixtureChunks J eventCount productId = .ok chunks ∧ handed p chunks ≤ device.room ∧
          (streamFixture J p device output eventCount productId).file =
            some (chunks.flatten.take device.room) := by
  by_cases h : Accepted device eventCount productId
  · cases hchunks : fixtureChunks J eventCount productId with
    | error what => simp [error_of_chunks h hchunks]
    | ok chunks =>
      rw [streamFixture_of_ok h hchunks]
      simp [h]
  · simp [h, error_of_not_accepted h]

theorem streamFixture_complete_iff :
    ((streamFixture J p device output eventCount productId).error = none →
      ∃ content, generateFixture J true true output eventCount productId = .ok content ∧
        (streamFixture J p device output eventCount productId).file = some content) ↔
      ¬ (Accepted device eventCount productId ∧
        ∃ chunks, fixtureChunks J eventCount productId = .ok chunks ∧
          Cut p device.room chunks) := by
  by_cases h : Accepted device eventCount productId
  · rw [generateFixture_eq_flatten h]
    cases hchunks : fixtureChunks J eventCount productId with
    | error what => simp [error_of_chunks h hchunks]
    | ok chunks =>
      have hcut := @complete_of_good_iff _ p device.room chunks
      rw [good_insertAll, close_insertAll] at hcut
      rw [streamFixture_of_ok h hchunks]
      simp [h, Except.map, ← hcut]
  · simp [h, error_of_not_accepted h]

end Outcomes

end BengalMarket.Fixture
