import BengalMarket.Library.Json
import BengalMarket.Library.Lines
import BengalMarket.Reader.Decimal

/-! The generator of fixtures.  The members of an object stand in the order of their keys,
as the library keeps them. -/

namespace BengalMarket.Fixture

def varied (base : Int64) (period step index : UInt64) : Int64 :=
  base + ((index % period) * step).toInt64

def price (index : UInt64) : Int64 := varied 3000000000000 10000 10000 index

def amount (index : UInt64) : Int64 := varied 100000 100 1000 index

def time : Bytes := ascii "2026-01-01T00:00:00.000000000Z"

section Records

variable {Double : Type}

def metadata (productId : Bytes) : Json Double := .object [
  (ascii "format", .string (ascii "bengal-market-capture")),
  (ascii "product_ids", .array [.string productId]),
  (ascii "source", .string (ascii "deterministic-generator")),
  (ascii "type", .string (ascii "metadata")),
  (ascii "version", .integer 1)]

def inputTrade (index : UInt64) (productId : Bytes) : Json Double := .object [
  (ascii "price", .string (formatDecimal (price index))),
  (ascii "product_id", .string productId),
  (ascii "side", .string (if index % 2 = 0 then ascii "BUY" else ascii "SELL")),
  (ascii "size", .string (formatDecimal (amount index))),
  (ascii "time", .string time),
  (ascii "trade_id", .string (Decimal.text (index + 1).toNat))]

def event (index : UInt64) (productId : Bytes) : Json Double := .object [
  (ascii "trades", .array [inputTrade index productId]),
  (ascii "type", .string (ascii "update"))]

def payload (index : UInt64) (productId : Bytes) : Json Double := .object [
  (ascii "channel", .string (ascii "market_trades")),
  (ascii "events", .array [event index productId]),
  (ascii "sequence_num", .unsigned (index + 1)),
  (ascii "timestamp", .string time)]

def frame (index : UInt64) (text : Bytes) : Json Double := .object [
  (ascii "connection_id", .integer 1),
  (ascii "payload", .string text),
  (ascii "received_ns", .unsigned (index * 1000)),
  (ascii "type", .string (ascii "frame"))]

end Records

/-- What a function inserts into a stream, a chunk for every operand of `<<`, and the exception that
ends it.  Nothing that is inserted depends on the stream. -/
structure Insertions where
  chunks : List Bytes := []
  error : Option String := none

variable (J : JsonLibrary)

def writeFrames (productId : Bytes) (eventCount index : UInt64) : Insertions :=
  if index < eventCount then
    match J.dump (payload index productId) with
    | .error what => { error := some what }
    | .ok text =>
      match J.dump (frame index text) with
      | .error what => { error := some what }
      | .ok line =>
        let rest := writeFrames productId eventCount (index + 1)
        { rest with chunks := line :: [Lines.newline] :: rest.chunks }
  else {}
termination_by eventCount.toNat - index.toNat
decreasing_by
  rename_i hlt
  have hnat := UInt64.lt_iff_toNat_lt.1 hlt
  have hbound := eventCount.toNat_lt
  rw [UInt64.toNat_add, UInt64.toNat_one, Nat.mod_eq_of_lt (by omega)]
  omega

def writeFixture (eventCount : UInt64) (productId : Bytes) : Insertions :=
  match J.dump (metadata productId) with
  | .error what => { error := some what }
  | .ok line =>
    let rest := writeFrames J productId eventCount 0
    { rest with chunks := line :: [Lines.newline] :: rest.chunks }

/-- The checks before the first insertion; `created` is whether the file can be opened. -/
def refusal (created : Bool) (output : String) (eventCount : UInt64) (productId : Bytes) :
    Option String :=
  if eventCount = 0 then some "event count must be positive"
  else if productId.isEmpty || productId.length > 20 then
    some "product ID must contain 1 to 20 characters"
  else if !created then some ("cannot create fixture: " ++ output)
  else none

def fixtureChunks (eventCount : UInt64) (productId : Bytes) : Except String (List Bytes) :=
  let written := writeFixture J eventCount productId
  match written.error with
  | some what => .error what
  | none => .ok written.chunks

/-- What the file at `output` holds afterwards, on a device that takes all of it; whether the
stream is good after the loop is up to the system. -/
def generateFixture (created good : Bool) (output : String) (eventCount : UInt64)
    (productId : Bytes) : Except String Bytes :=
  match refusal created output eventCount productId with
  | some what => .error what
  | none => do
    let chunks ← fixtureChunks J eventCount productId
    if good then .ok chunks.flatten else .error "failed writing fixture"

section Refusals

variable {created : Bool} {output : String} {eventCount : UInt64} {productId : Bytes}

theorem refusal_eq_none_iff : refusal created output eventCount productId = none ↔
    eventCount ≠ 0 ∧ productId ≠ [] ∧ productId.length ≤ 20 ∧ created = true := by
  unfold refusal
  split_ifs with hcount hproduct hcreated
  · simp [hcount]
  · simp only [Bool.or_eq_true, List.isEmpty_iff, decide_eq_true_eq] at hproduct
    refine iff_of_false (by simp) fun h => ?_
    rcases hproduct with hempty | hlong
    · exact h.2.1 hempty
    · exact absurd h.2.2.1 (Nat.not_le.2 hlong)
  · exact iff_of_false (by simp) fun h => by simp [h.2.2.2] at hcreated
  · simp only [Bool.or_eq_true, List.isEmpty_iff, decide_eq_true_eq, not_or, Nat.not_lt]
      at hproduct
    exact iff_of_true rfl ⟨hcount, hproduct.1, hproduct.2, by simpa using hcreated⟩

end Refusals

end BengalMarket.Fixture
