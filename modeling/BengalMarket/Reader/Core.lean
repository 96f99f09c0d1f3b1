import BengalMarket.Library.Json
import BengalMarket.Library.Lines
import BengalMarket.Reader.Decimal
import BengalMarket.Reader.Timestamp

/-! The streaming reader of a recording.  The body of the `try` in `read_capture`
is split at its stages; the exception it may throw is part of the result, because
what was done before it stands. -/

namespace BengalMarket

def maximumRecordSize : Nat := 8 * 1024 * 1024

def maximumSequenceStreams : Nat := 4096

/-- The exceptions caught per line: those of the JSON library and those thrown here. -/
inductive ReadError
  | json
  | runtime (what : String)
  deriving DecidableEq

namespace ReadError

def unsupportedMetadata : ReadError := .runtime "unsupported capture metadata"
def requiresProductIds : ReadError := .runtime "capture metadata requires product IDs"
def invalidProductId : ReadError := .runtime "invalid metadata product ID"
def unknownType : ReadError := .runtime "unknown capture record type"
def metadataNotFirst : ReadError := .runtime "capture metadata must be first"
def noSequenceNumber : ReadError := .runtime "data channel payload has no sequence number"
def streamLimit : ReadError := .runtime "capture exceeds sequence-stream limit"
def invalidTrade : ReadError := .runtime "invalid market trade"

end ReadError

def accessor {α : Type} : Option α → Except ReadError α
  | some value => .ok value
  | none => .error .json

def require (condition : Bool) (error : ReadError) : Except ReadError Unit :=
  if condition then .ok () else .error error

/-- Which connections were seen, with the largest sequence number of each, and what
the jumps between them add up to. -/
structure SequenceTracker where
  lastSequences : List (UInt64 × UInt64) := []
  sequenceGaps : UInt64 := 0
  outOfOrder : UInt64 := 0
  deriving DecidableEq

namespace SequenceTracker

def setLast (table : List (UInt64 × UInt64)) (connectionId sequence : UInt64) :
    List (UInt64 × UInt64) :=
  table.map fun entry => if entry.1 = connectionId then (connectionId, sequence) else entry

def advance (t : SequenceTracker) (connectionId previous sequence : UInt64) : SequenceTracker where
  lastSequences :=
    if sequence > previous then setLast t.lastSequences connectionId sequence
    else t.lastSequences
  sequenceGaps :=
    if sequence > previous && sequence - previous > 1 then
      t.sequenceGaps + (sequence - previous - 1)
    else t.sequenceGaps
  outOfOrder := if sequence ≤ previous then t.outOfOrder + 1 else t.outOfOrder

def track (t : SequenceTracker) (connectionId sequence : UInt64) :
    Except ReadError SequenceTracker :=
  match t.lastSequences.lookup connectionId with
  | none =>
    if t.lastSequences.length = maximumSequenceStreams then .error .streamLimit
    else .ok { t with lastSequences := t.lastSequences ++ [(connectionId, sequence)] }
  | some previous => .ok (t.advance connectionId previous sequence)

end SequenceTracker

/-- The state of the loop; `delivered` is what the consumer was invoked with. -/
structure ReaderState where
  frames : UInt64 := 0
  parseErrors : UInt64 := 0
  tracker : SequenceTracker := {}
  metadataSeen : Bool := false
  delivered : List Trade := []
  deriving DecidableEq

def ReaderState.metrics (s : ReaderState) : ParseMetrics where
  frames := s.frames
  parseErrors := s.parseErrors
  sequenceGaps := s.tracker.sequenceGaps
  outOfOrder := s.tracker.outOfOrder

namespace Reader

variable (J : JsonLibrary)

def member (value : J.Value) (key : String) : Except ReadError J.Value :=
  accessor (value.at? (ascii key))

def memberString (value : J.Value) (key : String) : Except ReadError Bytes := do
  let found ← member J value key
  accessor found.string?

def memberUInt64 (value : J.Value) (key : String) : Except ReadError UInt64 := do
  let found ← member J value key
  accessor (J.uint64? found)

def readProductId (productId : J.Value) : Except ReadError Unit := do
  let product ← accessor productId.string?
  require (!(product.isEmpty || product.length > 20)) .invalidProductId

def readProductIds : List J.Value → Except ReadError Unit
  | [] => .ok ()
  | productId :: rest => do
    readProductId J productId
    readProductIds rest

def equalsString (expected : String) : J.Value → Bool
  | .string value => value == ascii expected
  | _ => false

def readMetadata (metadataSeen : Bool) (record : J.Value) : Except ReadError Unit := do
  require (!metadataSeen) .unsupportedMetadata
  let format ← member J record "format"
  require (equalsString J "bengal-market-capture" format) .unsupportedMetadata
  let version ← member J record "version"
  require (J.equals 1 version) .unsupportedMetadata
  let _ ← memberString J record "source"
  let productIds ← member J record "product_ids"
  require (productIds.isArray && !productIds.children.isEmpty) .requiresProductIds
  readProductIds J productIds.children

structure Envelope where
  connectionId : UInt64
  payload : J.Value
  channel : Bytes
  sequence : Option UInt64

def isDataChannel (channel : Bytes) : Bool :=
  channel == ascii "market_trades" || channel == ascii "heartbeats"

def readSequence (payload : J.Value) (channel : Bytes) : Except ReadError (Option UInt64) :=
  if !payload.contains (ascii "sequence_num") then do
    require (!isDataChannel channel) .noSequenceNumber
    .ok none
  else do
    let sequence ← memberUInt64 J payload "sequence_num"
    .ok (some sequence)

def readEnvelope (record : J.Value) : Except ReadError (Envelope J) := do
  let _ ← memberUInt64 J record "received_ns"
  let connectionId ← memberUInt64 J record "connection_id"
  let text ← memberString J record "payload"
  let payload ← accessor (J.parse text)
  let channel ← memberString J payload "channel"
  let sequence ← readSequence J payload channel
  .ok { connectionId, payload, channel, sequence }

def readSide (side : Bytes) : Except ReadError TradeSide :=
  if side = ascii "BUY" then .ok .buy
  else if side = ascii "SELL" then .ok .sell
  else .error .invalidTrade

def parsed {α : Type} : Option α → Except ReadError α
  | some value => .ok value
  | none => .error .invalidTrade

/-- The four texts are fetched before any of them is checked. -/
def readTrade (input : J.Value) : Except ReadError Trade := do
  let price ← memberString J input "price"
  let size ← memberString J input "size"
  let side ← memberString J input "side"
  let time ← memberString J input "time"
  let price ← parsed (parseDecimal price)
  let size ← parsed (parseDecimal size)
  let sourceTimeNs ← parsed (parseTimestampNs time)
  let tradeId ← memberString J input "trade_id"
  let tradeId ← parsed (BoundedText.assign 24 tradeId)
  let productId ← memberString J input "product_id"
  let productId ← parsed (BoundedText.assign 20 productId)
  let side ← readSide side
  .ok { tradeId, productId, price, size, side, sourceTimeNs }

/-- The trades handed over before the loop ends, and the exception that ended it. -/
def readTrades : List J.Value → List Trade × Option ReadError
  | [] => ([], none)
  | input :: rest =>
    match readTrade J input with
    | .error error => ([], some error)
    | .ok value =>
      let (values, error) := readTrades rest
      (value :: values, error)

def readEvents : List J.Value → List Trade × Option ReadError
  | [] => ([], none)
  | event :: rest =>
    match member J event "trades" with
    | .error error => ([], some error)
    | .ok trades =>
      match readTrades J trades.children with
      | (values, some error) => (values, some error)
      | (values, none) =>
        let (later, error) := readEvents rest
        (values ++ later, error)

def readPayload (envelope : Envelope J) : List Trade × Option ReadError :=
  if envelope.channel ≠ ascii "market_trades" then ([], none)
  else match member J envelope.payload "events" with
    | .error error => ([], some error)
    | .ok events => readEvents J events.children

def readFrame (s : ReaderState) (record : J.Value) : ReaderState × Option ReadError :=
  let s := { s with frames := s.frames + 1 }
  match readEnvelope J record with
  | .error error => (s, some error)
  | .ok envelope =>
    match envelope.sequence with
    | none => (s, none)
    | some sequence =>
      match s.tracker.track envelope.connectionId sequence with
      | .error error => (s, some error)
      | .ok tracker =>
        let (values, error) := readPayload J envelope
        ({ s with tracker := tracker, delivered := s.delivered ++ values }, error)

def readRecord (s : ReaderState) (record : J.Value) : ReaderState × Option ReadError :=
  match memberString J record "type" with
  | .error error => (s, some error)
  | .ok type =>
    if type = ascii "metadata" then
      match readMetadata J s.metadataSeen record with
      | .error error => (s, some error)
      | .ok () => ({ s with metadataSeen := true }, none)
    else if type ≠ ascii "frame" then (s, some .unknownType)
    else if !s.metadataSeen then (s, some .metadataNotFirst)
    else readFrame J s record

def readLine (s : ReaderState) (line : Bytes) : ReaderState × Option ReadError :=
  match J.parse line with
  | none => (s, some .json)
  | some record => readRecord J s record

def countError : ReaderState × Option ReadError → ReaderState
  | (s, none) => s
  | (s, some _) => { s with parseErrors := s.parseErrors + 1 }

def step (s : ReaderState) (line : Bytes) : ReaderState :=
  if line = [] then s else countError (readLine J s line)

def recordTooLong : String := "capture record exceeds 8 MiB limit"

def readBoundedLine (line : Bytes) : Bytes → Except String (Bool × Bytes × Bytes)
  | [] => .ok (!line.isEmpty, line, [])
  | character :: rest =>
    if character = Lines.newline then .ok (true, line, rest)
    else if line.length = maximumRecordSize then .error recordTooLong
    else readBoundedLine (line ++ [character]) rest

theorem length_rest_le {line rest next : Bytes} {stream : Bytes} {read : Bool}
    (h : readBoundedLine line stream = .ok (read, next, rest)) :
    rest.length ≤ stream.length := by
  induction stream generalizing line with
  | nil => cases h; rfl
  | cons character stream ih =>
    rw [readBoundedLine] at h
    split at h
    · cases h; simp
    · split at h
      · cases h
      · exact (ih h).trans (by simp)

theorem length_rest_lt {rest next stream : Bytes}
    (h : readBoundedLine [] stream = .ok (true, next, rest)) : rest.length < stream.length := by
  cases stream with
  | nil => simp [readBoundedLine] at h
  | cons character stream =>
    rw [readBoundedLine] at h
    split at h
    · cases h; simp
    · split at h
      · cases h
      · exact Nat.lt_succ_of_le (length_rest_le h)

def readLoop (s : ReaderState) (stream : Bytes) : ReaderState × Option String :=
  match _h : readBoundedLine [] stream with
  | .error error => (s, some error)
  | .ok (false, _, _) => (s, none)
  | .ok (true, line, rest) => readLoop (step J s line) rest
termination_by stream.length
decreasing_by exact length_rest_lt _h

structure CaptureReading where
  delivered : List Trade
  outcome : Except String ParseMetrics

/-- `none` is a file that cannot be opened. -/
def readCapture (path : String) (file : Option Bytes) : CaptureReading :=
  match file with
  | none => ⟨[], .error ("cannot open capture: " ++ path)⟩
  | some stream =>
    match readLoop J {} stream with
    | (s, some error) => ⟨s.delivered, .error error⟩
    | (s, none) =>
      if s.metadataSeen then ⟨s.delivered, .ok s.metrics⟩
      else ⟨s.delivered, .error "capture has no metadata record"⟩

end Reader

end BengalMarket
