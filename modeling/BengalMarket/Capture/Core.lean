import BengalMarket.Capture.Output
import BengalMarket.Library.Json

/-! The capture of a live feed.  What the network, the clock, the kernel and the stop
request do is a script; `capture_live` is a function of it. -/

namespace BengalMarket.Capture

def maximumMessageSize : Nat := 4 * 1024 * 1024

def maximumConsecutiveFailures : UInt64 := 5

def bufferSize : Nat := 64 * 1024

structure CaptureOptions where
  output : String
  productIds : List Bytes
  durationSeconds : Int64 := 30
  endpoint : Bytes := ascii "wss://advanced-trade-ws.coinbase.com"

structure CaptureResult where
  frames : UInt64 := 0
  reconnects : UInt64 := 0
  interrupted : Bool := false
  deriving DecidableEq

/-- What happens before a check of the clock and of the stop request, which stays once it
has arrived. -/
structure Signal where
  elapsedNs : Nat := 0
  stop : Bool := false
  deriving DecidableEq

structure Flags where
  text : Bool := false
  binary : Bool := false
  cont : Bool := false
  close : Bool := false
  ping : Bool := false
  pong : Bool := false
  deriving DecidableEq

structure Chunk where
  flags : Flags
  bytesLeft : Nat
  data : Bytes
  fits : data.length ≤ bufferSize

inductive WaitResult
  | ready
  | unknownSocket (error : String)
  | noSocket
  | pollFailed

inductive Received
  | again (before after : Signal) (result : WaitResult)
  | failed (error : String)
  | noMetadata
  | chunk (chunk : Chunk)

structure Receive where
  signal : Signal := {}
  received : Received
  wallTimeNs : UInt64 := 0
  writes : List WriteResult := []

inductive Connect
  | connected
  | stopped
  | failed (error : String)

structure Attempt where
  signal : Signal := {}
  connect : Connect
  receives : List Receive := []
  handler : Signal := {}
  sleeps : List Signal := []

structure Script where
  curlReady : Bool := true
  destinationExists : Bool := false
  openError : Option String := none
  metadataWrites : List WriteResult := []
  startNs : Nat := 0
  attempts : List Attempt
  final : Signal := {}
  commit : CommitResults := {}

/-- The local state of `capture_live`, with what was written to the partial output. -/
structure Progress where
  now : Nat
  stop : Bool := false
  file : Bytes
  result : CaptureResult := {}
  lastError : String := ""
  connectionId : UInt64 := 0
  consecutiveFailures : UInt64 := 0

/-- How the `try` of an iteration is left; `pending` is the end of the script. -/
inductive Exit
  | finished
  | stopped
  | failed (what : String)
  | pending

/-- History: a frame record, and what became of its `write_line`. -/
structure FrameWrite where
  receivedNs : UInt64
  connectionId : UInt64
  payload : Bytes
  line : Bytes
  written : Written

namespace Progress

def pass (s : Progress) (signal : Signal) : Progress :=
  { s with now := s.now + signal.elapsedNs, stop := s.stop || signal.stop }

def running (s : Progress) (deadline : Int) : Bool := (s.now : Int) < deadline && !s.stop

def waitSocket (s : Progress) (before after : Signal) (result : WaitResult) :
    Progress × Option Exit :=
  let s := s.pass before
  if s.stop then (s, some .stopped)
  else match result with
    | .unknownSocket error => (s, some (.failed ("get WebSocket socket: " ++ error)))
    | .noSocket => (s, some (.failed "WebSocket has no active socket"))
    | .pollFailed => (s, some (.failed "poll failed"))
    | .ready =>
      let s := s.pass after
      if s.stop then (s, some .stopped) else (s, none)

end Progress

section Records

variable {Double : Type}

def metadataRecord (options : CaptureOptions) : Json Double := .object [
  (ascii "endpoint", .string options.endpoint),
  (ascii "format", .string (ascii "bengal-market-capture")),
  (ascii "product_ids", .array (options.productIds.map .string)),
  (ascii "source", .string (ascii "coinbase-advanced-trade")),
  (ascii "type", .string (ascii "metadata")),
  (ascii "version", .integer 1)]

def frameRecord (receivedNs connectionId : UInt64) (payload : Bytes) : Json Double := .object [
  (ascii "connection_id", .unsigned connectionId),
  (ascii "payload", .string payload),
  (ascii "received_ns", .unsigned receivedNs),
  (ascii "type", .string (ascii "frame"))]

end Records

/-- The guard, in the arithmetic of `size_t`. -/
def exceedsLimit (received : Nat) (message : Bytes) : Bool :=
  UInt64.ofNat received > UInt64.ofNat maximumMessageSize - UInt64.ofNat message.length

def assemble (message : Bytes) (chunk : Chunk) : Except String (Bytes × Bool) :=
  if chunk.flags.close then .error "server closed WebSocket"
  else if chunk.flags.ping || chunk.flags.pong then .ok (message, false)
  else if chunk.flags.binary then .ok ([], false)
  else if !chunk.flags.text then .ok (message, false)
  else if exceedsLimit chunk.data.length message then
    .error "WebSocket message exceeds 4 MiB limit"
  else .ok (message ++ chunk.data, chunk.bytesLeft == 0 && !chunk.flags.cont)

variable (J : JsonLibrary)

structure Reception where
  state : Progress
  next : Except Exit Bytes
  writes : List FrameWrite := []

def writeFrame (path : String) (s : Progress) (message : Bytes) (wallTimeNs : UInt64)
    (writes : List WriteResult) : Reception :=
  match J.dump (frameRecord wallTimeNs s.connectionId message) with
  | .error what => { state := s, next := .error (.failed what) }
  | .ok line =>
    let written := writeLine path line writes
    let frame : FrameWrite := ⟨wallTimeNs, s.connectionId, message, line, written⟩
    let s := { s with file := s.file ++ written.accepted }
    match written.error with
    | some what => { state := s, next := .error (.failed what), writes := [frame] }
    | none =>
      { state := { s with
          result := { s.result with frames := s.result.frames + 1 }
          consecutiveFailures := 0 }
        next := .ok []
        writes := [frame] }

def receive (path : String) (s : Progress) (message : Bytes) (r : Receive) : Reception :=
  match r.received with
  | .again before after result =>
    match s.waitSocket before after result with
    | (s, some exit) => { state := s, next := .error exit }
    | (s, none) => { state := s, next := .ok message }
  | .failed error => { state := s, next := .error (.failed ("receive WebSocket frame: " ++ error)) }
  | .noMetadata => { state := s, next := .error (.failed "WebSocket frame metadata missing") }
  | .chunk chunk =>
    match assemble message chunk with
    | .error what => { state := s, next := .error (.failed what) }
    | .ok (message, false) => { state := s, next := .ok message }
    | .ok (message, true) => writeFrame J path s message r.wallTimeNs r.writes

structure Connection where
  state : Progress
  exit : Exit
  received : List Received := []
  writes : List FrameWrite := []

def receiveLoop (path : String) (deadline : Int) (s : Progress) (message : Bytes) :
    List Receive → Connection
  | [] => { state := s, exit := .pending }
  | r :: rest =>
    let s := s.pass r.signal
    if !s.running deadline then { state := s, exit := .finished }
    else
      let step := receive J path s message r
      match step.next with
      | .error exit =>
        { state := step.state, exit := exit, received := [r.received], writes := step.writes }
      | .ok message =>
        let later := receiveLoop path deadline step.state message rest
        { later with
          received := r.received :: later.received
          writes := step.writes ++ later.writes }

def connect (path : String) (deadline : Int) (s : Progress) (a : Attempt) : Connection :=
  match a.connect with
  | .stopped => { state := { s with stop := true }, exit := .stopped }
  | .failed error => { state := s, exit := .failed error }
  | .connected => receiveLoop J path deadline s [] a.receives

/-- The wait of 250 ms before the next connection, in pieces of 10 ms. -/
def sleepLoop : Nat → Progress → List Signal → Progress
  | 0, s, _ => s
  | n + 1, s, signals =>
    let s := s.pass (signals.headD {})
    if s.stop then s else sleepLoop n { s with now := s.now + 10000000 } signals.tail

/-- History: one connection from its start to its end, what was received on it and which frames it
wrote; `inTime` is what the handler of an exception would see. -/
structure AttemptLog where
  connectionId : UInt64
  received : List Received
  writes : List FrameWrite
  start : Progress
  finish : Progress
  exit : Exit
  inTime : Bool

inductive LoopExit
  | done
  | threw (what : String)
  | pending

structure Loop where
  state : Progress
  exit : LoopExit
  log : List AttemptLog := []

def handle (deadline : Int) (s : Progress) (a : Attempt) (what : String) :
    Progress × Option LoopExit :=
  let s := { s.pass a.handler with lastError := what }
  if !s.running deadline then (s, some .done)
  else
    let s := { s with
      result := { s.result with reconnects := s.result.reconnects + 1 }
      consecutiveFailures := s.consecutiveFailures + 1 }
    if s.consecutiveFailures ≥ maximumConsecutiveFailures then
      (s, some (.threw ("capture stopped after repeated failures: " ++ what)))
    else (sleepLoop 25 s a.sleeps, none)

def logOf (deadline : Int) (s : Progress) (a : Attempt) (connection : Connection) :
    AttemptLog where
  connectionId := s.connectionId
  received := connection.received
  writes := connection.writes
  start := s
  finish := connection.state
  exit := connection.exit
  inTime := (connection.state.pass a.handler).running deadline

def captureLoop (path : String) (deadline : Int) (s : Progress) : List Attempt → Loop
  | [] => { state := s, exit := .pending }
  | a :: rest =>
    let s := s.pass a.signal
    if !s.running deadline then { state := s, exit := .done }
    else
      let s := { s with connectionId := s.connectionId + 1 }
      let connection := connect J path deadline s a
      let log := logOf deadline s a connection
      match connection.exit with
      | .pending => { state := connection.state, exit := .pending, log := [log] }
      | .stopped => { state := connection.state, exit := .done, log := [log] }
      | .finished =>
        let later := captureLoop path deadline connection.state rest
        { later with log := log :: later.log }
      | .failed what =>
        match handle deadline connection.state a what with
        | (s, some exit) => { state := s, exit := exit, log := [log] }
        | (s, none) =>
          let later := captureLoop path deadline s rest
          { later with log := log :: later.log }

/-- A run: `outcome` is `none` when the script ends first; `result` is the local variable,
`file` what was written to the partial output and `destination` what was published. -/
structure Run where
  outcome : Option (Except String CaptureResult)
  result : CaptureResult := {}
  file : Option Bytes := none
  destination : Option Bytes := none
  log : List AttemptLog := []

def threw (what : String) : Run := { outcome := some (.error what) }

def finish (options : CaptureOptions) (script : Script) (s : Progress) (log : List AttemptLog) :
    Run :=
  let s := s.pass script.final
  let result := { s.result with interrupted := s.stop }
  if result.frames == 0 && !result.interrupted then
    { outcome := some (.error ("capture received no frames" ++
        if s.lastError.isEmpty then "" else ": " ++ s.lastError))
      result := result
      file := some s.file
      log := log }
  else
    let (published, error) := commit options.output script.commit
    { outcome := some (match error with
        | some what => .error what
        | none => .ok result)
      result := result
      file := some s.file
      destination := if published then some s.file else none
      log := log }

/-- The deadline of the steady clock, a signed 64-bit number of nanoseconds. -/
def deadline (startNs : Nat) (durationSeconds : Int64) : Int :=
  (startNs + durationSeconds.toInt * 1000000000).bmod (2 ^ 64)

def captureFrom (options : CaptureOptions) (script : Script) (file : Bytes) : Run :=
  let loop := captureLoop J (temporary options.output)
    (deadline script.startNs options.durationSeconds) { now := script.startNs, file := file }
    script.attempts
  let run (outcome : Option (Except String CaptureResult)) : Run :=
    { outcome := outcome
      result := loop.state.result
      file := some loop.state.file
      log := loop.log }
  match loop.exit with
  | .pending => run none
  | .threw what => run (some (.error what))
  | .done => finish options script loop.state loop.log

def namesFile (path : String) : Bool := !path.isEmpty && path.toList.getLast? != some '/'

def captureLive (options : CaptureOptions) (script : Script) : Run :=
  if options.output.isEmpty || options.productIds.isEmpty || options.durationSeconds ≤ 0 then
    threw "capture output, products, and duration are required"
  else if options.productIds.any fun product => product.isEmpty || product.length > 20 then
    threw "product IDs must contain 1 to 20 characters"
  else if !script.curlReady then threw "curl global initialization failed"
  else if !namesFile options.output then threw "output must name a file"
  else if script.destinationExists then threw ("output already exists: " ++ options.output)
  else match script.openError with
    | some error =>
      threw (systemError "cannot create partial output" (temporary options.output) error)
    | none =>
      match J.dump (metadataRecord options) with
      | .error what => { threw what with file := some [] }
      | .ok line =>
        let written := writeLine (temporary options.output) line script.metadataWrites
        match written.error with
        | some what => { threw what with file := some written.accepted }
        | none => captureFrom J options script written.accepted

end BengalMarket.Capture
