import BengalMarket.Capture.Duration
import BengalMarket.Pipeline.Comparison
import BengalMarket.Pipeline.Report

/-! `main`: from the words of the command line to the exit code.  What the commands do is a
parameter; `main` says which of them run, with what, and what is printed. -/

namespace BengalMarket.Cli

inductive Engine
  | bengal
  | standard
  deriving DecidableEq

def Engine.name : Engine → String
  | .bengal => "bengal"
  | .standard => "standard"

structure BenchmarkRequest where
  input : Bytes
  output : Bytes
  executable : Bytes
  runs : UInt64
  warmups : UInt64
  deriving DecidableEq

structure BenchmarkResult where
  output : Bytes
  measuredProcesses : UInt64
  comparable : Bool

structure CaptureRequest where
  output : Bytes
  productIds : List Bytes
  duration : Int64
  endpoint : Bytes
  deriving DecidableEq

inductive Call
  | generate (output : Bytes) (eventCount : UInt64) (productId : Bytes)
  | replay (input : Bytes) (engine : Engine)
  | benchmark (request : BenchmarkRequest)
  | capture (request : CaptureRequest)
  deriving DecidableEq

/-- What the commands answer; an error is the text of an exception.  `executable` is what
`/proc/self/exe` refers to, and a capture comes with the signal that was read after it. -/
structure Operations where
  generateFixture : Bytes → UInt64 → Bytes → Except Bytes Unit
  replay : Bytes → Engine → Except Bytes ReplayReport
  executable : Except Bytes Bytes
  runBenchmark : BenchmarkRequest → Except Bytes BenchmarkResult
  captureLive : Option (CaptureRequest → Except Bytes (Capture.CaptureResult × UInt64))

structure Result where
  calls : List Call := []
  outcome : Except Bytes (Bytes × UInt64)

structure Exit where
  calls : List Call := []
  standardOutput : Bytes := []
  standardError : Bytes := []
  code : UInt64
  deriving DecidableEq

section Texts

variable {Double : Type}

def comparisonValue (bengalVersion : String) (bengal standard : ReplayReport) : Json Double :=
  .object [
    (ascii "bengal", reportValue bengalVersion bengal),
    (ascii "comparable", .bool (reportsComparable bengal standard)),
    (ascii "schema_version", .integer 1),
    (ascii "standard", reportValue bengalVersion standard)]

def benchmarkValue (result : BenchmarkResult) : Json Double := .object [
  (ascii "comparable", .bool result.comparable),
  (ascii "measured_processes", .unsigned result.measuredProcesses),
  (ascii "output", .string result.output)]

def captureValue (result : Capture.CaptureResult) (signal : UInt64) : Json Double := .object [
  (ascii "frames", .unsigned result.frames),
  (ascii "interrupted", .bool (result.interrupted || signal != 0)),
  (ascii "reconnects", .unsigned result.reconnects),
  (ascii "signal", .integer signal.toInt64)]

def usageLines : List String := [
  "Usage:",
  "  bengal-market generate --output FILE [--events N] [--product ID]",
  "  bengal-market replay --input FILE [--engine bengal|standard]",
  "  bengal-market compare --input FILE",
  "  bengal-market benchmark --input FILE --output DIR [--runs N] [--warmup N]",
  "  bengal-market capture --output FILE [--product ID] [--duration SECONDS] [--endpoint URL]"]

def usage : Bytes := usageLines.flatMap fun line => ascii line ++ [0x0A]

end Texts

variable {J : JsonLibrary} (dumpIndented : Nat → J.Value → Except String Bytes)
  (bengalVersion version : String) (operations : Operations)

def printed (text : Except String Bytes) (code : UInt64) : Except Bytes (Bytes × UInt64) :=
  match text with
  | .error what => .error (ascii what)
  | .ok text => .ok (text ++ [0x0A], code)

def comparisonJson (bengal standard : ReplayReport) : Except String Bytes :=
  dumpIndented 2 (comparisonValue bengalVersion bengal standard)

/-- The language leaves it open in which order the arguments of the call are evaluated, and so which
of two exceptions is reported; here it is from left to right. -/
def generate (values : Values) : Result :=
  match (do
    let output ← required values "output"
    let events ← unsignedValue values "events" 10000
    return (output, events) : Except Bytes (Bytes × UInt64)) with
  | .error what => { outcome := .error what }
  | .ok (output, events) =>
    let product := valueOr values "product" (ascii "BTC-USD")
    { calls := [.generate output events product]
      outcome := (operations.generateFixture output events product).map fun () => ([], 0) }

def readEngine (name : Bytes) : Except Bytes Engine :=
  if name = ascii "bengal" then .ok .bengal
  else if name = ascii "standard" then .ok .standard
  else .error (ascii "--engine must be bengal or standard")

def replayCode (report : ReplayReport) : UInt64 :=
  if report.input.parseErrors == 0 && report.dropped == 0 then 0 else 1

def replay (values : Values) : Result :=
  match (do
    let engine ← readEngine (valueOr values "engine" (ascii "bengal"))
    let input ← required values "input"
    return (engine, input) : Except Bytes (Engine × Bytes)) with
  | .error what => { outcome := .error what }
  | .ok (engine, input) =>
    { calls := [.replay input engine]
      outcome := do
        let report ← operations.replay input engine
        printed (reportJson dumpIndented bengalVersion report) (replayCode report) }

def compare (values : Values) : Result :=
  match required values "input" with
  | .error what => { outcome := .error what }
  | .ok input =>
    match operations.replay input .bengal with
    | .error what => { calls := [.replay input .bengal], outcome := .error what }
    | .ok bengal =>
      { calls := [.replay input .bengal, .replay input .standard]
        outcome := do
          let standard ← operations.replay input .standard
          printed (comparisonJson dumpIndented bengalVersion bengal standard)
            (if reportsComparable bengal standard then 0 else 1) }

def benchmark (values : Values) : Result :=
  match (do
    let input ← required values "input"
    let output ← required values "output"
    let executable ← operations.executable
    let runs ← unsignedValue values "runs" 10
    let warmups ← unsignedValue values "warmup" 1
    return { input, output, executable, runs, warmups } : Except Bytes BenchmarkRequest) with
  | .error what => { outcome := .error what }
  | .ok request =>
    { calls := [.benchmark request]
      outcome := do
        let result ← operations.runBenchmark request
        printed (J.dump (benchmarkValue result)) (if result.comparable then 0 else 1) }

def capture (values : Values) : Result :=
  match operations.captureLive with
  | none => { outcome := .error (ascii "live capture was disabled at build time") }
  | some captureLive =>
    match (do
      let output ← required values "output"
      let duration ← Capture.captureDuration values
      return {
        output
        productIds := [valueOr values "product" (ascii "BTC-USD")]
        duration
        endpoint := valueOr values "endpoint" (ascii "wss://advanced-trade-ws.coinbase.com")
        } : Except Bytes CaptureRequest) with
    | .error what => { outcome := .error what }
    | .ok request =>
      { calls := [.capture request]
        outcome := do
          let (result, signal) ← captureLive request
          printed (J.dump (captureValue result signal)) (if signal = 0 then 0 else 128 + signal) }

def command (name : Bytes) : Option (List String × (Values → Result)) :=
  if name = ascii "generate" then some (["output", "events", "product"], generate operations)
  else if name = ascii "replay" then
    some (["input", "engine"], replay dumpIndented bengalVersion operations)
  else if name = ascii "compare" then
    some (["input"], compare dumpIndented bengalVersion operations)
  else if name = ascii "benchmark" then
    some (["input", "output", "runs", "warmup"], benchmark (J := J) operations)
  else if name = ascii "capture" then
    some (["output", "product", "duration", "endpoint"], capture (J := J) operations)
  else none

def thrown (calls : List Call) (what : Bytes) : Exit where
  calls := calls
  standardError := ascii "bengal-market: " ++ what ++ [0x0A]
  code := 2

def Result.exit (result : Result) : Exit :=
  match result.outcome with
  | .error what => thrown result.calls what
  | .ok (text, code) => { calls := result.calls, standardOutput := text, code := code }

def execute (order : Values → Values) (name : Bytes) (values : Values) : Exit :=
  match command dumpIndented bengalVersion operations name with
  | none => { standardError := usage, code := 2 }
  | some (accepted, body) =>
    match rejectUnknown accepted (order values) with
    | .error what => thrown [] what
    | .ok () => (body values).exit

/-- `arguments` is without the name of the program. -/
def main (order : Values → Values) (arguments : List Bytes) : Exit :=
  match arguments with
  | [] => { standardError := usage, code := 2 }
  | name :: rest =>
    if rest = [] ∧ (name = ascii "--help" ∨ name = ascii "-h") then
      { standardOutput := usage, code := 0 }
    else if rest = [] ∧ name = ascii "--version" then
      { standardOutput := ascii ("bengal-market " ++ version) ++ [0x0A], code := 0 }
    else match parseArguments [] rest with
      | .error what => thrown [] what
      | .ok values => execute dumpIndented bengalVersion operations order name values

end BengalMarket.Cli
