import BengalMarket.Capture.Output
import BengalMarket.Library.Directories
import BengalMarket.Library.Json
import BengalMarket.Library.Transition

/-! The file-system steps of `run_benchmark`, for any number of invocations with one output path.
What is written to a file is up to the labels; an exception may end an invocation at any step. -/

namespace BengalMarket.Benchmark

open Directories (Path FileTree)

structure Options where
  runs : Nat := 10
  warmups : Nat := 1

def maximumRuns : Nat := 1000

def maximumWarmups : Nat := 100

inductive Check
  | digest
  | report (engine : String)
  deriving DecidableEq

/-- A child has the last two descriptors that were opened, as standard output and error; an exit
code above `limit` is an exception.  A stream has the last one. -/
inductive Task
  | openFile (path : Path)
  | child (limit : Nat)
  | stream
  | readText (path : Path)
  | check (c : Check)
  | remove (path : Path)
  deriving DecidableEq

def runProcess (standardOutput standardError : Path) (limit : Nat) : List Task :=
  [.openFile standardOutput, .openFile standardError, .child limit]

def sha256 : List Task :=
  runProcess ["sha256.stdout"] ["sha256.stderr"] 0 ++
    [.readText ["sha256.stdout"], .remove ["sha256.stdout"], .remove ["sha256.stderr"],
      .check .digest]

def writeText (path : Path) : List Task := [.openFile path, .stream]

def padded (width value : Nat) : String :=
  let text := toString value
  "".pushn '0' (width - text.length) ++ text

def stem (iteration order : Nat) (engine : String) (measured : Bool) : String :=
  (if measured then "run-" else "warmup-") ++ padded 3 iteration ++ "-order-" ++ padded 2 order ++
    "-" ++ engine

def runReplay (iteration order : Nat) (engine : String) (measured : Bool) : List Task :=
  let base : Path := if measured then ["runs"] else []
  let standardOutput := base ++ [stem iteration order engine measured ++ ".json"]
  let standardError := base ++ [stem iteration order engine measured ++ ".stderr.txt"]
  runProcess standardOutput standardError 1 ++
    [.readText standardOutput, .check (.report engine)] ++
    if measured then [] else [.remove standardOutput, .remove standardError]

def runPair (measured : Bool) (iteration : Nat) : List Task :=
  let bengalFirst := iteration % 2 != 0
  runReplay iteration 1 (if bengalFirst then "bengal" else "standard") measured ++
    runReplay iteration 2 (if bengalFirst then "standard" else "bengal") measured

def Options.tasks (options : Options) : List Task :=
  sha256 ++ sha256 ++ writeText ["fixture.sha256"] ++
    (List.range' 1 options.warmups).flatMap (runPair false) ++
    (List.range' 1 options.runs).flatMap (runPair true) ++
    writeText ["manifest.json"] ++ writeText ["report.html"]

inductive Stage
  | checkingOutput
  | checkingWorking
  | makingWorking
  | makingRuns
  | running (tasks : List Task)
  | published
  | failed
  deriving DecidableEq

/-- A descriptor is a file and an offset.  `directory` is history: what the working path was a name
of when it had been created. -/
structure Instance where
  options : Options
  stage : Stage := .checkingOutput
  descriptors : List (Nat × Nat) := []
  text : Bytes := []
  directory : Option Nat := none

inductive Action
  | proceed
  | write (descriptor : Nat) (data : Bytes)
  | exit (code : Nat)
  | throw
  deriving DecidableEq

inductive Effect
  | opened (file : Nat)
  | wrote (file : Nat) (data : Bytes)
  | published (directory : Nat)
  deriving DecidableEq

structure Move where
  tree : FileTree String
  after : Instance
  effects : List Effect := []

def working (output : String) : String := output ++ ".part"

theorem working_ne (output : String) : working output ≠ output := Capture.temporary_ne output

def Instance.invoked (options : Options) : Instance where
  options := options
  stage :=
    if options.runs = 0 || maximumRuns < options.runs then .failed
    else if maximumWarmups < options.warmups then .failed
    else .checkingOutput

def Instance.fail (inst : Instance) : Instance := { inst with stage := .failed, descriptors := [] }

def isDigestByte (byte : UInt8) : Bool := (48 ≤ byte && byte ≤ 57) || (97 ≤ byte && byte ≤ 102)

def validDigest (text : Bytes) : Bool := 64 ≤ text.length && (text.take 64).all isDigestByte

section

variable (J : JsonLibrary) (output : String) (tree : FileTree String)

def parseReport (text : Bytes) (engine : String) : Option J.Value := do
  let report ← J.parse text
  let version ← report.at? (ascii "schema_version")
  let name ← report.at? (ascii "engine")
  if J.equals 1 version && name.string? == some (ascii engine) then some report else none

def Check.passes (text : Bytes) : Check → Bool
  | .digest => validDigest text
  | .report engine => (parseReport J text engine).isSome

def Instance.goOn (inst : Instance) (result : Option (FileTree String)) (stage : Stage) : Move :=
  match result with
  | none => { tree, after := inst.fail }
  | some tree => { tree, after := { inst with stage := stage } }

def perform (inst : Instance) (rest : List Task) : Task → Option Move
  | .openFile path => some <|
    match tree.openFile (working output) path with
    | none => { tree, after := inst.fail }
    | some (file, tree) =>
      { tree
        after := { inst with
          stage := .running rest, descriptors := inst.descriptors ++ [(file, 0)] }
        effects := [.opened file] }
  | .child _ => none
  | .stream => some { tree, after := { inst with stage := .running rest, descriptors := [] } }
  | .readText path => some
    { tree
      after := match tree.readFile (working output) path with
        | none => inst.fail
        | some text => { inst with stage := .running rest, text := text } }
  | .check c => some
    { tree
      after := if c.passes J inst.text then { inst with stage := .running rest } else inst.fail }
  | .remove path =>
    some (inst.goOn tree (tree.removeFile (working output) path) (.running rest))

def proceed (inst : Instance) : Option Move :=
  match inst.stage with
  | .checkingOutput => some
    { tree
      after := if (tree.entry output).isSome then inst.fail
        else { inst with stage := .checkingWorking } }
  | .checkingWorking => some
    { tree
      after := if (tree.entry (working output)).isSome then inst.fail
        else { inst with stage := .makingWorking } }
  | .makingWorking => some <|
    match tree.createDirectory (working output) with
    | none => { tree, after := inst.fail }
    | some (number, tree) =>
      { tree, after := { inst with stage := .makingRuns, directory := some number } }
  | .makingRuns =>
    some (inst.goOn tree (tree.createBelow (working output) ["runs"])
      (.running inst.options.tasks))
  | .running (task :: rest) => perform J output tree inst rest task
  | .running [] => some <|
    match tree.rename (working output) output with
    | none => { tree, after := inst.fail }
    | some after =>
      { tree := after
        after := { inst with stage := .published }
        effects := match tree.entry (working output) with
          | some (.directory number) => [.published number]
          | _ => [] }
  | .published | .failed => none

def write (inst : Instance) (descriptor : Nat) (data : Bytes) : Option Move :=
  inst.descriptors[descriptor]?.map fun (file, offset) =>
    { tree := tree.write file offset data
      after := { inst with
        descriptors := inst.descriptors.set descriptor (file, offset + data.length) }
      effects := [.wrote file data] }

def move (inst : Instance) : Action → Option Move
  | .proceed => proceed J output tree inst
  | .write descriptor data =>
    match inst.stage with
    | .running (.child _ :: _) | .running (.stream :: _) => write tree inst descriptor data
    | _ => none
  | .exit code =>
    match inst.stage with
    | .running (.child limit :: rest) => some
      { tree
        after := if limit < code then inst.fail
          else { inst with stage := .running rest, descriptors := [] } }
    | _ => none
  | .throw =>
    match inst.stage with
    | .published | .failed => none
    | _ => some { tree, after := inst.fail }

end

structure System (ι : Type) where
  tree : FileTree String
  instances : ι → Instance
  log : List (ι × Effect) := []

variable {ι : Type} [DecidableEq ι]

def System.start (options : ι → Options) (tree : FileTree String) : System ι where
  tree := tree
  instances i := .invoked (options i)

def step (J : JsonLibrary) (output : String) (s : System ι) : ι × Action → Option (System ι)
  | (i, a) => (move J output s.tree (s.instances i) a).map fun m =>
    { tree := m.tree
      instances := Function.update s.instances i m.after
      log := s.log ++ m.effects.map fun effect => (i, effect) }

end BengalMarket.Benchmark
