import Foreman.CommandLine.Arguments
import Foreman.Net.Address.Reader
import Foreman.Simulation.Cluster
import Foreman.Splits

/-!
# The two programs

The coordinator program runs one job: its workers, its functions and its inputs are arguments, its
timing comes from the environment. The worker program serves at one address. Both are functions
here, from what they are given to how they end.

The coordinator program has its workers in the same process: each of them answers at once and reads
the splits that the file system holds.
-/

namespace Foreman.CommandLine

inductive Exit
  | usage
  | help
  | failed (reason : Failure)
  /-- The job did not end in the time that it was given. -/
  | stalled
  | finished (results : Results)

namespace Exit

def code : Exit → Nat
  | .usage => 2
  | .help => 0
  | .failed (.error _) => 1
  | .failed (.fault _) => 101
  | .stalled => 1
  | .finished _ => 0

def stdout : Exit → List String
  | .finished results =>
    results.toList.map fun (n, text) => s!"[Reduce] Partition #{n}: {text}"
  | _ => []

def stderr : Exit → List String
  | .failed (.error e) => ["Error: " ++ e.message]
  | .failed (.fault f) => [f.message]
  | .stalled => ["Error: " ++ Error.aborted.message]
  | _ => []

def files : Exit → List (String × String)
  | .finished results => results.toList.map fun (n, text) => (s!"mr-out-{n}.txt", text)
  | _ => []

end Exit

/-! ## 1. The coordinator program -/

structure JobArguments where
  workers : List Address
  reduceCount : Nat
  mapFunction : String
  reduceFunction : String
  dispatchTimeout : Option Time
  /-- The directory to which the results are written. -/
  output : Option String
  inputs : List String
deriving Repr

namespace JobArguments

def isNumber (s : String) : Bool :=
  (Text.Numeral.unsigned? 64 s).isSome

def isNonempty (s : String) : Bool :=
  s ≠ ""

def spec : Spec where
  options := [
    { name := "worker", short := some 'w', repeatable := true,
      accepts := fun s => (Address.ofText? s).isSome },
    { name := "reduce-tasks", short := some 'r', accepts := isNumber },
    { name := "map-function", accepts := fun _ => true },
    { name := "reduce-function", accepts := fun _ => true },
    { name := "dispatch-timeout-ms", accepts := isNumber },
    { name := "output", short := some 'o', accepts := isNonempty }]
  acceptsOperand := isNonempty

/-- Reads the arguments. There is one worker and one input at least. -/
def read (args : List String) : Except Refusal JobArguments :=
  match Arguments.read spec args with
  | .error r => .error r
  | .ok a =>
    let workers := (a.all "worker").filterMap Address.ofText?
    if workers.isEmpty || a.operands.isEmpty then .error .usage
    else
      let number (name : String) : Option Nat := (a.get? name).bind (Text.Numeral.unsigned? 64)
      .ok { workers
            reduceCount := (number "reduce-tasks").getD 10
            mapFunction := (a.get? "map-function").getD "word_count"
            reduceFunction := (a.get? "reduce-function").getD "sum"
            dispatchTimeout := number "dispatch-timeout-ms"
            output := a.get? "output"
            inputs := a.operands }

/-- The configuration: the environment, unless an argument overrides it. -/
def config (a : JobArguments) (environment : String → Option String) : Config :=
  let config := Config.ofEnvironment environment
  { config with dispatchTimeout := a.dispatchTimeout.getD config.dispatchTimeout }

/-- The job: first the inputs are collected, then the job is checked. -/
def job? (a : JobArguments) (fs : FileSystem) : Except Error Job :=
  match Splits.ofInputs fs (a.inputs.map .ofText) with
  | .error e => .error (.file e)
  | .ok splits => Job.make? splits a.mapFunction a.reduceFunction a.reduceCount

end JobArguments

/-- A cluster of healthy workers that serve the splits of a job from the file system; a split that
cannot be read is not served. -/
def localCluster (fs : FileSystem) (workers : List Address) (splits : List String) : Cluster :=
  { behaviours := workers.foldl (fun m w => m.insert w .healthy) ∅
    splits := splits.foldl (fun m path =>
      match fs.readText (.ofText path) with
      | .ok text => m.insert path text
      | .error _ => m) ∅ }

/-- How much time a job may take, on the clock of its cluster. -/
def jobLimit : Time := 600000

def coordinate (args : List String) (environment : String → Option String) (fs : FileSystem) :
    Exit :=
  match JobArguments.read args with
  | .error .usage => .usage
  | .error .help => .help
  | .ok a => match a.job? fs with
    | .error e => .failed (.error e)
    | .ok job => match Coordinator.create? job a.workers (a.config environment) with
      | .error reason => .failed reason
      | .ok c =>
        let cluster := localCluster fs a.workers job.splits
        match ((Simulation.start Cluster.transport cluster c).runFor jobLimit).1 with
        | some (.done results, _) => .finished results
        | some (.failed reason, _) => .failed reason
        | none => .stalled

/-! ## 2. The worker program -/

namespace WorkerArguments

def defaultAddress : Address :=
  .loopback 1030

def spec : Spec where
  options := [
    { name := "listen", short := some 'l', accepts := fun s => (Address.ofText? s).isSome }]
  acceptsOperand := fun _ => false

def read (args : List String) : Except Refusal Address :=
  (Arguments.read spec args).map fun a =>
    ((a.get? "listen").bind Address.ofText?).getD defaultAddress

end WorkerArguments

/-- The worker program: where it serves until it is interrupted, or the code with which it ends. The
system may still refuse it the address. -/
def serve (args : List String) : Except Nat Address :=
  match WorkerArguments.read args with
  | .error .usage => .error 2
  | .error .help => .error 0
  | .ok a => .ok a

end Foreman.CommandLine
