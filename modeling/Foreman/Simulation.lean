import Foreman.Coordinator
import Foreman.Simulation.Transport

/-!
# Simulation: a coordinator at work on a virtual clock

A simulation joins a coordinator, the probes that it makes, and a transport that plays the workers.
Time passes only in steps that wait. At every moment all that is due happens: calls begin, probes
end, deadlines pass, calls return, and, while a run is on, scheduling passes are made. Whatever
happens to the coordinator happens through its own operations.

A run of the coordinator begins with one probe of every worker. Then a probe loop runs beside the
scheduling passes, of which one is made at once, one at every tick of the scheduling interval, and
one whenever the coordinator has been woken. A run ends when the job is done.
-/

namespace Foreman

/-- A call that will return: when, and with what, unless that is decided then. -/
structure Return where
  call : Nat
  time : Time
  outcome : Option Outcome

inductive RunEnd
  | done (results : Results)
  | failed (reason : Failure)

/-- How far a run has come. A source names its probes. -/
inductive RunStage
  | probing (source : Nat)
  | scheduling (loop : Option Nat) (tick : Time)
  | ended (result : RunEnd) (time : Time)

structure Simulation (σ : Type) where
  transport : Transport σ
  world : σ
  coordinator : Coordinator
  prober : Prober
  /-- How many calls of the coordinator have begun. -/
  begun : Nat := 0
  returns : List Return := []
  run : Option RunStage := none

namespace Simulation

variable {σ : Type}

def start (transport : Transport σ) (world : σ) (c : Coordinator) : Simulation σ :=
  { transport, world, coordinator := c, prober := { timeout := c.config.probeTimeout } }

def now (s : Simulation σ) : Time :=
  s.coordinator.now

def happen (s : Simulation σ) (e : Event) : Simulation σ :=
  { s with coordinator := s.coordinator.handle e }

/-! ## 1. What is due at one moment -/

def beginCalls (s : Simulation σ) : Simulation σ :=
  let fresh := (s.coordinator.calls.drop s.begun).zipIdx s.begun
  fresh.foldl (fun s (call, n) =>
    let (world, fate) := s.transport.callFate s.world call.worker call.request
    let returns := match fate with
      | .hangs => []
      | .returns after outcome => [⟨n, s.now + after, some outcome⟩]
      | .decides after => [⟨n, s.now + after, none⟩]
    { s with world, begun := n + 1, returns := s.returns ++ returns }) s

def pings (s : Simulation σ) (workers : List Address) : List (Address × PingFate) :=
  workers.map fun worker => (worker, s.transport.pingFate s.world s.now worker)

def catchUpProbes (s : Simulation σ) : Simulation σ :=
  let (prober, coordinator) := s.prober.catchUp s.now
    (fun c flight => c.handle (.probed flight.worker flight.answered))
    (fun c => s.pings c.monitor.workers) s.coordinator
  { s with prober, coordinator }

def finishCall (s : Simulation σ) (r : Return) : Simulation σ :=
  match r.outcome with
  | some outcome => s.happen (.answer r.call outcome)
  | none => match s.coordinator.calls[r.call]? with
    | none => s
    | some call =>
      let (world, outcome) := s.transport.outcome s.world call.worker call.request
      { s with world }.happen (.answer r.call outcome)

/-- Lets the calls return whose time has come, in the order in which they were made. -/
def finishCalls (s : Simulation σ) : Simulation σ :=
  let due := s.returns.filter (·.time ≤ s.now)
  due.foldl finishCall { s with returns := s.returns.filter (s.now < ·.time) }

/-! ## 2. The run -/

/-- Ends the run. Its probe loop is stopped, unless the run crashed: then nobody stops it. -/
def endRun (s : Simulation σ) (loop : Option Nat) (result : RunEnd) : Simulation σ :=
  let prober := match result, loop with
    | .failed (.fault _), _ | _, none => s.prober
    | _, some source => s.prober.stop source
  { s with prober, run := some (.ended result s.now) }

/-- Makes one scheduling pass. It ends the run if the job is done, or if the scheduling state is
inconsistent. -/
def pass (s : Simulation σ) (loop : Option Nat) (tick : Time) : Simulation σ :=
  let s := s.happen .attend
  match s.coordinator.ledger.fatal, s.coordinator.phase.kind with
  | some e, _ => s.endRun loop (.failed (.error e))
  | none, none => match s.coordinator.results? with
    | some results => s.endRun loop (.done results)
    | none => s.endRun loop (.failed (.error .aborted))
  | none, some kind => match s.coordinator.dispatchPass kind with
    | .error e => s.endRun loop (.failed (.error e))
    | .ok (_, coordinator) => { s with coordinator, run := some (.scheduling loop tick) }

/-- Begins to schedule once the first probes are over. A timer without a period is a fault. -/
def startScheduling (s : Simulation σ) : Simulation σ :=
  let (loop, prober) := s.prober.startLoop s.now s.coordinator.config.probeInterval
  let s := { s with prober }
  -- The first tick is due at once and falls together with the first pass.
  if s.coordinator.config.scheduleInterval = 0 then s.endRun loop (.failed (.fault .zeroPeriod))
  else s.pass loop (s.now + s.coordinator.config.scheduleInterval)

def stepRun (s : Simulation σ) : Simulation σ :=
  match s.run with
  | some (.probing source) => if s.prober.isWaiting source then s else s.startScheduling
  | some (.scheduling loop tick) =>
    if tick ≤ s.now then s.pass loop (s.now + s.coordinator.config.scheduleInterval)
    else if s.coordinator.woken then s.pass loop tick
    else s
  | _ => s

def runEnded (s : Simulation σ) : Bool :=
  match s.run with
  | some (.ended ..) => true
  | _ => false

/-! ## 3. The clock -/

def nextDue (s : Simulation σ) : Option Time :=
  let deadlines := (s.coordinator.calls.filter Call.isWatched).map Call.deadline
  let ticks := match s.run with
    | some (.scheduling _ tick) => [tick]
    | _ => []
  (s.prober.nextDue.toList ++ deadlines ++ s.returns.map Return.time ++ ticks).min?

def sweep (s : Simulation σ) : Simulation σ :=
  -- Deadlines come before returns: a call whose deadline has come is overdue.
  (s.beginCalls.catchUpProbes.happen (.elapse 0)).finishCalls.stepRun

def isDue (s : Simulation σ) : Bool :=
  s.begun < s.coordinator.calls.length || s.nextDue.any (· ≤ s.now)

/-- Does all that is due now, what becomes due by it included, in at most so many sweeps. -/
def catchUpSweeps : Nat → Simulation σ → Simulation σ
  | 0, s => s
  | sweeps + 1, s =>
    let s := s.sweep
    if s.isDue then catchUpSweeps sweeps s else s

/-- Does all that is due now. Every sweep but the first and the last completes a task or holds one
back, so there is a sweep for each of these, and some more. -/
def catchUp (s : Simulation σ) : Simulation σ :=
  let tasks := s.coordinator.job.splits.length + s.coordinator.job.reduceCount
  s.catchUpSweeps (2 * tasks + s.returns.length + 4)

/-- Moves the clock forward, at most `steps` times, and does what is due on the way; stops early
once the run has ended. -/
def advanceSteps (limit : Time) : Nat → Simulation σ → Simulation σ
  | 0, s => s.catchUp
  | steps + 1, s =>
    let s := s.catchUp
    if s.runEnded || limit ≤ s.now then s
    else
      let next := min limit (max (s.now + 1) (s.nextDue.getD limit))
      advanceSteps limit steps (s.happen (.elapse (next - s.now)))

/-- Lets time pass until the given moment, or until the run ends; every move of the clock is one
millisecond or more. -/
def advanceTo (s : Simulation σ) (limit : Time) : Simulation σ :=
  s.advanceSteps limit (limit - s.now)

def advance (s : Simulation σ) (ms : Time) : Simulation σ :=
  s.advanceTo (s.now + ms)

/-! ## 4. Operations that wait -/

def probeEach (s : Simulation σ) (workers : List Address) : Simulation σ :=
  let (source, prober) := s.prober.freshSource
  let pings := s.pings workers
  { s with prober := prober.launch s.now source pings }.advanceTo (prober.roundEnd s.now pings)

def probeOne (s : Simulation σ) (worker : Address) : Health × Simulation σ :=
  let fate := s.transport.pingFate s.world s.now worker
  (.ofProbe (fate.answered s.prober.timeout), s.probeEach [worker])

def probeKnown (s : Simulation σ) : Simulation σ :=
  s.probeEach s.coordinator.monitor.workers

def dispatchOne (s : Simulation σ) (kind : Kind) : Except Error (Option TaskId × Simulation σ) :=
  match s.coordinator.dispatchOne kind with
  | .error e => .error e
  | .ok (id, c) => .ok (id, { s with coordinator := c }.catchUp)

def dispatchPass (s : Simulation σ) (kind : Kind) : Except Error (List TaskId × Simulation σ) :=
  match s.coordinator.dispatchPass kind with
  | .error e => .error e
  | .ok (ids, c) => .ok (ids, { s with coordinator := c }.catchUp)

/-- Gives a run up. Its probe loop goes on; probes before it has begun are given up too. -/
def dropRun (s : Simulation σ) : Simulation σ :=
  match s.run with
  | some (.probing source) => { s with prober := s.prober.stop source, run := none }
  | _ => { s with run := none }

/-- Runs the coordinator for at most so long. Answers how and when the run ended, if it did. -/
def runFor (s : Simulation σ) (limit : Time) : Option (RunEnd × Time) × Simulation σ :=
  let (source, prober) := s.prober.freshSource
  let s := { s with
    prober := prober.launch s.now source (s.pings s.coordinator.monitor.workers)
    run := some (.probing source) }
  let s := s.advance limit
  match s.run with
  | some (.ended result time) => (some (result, time), { s with run := none }.catchUp)
  | _ => (none, s.dropRun)

end Simulation
end Foreman
