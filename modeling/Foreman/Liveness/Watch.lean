import Foreman.Liveness.Monitor
import Foreman.Liveness.Prober

/-!
# Watching workers on a clock

A watch is a monitor and its prober on a virtual clock. How workers answer pings is a script: the
fate of a ping to each worker, which can be changed between steps; a worker without one refuses at
once. Time passes only in steps that wait, and everything that is due on the way happens in its
time, what is due at the end included.
-/

namespace Foreman

structure Watch where
  now : Time := 0
  interval : Time
  monitor : Monitor
  prober : Prober
  script : Std.ExtTreeMap Address PingFate := ∅

namespace Watch

def start (workers : List Address) (interval timeout : Time) : Watch :=
  { interval, monitor := .ofWorkers workers, prober := { timeout } }

def fate (w : Watch) (worker : Address) : PingFate :=
  w.script.getD worker (.fails 0)

def setPing (w : Watch) (worker : Address) (fate : PingFate) : Watch :=
  { w with script := w.script.insert worker fate }

def pings (w : Watch) (workers : List Address) : List (Address × PingFate) :=
  workers.map fun worker => (worker, w.fate worker)

def catchUp (w : Watch) : Watch :=
  let (prober, monitor) := w.prober.catchUp w.now
    (fun m flight => m.note w.now flight.worker flight.answered)
    (fun m => w.pings m.workers) w.monitor
  { w with prober, monitor }

def advanceSteps (limit : Time) : Nat → Watch → Watch
  | 0, w => w.catchUp
  | steps + 1, w =>
    let w := w.catchUp
    if limit ≤ w.now then w
    else
      let next := max (w.now + 1) (w.prober.nextDue.getD limit)
      advanceSteps limit steps { w with now := min limit next }

/-- Lets time pass until the given moment; every move of the clock is one millisecond or more. -/
def advanceTo (w : Watch) (limit : Time) : Watch :=
  advanceSteps limit (limit - w.now) w

def advance (w : Watch) (ms : Time) : Watch :=
  w.advanceTo (w.now + ms)

def probeEach (w : Watch) (workers : List Address) : Watch :=
  let (source, prober) := w.prober.freshSource
  let pings := w.pings workers
  { w with prober := prober.launch w.now source pings }.advanceTo (prober.roundEnd w.now pings)

def probeOne (w : Watch) (worker : Address) : Health × Watch :=
  (.ofProbe ((w.fate worker).answered w.prober.timeout), w.probeEach [worker])

def probeKnown (w : Watch) : Watch :=
  w.probeEach w.monitor.workers

/-- Starts the probe loop, and names its source. A loop without an interval ends by itself at once:
then there is no source. -/
def startLoop (w : Watch) : Option Nat × Watch :=
  let (source, prober) := w.prober.startLoop w.now w.interval
  (source, { w with prober })

def stopLoop (w : Watch) (source : Nat) : Watch :=
  { w with prober := w.prober.stop source }

/-- Starts the probe loop, waits, and stops it. Answers whether the loop ended by itself. -/
def runLoop (w : Watch) (ms : Time) : Bool × Watch :=
  match w.startLoop with
  | (some source, w) => (false, (w.advance ms).stopLoop source)
  | (none, w) => (true, w.advance ms)

def clearLog (w : Watch) : Watch :=
  { w with monitor := { w.monitor with log := [] } }

end Watch
end Foreman
