import Foreman.Simulation

/-!
# A cluster in memory

The workers of a cluster follow behaviours, which can be changed at any time, and serve splits from
memory. The cluster remembers which worker began and finished which kind of task. A worker without a
behaviour cannot be reached.
-/

namespace Foreman

inductive Behaviour
  /-- Answers everything at once. -/
  | healthy
  /-- Answers pings at once and tasks after a delay. -/
  | slow (delay : Time)
  /-- Answers pings, and never a task. -/
  | hang
  /-- Answers nothing. -/
  | silent
  /-- Refuses connections. -/
  | unreachable
  /-- Answers pings and fails every task. -/
  | failing
deriving DecidableEq, Repr

inductive ClusterEvent
  | started (worker : Address) (kind : Kind)
  | finished (worker : Address) (kind : Kind) (input : String)
deriving DecidableEq, Repr

structure Cluster where
  behaviours : Std.ExtTreeMap Address Behaviour := ∅
  splits : Std.ExtTreeMap String String := ∅
  /-- What has happened, the latest first. -/
  events : List ClusterEvent := []

namespace Cluster

def address (n : Nat) : Address :=
  .loopback (BitVec.ofNat 16 (10000 + n))

def setBehaviour (c : Cluster) (worker : Address) (b : Behaviour) : Cluster :=
  { c with behaviours := c.behaviours.insert worker b }

def serveSplit (c : Cluster) (name text : String) : Cluster :=
  { c with splits := c.splits.insert name text }

def behaviour (c : Cluster) (worker : Address) : Behaviour :=
  c.behaviours.getD worker .unreachable

def handed (c : Cluster) (kind : Kind) : List Address :=
  c.events.reverse.filterMap fun
    | .started worker k => if k = kind then some worker else none
    | .finished .. => none

def pingFate (c : Cluster) (worker : Address) : PingFate :=
  match c.behaviour worker with
  | .unreachable => .fails 0
  | .silent => .silent
  | _ => .answers 0

/-- Begins a task. A worker that cannot be reached refuses before it has started. -/
def beginTask (c : Cluster) (worker : Address) (request : Request) : Cluster × Fate :=
  let started := { c with events := .started worker request.kind :: c.events }
  match c.behaviour worker with
  | .unreachable => (c, .returns 0 (.error (.refused worker)))
  | .hang | .silent => (started, .hangs)
  | .slow delay => (started, .decides delay)
  | .healthy | .failing => (started, .decides 0)

/-- Ends a task. Whether it fails is decided by the behaviour at the end. -/
def endTask (c : Cluster) (worker : Address) (request : Request) : Cluster × Outcome :=
  if c.behaviour worker = .failing then
    (c, .error (.task (.unknownFunction "scripted failure")))
  else match request.perform .standard (c.splits.get? ·) with
    | .error e => (c, .error (.task e))
    | .ok output =>
      let input := match request, output with
        | .map path _, _ => path
        | .reduce .., .value text => text
        | .reduce .., .records _ => ""
      ({ c with events := .finished worker request.kind input :: c.events }, .ok output)

def transport : Transport Cluster where
  pingFate := fun c _ worker => c.pingFate worker
  callFate := beginTask
  outcome := endTask

end Cluster

namespace Simulation

def directTimeout : Time := 1000

/-- Calls a worker of the cluster directly, not through the coordinator. Answers the outcome, or
`none` if there is none in time; then the call is given up. -/
def callDirectly (s : Simulation Cluster) (worker : Address) (request : Request) :
    Option Outcome × Simulation Cluster :=
  let (world, fate) := s.world.beginTask worker request
  let s := { s with world }
  match fate with
  | .returns after outcome =>
    if after ≤ directTimeout then (some outcome, s.advance after)
    else (none, s.advance directTimeout)
  | .decides after =>
    if after ≤ directTimeout then
      let s := s.advance after
      let (world, outcome) := s.world.endTask worker request
      (some outcome, { s with world })
    else (none, s.advance directTimeout)
  | .hangs => (none, s.advance directTimeout)

def pingDirectly (s : Simulation Cluster) (worker : Address) :
    Option (Except CallError Unit) × Simulation Cluster :=
  let s := { s with prober := s.prober.countPing worker }
  match s.world.pingFate worker with
  | .silent => (none, s.advance directTimeout)
  | .answers after => (some (.ok ()), s.advance after)
  | .fails after => (some (.error (.refused worker)), s.advance after)

end Simulation
end Foreman
