import Foreman.Task

/-!
# Probes on the clock

A probe sends a ping to a worker and waits for the answer, at most for the probe timeout. Many
probes can be under way at once. A probe loop probes all known workers in rounds: a tick is due
every interval, a round begins with a tick, and a tick that falls into a round waits for its end; if
several have been missed, they follow one another at once.
-/

namespace Foreman

inductive PingFate
  | answers (after : Time)
  | fails (after : Time)
  | silent
deriving DecidableEq, Repr

namespace PingFate

def duration (timeout : Time) : PingFate → Time
  | .answers after => min after timeout
  | .fails after => min after timeout
  | .silent => timeout

/-- Whether the worker answers in time; an answer at the very end of the timeout still counts. -/
def answered (timeout : Time) : PingFate → Bool
  | .answers after => after ≤ timeout
  | _ => false

end PingFate

/-- A probe under way: when it ends and what its outcome will be. The source names the activity that
waits for it. -/
structure Flight where
  worker : Address
  ends : Time
  answered : Bool
  source : Nat
deriving DecidableEq, Repr

/-- A probe loop: when its next tick is due, and when its next round begins. -/
structure ProbeLoop where
  source : Nat
  interval : Time
  tick : Time
  next : Time
deriving DecidableEq, Repr

/-- All probes and probe loops, the number of pings that each worker was sent, and the number of
sources that have been named. -/
structure Prober where
  timeout : Time
  flights : List Flight := []
  loops : List ProbeLoop := []
  pings : Std.ExtTreeMap Address Nat := ∅
  sources : Nat := 0

namespace Prober

def countPing (p : Prober) (worker : Address) : Prober :=
  { p with pings := p.pings.insert worker (p.pings.getD worker 0 + 1) }

def pingCount (p : Prober) (worker : Address) : Nat :=
  p.pings.getD worker 0

def flight (p : Prober) (now : Time) (source : Nat) (worker : Address) (fate : PingFate) : Flight :=
  ⟨worker, now + fate.duration p.timeout, fate.answered p.timeout, source⟩

def launch (p : Prober) (now : Time) (source : Nat) (pings : List (Address × PingFate)) : Prober :=
  pings.foldl (fun p (worker, fate) =>
    { p.countPing worker with flights := p.flights ++ [p.flight now source worker fate] }) p

def roundEnd (p : Prober) (now : Time) (pings : List (Address × PingFate)) : Time :=
  pings.foldl (fun t (_, fate) => max t (now + fate.duration p.timeout)) now

def freshSource (p : Prober) : Nat × Prober :=
  (p.sources, { p with sources := p.sources + 1 })

/-- Starts a probe loop, whose first tick is due at once. A loop without an interval is not started. -/
def startLoop (p : Prober) (now : Time) (interval : Time) : Option Nat × Prober :=
  if interval = 0 then (none, p)
  else
    let (source, p) := p.freshSource
    (some source, { p with loops := p.loops ++ [⟨source, interval, now, now⟩] })

/-- Stops whatever a source does: its loop ends, and its probes are given up without an outcome. -/
def stop (p : Prober) (source : Nat) : Prober :=
  { p with
    flights := p.flights.filter (·.source ≠ source)
    loops := p.loops.filter (·.source ≠ source) }

def isWaiting (p : Prober) (source : Nat) : Bool :=
  p.flights.any (·.source = source)

/-- Begins a round of a loop. Its next round begins with its next tick, or with the end of this one
if that is later. -/
def beginRound (p : Prober) (now : Time) (loop : ProbeLoop) (pings : List (Address × PingFate)) :
    Prober :=
  let tick := loop.tick + loop.interval
  let next := max tick (p.roundEnd now pings)
  let p := p.launch now loop.source pings
  { p with loops := p.loops.map fun l =>
      if l.source = loop.source then { l with tick, next } else l }

def nextDue (p : Prober) : Option Time :=
  (p.flights.map Flight.ends ++ p.loops.map ProbeLoop.next).min?

/-- Does what is due now: the outcomes of the probes that end are recorded in some state `s`, and
rounds begin with pings to the workers that this state knows. Rounds in which nothing has to be
waited for can follow one another, as many as there are missed ticks. -/
def catchUpRounds {σ : Type} (now : Time) (record : σ → Flight → σ)
    (pings : σ → List (Address × PingFate)) : Nat → Prober → σ → Prober × σ
  | 0, p, s => (p, s)
  | rounds + 1, p, s =>
    -- Outcomes come first, so a round begins with what the round before has found out.
    let s := (p.flights.filter (·.ends ≤ now)).foldl record s
    let p := { p with flights := p.flights.filter (now < ·.ends) }
    match p.loops.find? (·.next ≤ now) with
    | none => (p, s)
    | some loop => catchUpRounds now record pings rounds (p.beginRound now loop (pings s)) s

/-- One more than the number of ticks that can be due by now. -/
def ticksDue (p : Prober) (now : Time) : Nat :=
  (p.loops.map fun l => now + 1 - l.tick).foldr (· + ·) 1

def catchUp {σ : Type} (p : Prober) (now : Time) (record : σ → Flight → σ)
    (pings : σ → List (Address × PingFate)) (s : σ) : Prober × σ :=
  catchUpRounds now record pings (p.ticksDue now) p s

end Prober
end Foreman
