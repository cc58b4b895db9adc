import Foreman.Simulation.Transport

/-!
# Scripted workers

A script says beforehand how every worker answers. A worker's pings follow the behaviour that is in
force when they are sent; its calls follow its list of replies, the last of which is repeated. A
reply can also be given by hand to a call that is open.
-/

namespace Foreman

inductive Reply
  /-- It carries the task out. -/
  | perform
  | output (o : Output)
  | taskError (e : TaskError)
  | transport (reason : String)
  /-- The activity that makes the call breaks down. -/
  | crash

namespace Reply

def outcome (contents : String → Option String) (worker : Address) (request : Request) :
    Reply → Outcome
  | .perform => (request.perform .standard contents).mapError .task
  | .output o => .ok o
  | .taskError e => .error (.task e)
  | .transport reason => .error (.transport worker reason)
  | .crash => .error (.transport worker "task N panicked with message \"scripted crash\"")

end Reply

/-- How a worker answers pings from a moment on. -/
structure PingRule where
  since : Time
  fate : PingFate

/-- A scripted call: a reply after a while, or none. -/
structure CallRule where
  after : Time
  reply : Option Reply

structure WorkerScript where
  worker : Address
  pings : List PingRule
  calls : List CallRule

structure Script where
  workers : List WorkerScript
  contents : Std.ExtTreeMap String String
  calls : Std.ExtTreeMap Address Nat := ∅

namespace Script

def worker? (s : Script) (worker : Address) : Option WorkerScript :=
  s.workers.find? (·.worker = worker)

/-- The last rule that is in force decides; a worker without one refuses at once. -/
def pingFate (s : Script) (now : Time) (worker : Address) : PingFate :=
  let rules := ((s.worker? worker).map WorkerScript.pings).getD []
  match (rules.filter (·.since ≤ now)).getLast? with
  | some rule => rule.fate
  | none => .fails 0

def callRule? (s : Script) (worker : Address) (n : Nat) : Option CallRule :=
  (s.worker? worker).bind fun w => (w.calls[n]?).or w.calls.getLast?

/-- Begins a call; a worker without rules never answers. -/
def callFate (s : Script) (worker : Address) (request : Request) : Script × Fate :=
  let n := s.calls.getD worker 0
  let fate := match s.callRule? worker n with
    | some ⟨after, some reply⟩ =>
      .returns after (reply.outcome (s.contents.get? ·) worker request)
    | _ => .hangs
  ({ s with calls := s.calls.insert worker (n + 1) }, fate)

/-- Scripted workers as a transport; every outcome is known when the call begins. -/
def transport : Transport Script where
  pingFate := pingFate
  callFate := callFate
  outcome := fun s worker request =>
    (s, Reply.outcome (s.contents.get? ·) worker request .perform)

end Script

/-- Workers whose calls are answered by hand, and whose pings are set by hand. -/
abbrev ManualScript := Std.ExtTreeMap Address PingFate

namespace ManualScript

/-- Every call hangs until it is answered; a worker without a rule refuses pings at once. -/
def transport : Transport ManualScript where
  pingFate := fun s _ worker => s.getD worker (.fails 0)
  callFate := fun s _ _ => (s, .hangs)
  outcome := fun s worker _ => (s, .error (.refused worker))

end ManualScript
end Foreman
