import Foreman.Ledger
import Foreman.Liveness.Monitor

/-!
# Coordinators

A coordinator hands the tasks of one job to workers. It is a state that events change: a dispatch
makes a call, a call returns, a probe ends, time passes. Nothing else can happen to it, so whatever
it has gone through is a list of events (`Coordinator.after`).
-/

namespace Foreman

structure Coordinator where
  job : Job
  config : Config
  ledger : Ledger
  monitor : Monitor
  now : Time := 0
  /-- All calls ever made, in order; a call is known by its number. -/
  calls : List Call := []
  /-- The phase that subscribers see. -/
  published : Phase
  /-- Whether something has happened that asks for a scheduling pass. -/
  woken : Bool := false
  /-- The notices given so far, the latest first; those of the monitor are its own. -/
  log : List Notice := []

inductive Event
  | dispatch (kind : Kind)
  /-- The call of that number returns. -/
  | answer (call : Nat) (outcome : Outcome)
  | probed (worker : Address) (answered : Bool)
  /-- Time passes, and every deadline that is reached takes effect. -/
  | elapse (ms : Time)
  /-- A scheduling pass begins; nothing asks for one any more. -/
  | attend

namespace Coordinator

/-! ## 1. Creation -/

/-- A coordinator for a job, with workers that nobody has probed yet. A job without input has
nothing to map, so its reduce phase begins at once. -/
def create? (job : Job) (workers : List Address) (config : Config) : Except Failure Coordinator :=
  match Ledger.enterNext { tasks := .ofSplits job.splits } job.reduceCount with
  | .error e => .error (.error e)
  | .ok change => match change.fault with
    | some f => .error (.fault f)
    | none =>
      .ok { job, config
            ledger := change.ledger
            monitor := .ofWorkers workers
            published := change.ledger.phase
            log := .configured job.splits.length job.reduceCount workers.length ::
              change.notices.reverse }

/-! ## 2. Views -/

def phase (c : Coordinator) : Phase :=
  c.ledger.phase

def stuck (c : Coordinator) : List TaskId :=
  c.ledger.tasks.stuck c.config.retryWarning

def results? (c : Coordinator) : Option Results :=
  c.ledger.results?

/-- The numbers of the calls that are watched although their deadline has come. -/
def overdueCalls (c : Coordinator) : List Nat :=
  (c.calls.zipIdx.filter fun (call, _) => call.isWatched && call.deadline ≤ c.now).map (·.2)

/-! ## 3. Changes -/

def apply (c : Coordinator) (change : Change) : Coordinator :=
  { c with
    ledger := change.ledger
    published := change.entered.getD c.published
    log := change.notices.reverse ++ c.log }

def setCallState (c : Coordinator) (n : Nat) (state : CallState) : Coordinator :=
  { c with calls := c.calls.modify n fun call => { call with state } }

/-- Dispatches the next task of the kind, and names it; `none` if there is nothing to dispatch or
nobody to dispatch to. -/
def dispatchOne (c : Coordinator) (kind : Kind) : Except Error (Option TaskId × Coordinator) :=
  match c.ledger.assign? c.job c.config c.now c.monitor.alive kind with
  | .error e => .error e
  | .ok none => .ok (none, c)
  | .ok (some (call, ledger)) =>
    .ok (some call.task, { c with ledger, calls := c.calls ++ [call] })

def dispatchUpTo (kind : Kind) : Nat → Coordinator → Except Error (List TaskId × Coordinator)
  | 0, c => .ok ([], c)
  | limit + 1, c =>
    match c.dispatchOne kind with
    | .error e => .error e
    | .ok (none, c) => .ok ([], c)
    | .ok (some id, c) =>
      match dispatchUpTo kind limit c with
      | .error e => .error e
      | .ok (ids, c) => .ok (id :: ids, c)

/-- Dispatches tasks of the kind until there is nothing to dispatch or nobody to dispatch to. Every
dispatch reserves a worker that is alive, so there are no more dispatches than such workers. -/
def dispatchPass (c : Coordinator) (kind : Kind) : Except Error (List TaskId × Coordinator) :=
  c.dispatchUpTo kind c.monitor.alive.length

/-- Takes over what the return of a call has changed. An output asks for a scheduling pass, unless a
fault has come between; an error does not. -/
def applyReturn (c : Coordinator) (outcome : Outcome) (change : Change) : Coordinator :=
  { c.apply change with woken := c.woken || (outcome.isOk && change.fault.isNone) }

/-- A call returns. Nothing happens to a call that has returned before, or through an output of the
wrong kind. -/
def answer (c : Coordinator) (n : Nat) (outcome : Outcome) : Coordinator :=
  match c.calls[n]? with
  | none => c
  | some call =>
    if !call.admits outcome then c
    else match call.state with
      | .returned .. | .returnedLate _ => c
      | .watched =>
        (c.setCallState n (.returned c.now outcome.isOk)).applyReturn outcome
          (c.ledger.returned c.job c.config c.now call outcome)
      | .overdue =>
        (c.setCallState n (.returnedLate c.now)).applyReturn outcome
          (c.ledger.returnedLate c.job call outcome)

def passDeadline (c : Coordinator) (n : Nat) : Coordinator :=
  match c.calls[n]? with
  | none => c
  | some call =>
    let c := c.setCallState n .overdue
    { c.apply (c.ledger.missed c.config call) with woken := true }

/-- Lets time pass, and then every deadline that has been reached take effect, in the order of the
calls. -/
def elapse (c : Coordinator) (ms : Time) : Coordinator :=
  let c := { c with now := c.now + ms }
  c.overdueCalls.foldl passDeadline c

def probed (c : Coordinator) (worker : Address) (answered : Bool) : Coordinator :=
  { c with monitor := c.monitor.note c.now worker answered }

def attend (c : Coordinator) : Coordinator :=
  { c with woken := false }

/-- What an event does. A dispatch that is an error changes nothing. -/
def handle (c : Coordinator) : Event → Coordinator
  | .dispatch kind => match c.dispatchOne kind with
    | .ok (_, c) => c
    | .error _ => c
  | .answer n outcome => c.answer n outcome
  | .probed worker answered => c.probed worker answered
  | .elapse ms => c.elapse ms
  | .attend => c.attend

def after (c : Coordinator) (history : List Event) : Coordinator :=
  history.foldl handle c

def clearLog (c : Coordinator) : Coordinator :=
  { c with log := [], monitor := { c.monitor with log := [] } }

def notices (c : Coordinator) : List Notice :=
  c.log ++ c.monitor.log

end Coordinator
end Foreman
