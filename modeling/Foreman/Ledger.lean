import Foreman.Assembly
import Foreman.Call
import Foreman.Config
import Foreman.Notice
import Foreman.Task.Table

/-!
# The ledger of a job

The ledger is all that a coordinator decides on: the tasks, the assembly of their results, the
phase, which worker is reserved for which task, and which tasks are held back after a failed
dispatch. A dispatch reserves its worker until the call returns or its deadline passes. A failed
dispatch takes the task back to pending and holds it back for one scheduling interval; an overdue
one takes it back at once. A result is accepted from any dispatch as long as the task is dispatched.
-/

namespace Foreman

inductive Phase
  | mapping
  | reducing
  | done
deriving DecidableEq, Repr

namespace Phase

def name : Phase → String
  | .mapping => "Mapping"
  | .reducing => "Reducing"
  | .done => "Done"

def kind : Phase → Option Kind
  | .mapping => some .map
  | .reducing => some .reduce
  | .done => none

end Phase

structure Ledger where
  tasks : TaskTable
  assembly : Assembly := .empty
  phase : Phase := .mapping
  /-- The workers that hold a call, and the task that each was given. -/
  reserved : Std.ExtTreeMap Address TaskId := ∅
  /-- The tasks that may not be dispatched before a moment. -/
  heldBack : Std.ExtTreeMap TaskId Time := ∅
  /-- The first error that should not have been possible. -/
  fatal : Option Error := none
deriving DecidableEq

/-- A ledger after a change, the notices of the change in order, and the phase that it began. A fault
ends a change where it is; what the change has done by then stays. -/
structure Change where
  ledger : Ledger
  notices : List Notice := []
  entered : Option Phase := none
  fault : Option Fault := none

namespace Ledger

/-! ## 1. Phases -/

/-- Moves on to the next phase if all tasks of this one are completed. At the end of the map phase
the records are dealt out to the partitions, and each becomes a reduce task. -/
def enterNext (l : Ledger) (reduceCount : Nat) : Except Error Change :=
  match l.phase with
  | .mapping =>
    if l.tasks.allFinished .map then
      match l.assembly.deal? reduceCount with
      | .error f => .ok { ledger := l, fault := some f }
      | .ok (partitions, assembly) => match l.tasks.addReduces partitions with
        | .error e => .error e
        | .ok tasks => .ok
          { ledger := { l with tasks, assembly, phase := .reducing }
            notices := [.mapsFinished]
            entered := some .reducing }
    else .ok { ledger := l }
  | .reducing =>
    if l.tasks.allFinished .reduce then
      .ok { ledger := { l with phase := .done }, notices := [.reducesFinished], entered := some .done }
    else .ok { ledger := l }
  | .done => .ok { ledger := l }

def results? (l : Ledger) : Option Results :=
  if l.phase = .done then l.assembly.allResults? else none

/-! ## 2. Dispatching -/

def isHeldBack (l : Ledger) (now : Time) (id : TaskId) : Bool :=
  l.heldBack[id]?.any (now < ·)

def ready (l : Ledger) (now : Time) (kind : Kind) : List TaskId :=
  (l.tasks.pending kind).filter fun id => !l.isHeldBack now id

def free (l : Ledger) (workers : List Address) : List Address :=
  workers.filter fun w => !l.reserved.contains w

/-- The first worker other than the one that had the task last, or that one if it is the only one. -/
def preferred (free : List Address) (last : Option Address) : Option Address :=
  (free.find? fun w => some w ≠ last).or free.head?

/-- Dispatches the first task that is ready to a free worker among those that are alive, if the kind
is the one of the phase and there are such a task and such a worker. -/
def assign? (l : Ledger) (job : Job) (config : Config) (now : Time) (alive : List Address)
    (kind : Kind) : Except Error (Option (Call × Ledger)) :=
  if l.phase.kind ≠ some kind then .ok none
  else match (l.ready now kind).head? with
    | none => .ok none
    | some id => match l.tasks.get? id with
      | none => .error (.unknownTask id)
      | some task => match preferred (l.free alive) task.lastWorker with
        | none => .ok none
        | some worker =>
          -- From here on only the table of tasks can refuse, and it does not: the task is pending.
          let deadline := now + config.dispatchTimeout
          match l.tasks.dispatch id worker deadline with
          | .error e => .error e
          | .ok (lease, tasks) =>
            let request := Request.ofInput job task.input
            .ok (some ({ task := id, worker, lease, request, made := now, deadline },
              { l with
                tasks
                reserved := l.reserved.insert worker id
                heldBack := l.heldBack.erase id }))

/-! ## 3. Ends of dispatches -/

/-- Frees a worker, unless it has been given another task meanwhile. -/
def unreserve (l : Ledger) (worker : Address) (id : TaskId) : Ledger :=
  if l.reserved[worker]? = some id then { l with reserved := l.reserved.erase worker } else l

def gather (l : Ledger) (id : TaskId) : Output → Ledger
  | .records rs => { l with assembly := l.assembly.addRecords rs }
  | .value text => { l with assembly := l.assembly.addResult id.index text }

/-- Accepts an output, unless the task is completed or pending: then nothing changes. -/
def accept (l : Ledger) (reduceCount : Nat) (id : TaskId) (worker : Address) (output : Output) :
    Except Error Change :=
  match l.tasks.accept id output.result with
  | .error e => .error e
  | .ok (false, _) => .ok { ledger := l }
  | .ok (true, tasks) =>
    let finished :=
      Notice.finished id worker (tasks.finishedCount id.kind) (tasks.count id.kind)
    match ({ l with tasks }.gather id output).enterNext reduceCount with
    | .error e => .error e
    | .ok change => .ok { change with notices := finished :: change.notices }

/-- Takes a task back to pending if the lease is still its current one, and answers whether it was.
A task that has been dispatched too often is worth a notice. -/
def takeBack (l : Ledger) (retryWarning : Nat) (id : TaskId) (lease : Nat) :
    Except Error (Bool × Change) :=
  match l.tasks.takeBack id lease with
  | .error e => .error e
  | .ok (false, _) => .ok (false, { ledger := l })
  | .ok (true, tasks) =>
    let attempts := ((tasks.get? id).map Task.attempts).getD 0
    let notices := if retryWarning < attempts then [Notice.stuck id attempts] else []
    .ok (true, { ledger := { l with tasks }, notices })

/-- Keeps an error that should not have been possible; the first one stays. -/
def orFatal (l : Ledger) : Except Error Change → Change
  | .ok change => change
  | .error e => { ledger := { l with fatal := l.fatal.or (some e) }, notices := [.inconsistent e] }

/-- A call returns before its deadline. Its worker is free again. An output is accepted; an error
takes the task back to pending, and holds it back for one scheduling interval. -/
def returned (l : Ledger) (job : Job) (config : Config) (now : Time) (call : Call)
    (outcome : Outcome) : Change :=
  let l := l.unreserve call.worker call.task
  match outcome with
  | .ok output => l.orFatal (l.accept job.reduceCount call.task call.worker output)
  | .error e =>
    let failed := Notice.failed call.task call.worker e
    let change := match l.takeBack config.retryWarning call.task call.lease with
      | .ok (true, change) =>
        let retryAt := now + config.scheduleInterval
        { change with ledger :=
            { change.ledger with heldBack := change.ledger.heldBack.insert call.task retryAt } }
      | .ok (false, change) => change
      | .error e => l.orFatal (.error e)
    { change with notices := failed :: change.notices }

/-- The deadline of a call passes. Its worker is free again, and the task goes back to pending. -/
def missed (l : Ledger) (config : Config) (call : Call) : Change :=
  let l := l.unreserve call.worker call.task
  let late := Notice.overdue call.task call.worker config.dispatchTimeout
  let change := l.orFatal ((l.takeBack config.retryWarning call.task call.lease).map (·.2))
  { change with notices := late :: change.notices }

/-- A call returns after its deadline: an output is still offered, an error is ignored. -/
def returnedLate (l : Ledger) (job : Job) (call : Call) : Outcome → Change
  | .ok output => l.orFatal (l.accept job.reduceCount call.task call.worker output)
  | .error _ => { ledger := l }

end Ledger
end Foreman
