import Foreman.Error
import Foreman.Text.Duration

/-!
# Notices: what coordinators and workers log

A notice is one line of the log, with the level at which it is written.
-/

namespace Foreman

inductive Level
  | info
  | warn
  | error
deriving DecidableEq, Repr

inductive Notice
  /-- The size of a job that begins. -/
  | configured (maps reduces workers : Nat)
  | mapsFinished
  | reducesFinished
  | alive (worker : Address)
  | unresponsive (worker : Address)
  /-- A task is completed; `done` of the `count` tasks of its kind now are. -/
  | finished (task : TaskId) (worker : Address) (done count : Nat)
  | failed (task : TaskId) (worker : Address) (reason : CallError)
  | overdue (task : TaskId) (worker : Address) (timeout : Nat)
  | stuck (task : TaskId) (attempts : Nat)
  | inconsistent (reason : Error)
  /-- A worker begins with an input split. -/
  | reading (path : String)
  | mapped (path : String) (records : Nat)
  | reduced (records : Nat)
  | mapFailed (path : String) (reason : TaskError)
  | reduceFailed (reason : TaskError)
deriving DecidableEq, Repr

def Level.name : Level → String
  | .info => "INFO"
  | .warn => "WARN"
  | .error => "ERROR"

namespace Notice

def level : Notice → Level
  | .configured .. | .mapsFinished | .reducesFinished | .alive _ | .finished .. => .info
  | .reading _ | .mapped .. | .reduced _ => .info
  | .unresponsive _ | .failed .. | .overdue .. | .stuck .. | .mapFailed .. | .reduceFailed _ => .warn
  | .inconsistent _ => .error

def message : Notice → String
  | .configured maps reduces workers =>
    s!"[Coordinator Configuration] #{maps} Map Tasks | #{reduces} Reduce Tasks | #{workers} Workers"
  | .mapsFinished =>
    "[Map] All map tasks have been finished, the reduce phase will then begin!"
  | .reducesFinished =>
    "[Reduce] All reduce tasks have been finished, MapReduce has finished!"
  | .alive worker => s!"[Liveness] Worker {worker.text} is alive"
  | .unresponsive worker => s!"[Liveness] Worker {worker.text} is unresponsive"
  | .finished task worker done count =>
    s!"[{task.kind.name}] {task.text} has been finished by worker {worker.text} ({done}/{count})"
  | .failed task worker reason =>
    s!"[{task.kind.name}] {task.text} failed on worker {worker.text}: {reason.message}"
  | .overdue task worker timeout =>
    s!"[{task.kind.name}] {task.text} did not come back from worker {worker.text} within " ++
      Text.duration timeout
  | .stuck task attempts =>
    s!"[{task.kind.name}] {task.text} has failed {attempts} times and is still pending, " ++
      "the job may be stuck"
  | .inconsistent reason => s!"Scheduling state is inconsistent: {reason.message}"
  | .reading path => s!"[Map] Worker is reading input split {path}"
  | .mapped path records =>
    s!"[Map] Worker finished mapping {path}, {records} intermediate records produced"
  | .reduced records => s!"[Reduce] Worker finished reducing {records} intermediate records"
  | .mapFailed path reason => s!"[Map] Task over {path} failed: {reason.message}"
  | .reduceFailed reason => s!"[Reduce] Task failed: {reason.message}"

def text (n : Notice) : String :=
  n.level.name ++ " " ++ n.message

/-- The lines of a log that does not keep their order, in ascending order. -/
def sorted (log : List Notice) : List String :=
  (log.map text).mergeSort (· ≤ ·)

end Notice
end Foreman
