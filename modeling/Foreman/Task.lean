import Foreman.Error
import Foreman.Record

/-!
# Tasks

A task is pending until it is dispatched to a worker, under a lease and a deadline; it is then
completed with a result, or goes back to pending. The lease of a dispatch is the number of times
that the task has been dispatched, so no two dispatches of a task share one.

Dispatches are counted without a bound. A counter of 32 bits agrees with the count below 2 ^ 32
dispatches of one task. With one more it is at zero again (`Task.counter`), and the leases that it
gives come a second time.
-/

namespace Foreman

/-- Times and durations are whole milliseconds. -/
abbrev Time := Nat

inductive TaskInput
  | split (path : String)
  | partition (p : Partition)
deriving DecidableEq

/-- What a completed task leaves behind: of a map task only the number of its records. -/
inductive TaskResult
  | records (count : Nat)
  | value (text : String)
deriving DecidableEq, Repr

inductive Status
  | pending
  | dispatched (worker : Address) (deadline : Time) (lease : Nat)
  | completed (result : TaskResult)
deriving DecidableEq, Repr

namespace Status

def stage : Status → Stage
  | .pending => .pending
  | .dispatched .. => .dispatched
  | .completed _ => .completed

end Status

/-- A task, apart from its name. `attempts` counts its dispatches, however many they are; `lastWorker`
is the worker of the latest one. -/
structure Task where
  input : TaskInput
  status : Status := .pending
  attempts : Nat := 0
  lastWorker : Option Address := none
deriving DecidableEq

namespace Task

def isPending (t : Task) : Bool :=
  t.status.stage = .pending

def isFinished (t : Task) : Bool :=
  t.status.stage = .completed

def heldUnder (t : Task) (lease : Nat) : Bool :=
  match t.status with
  | .dispatched _ _ current => current = lease
  | _ => false

def handTo (t : Task) (worker : Address) (deadline : Time) : Task :=
  { t with
    status := .dispatched worker deadline (t.attempts + 1)
    attempts := t.attempts + 1
    lastWorker := some worker }

/-- What a counter of 32 bits shows of the number of dispatches. -/
def counter (t : Task) : UInt32 :=
  .ofNat t.attempts

theorem counter_handTo (t : Task) (worker : Address) (deadline : Time) :
    (t.handTo worker deadline).counter = t.counter + 1 :=
  UInt32.ofNat_add _ _

theorem toNat_counter {t : Task} (h : t.attempts < UInt32.size) : t.counter.toNat = t.attempts :=
  UInt32.toNat_ofNat_of_lt' h

end Task
end Foreman
