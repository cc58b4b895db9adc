import Foreman.Job
import Foreman.Task

/-!
# Calls to workers

A dispatch makes one call to a worker: a request, which carries all that the worker needs. The call
is watched until its deadline. It stays open after that, and returns at most once.
-/

namespace Foreman

/-- What a worker is asked to do: run a named map function over an input split, or a named reduce
function over the records of a partition, ordered by key. -/
inductive Request
  | map (path function : String)
  | reduce (records : List Record) (function : String)
deriving DecidableEq, Repr

/-- What a worker gives back: the records of a map task, or the text of a reduced partition. -/
inductive Output
  | records (rs : List Record)
  | value (text : String)
deriving DecidableEq, Repr

abbrev Outcome := Except CallError Output

namespace Request

def ofInput (job : Job) : TaskInput → Request
  | .split path => .map path job.mapFunction
  | .partition p => .reduce (Partition.records p) job.reduceFunction

def kind : Request → Kind
  | .map .. => .map
  | .reduce .. => .reduce

end Request

namespace Output

def kind : Output → Kind
  | .records _ => .map
  | .value _ => .reduce

def result : Output → TaskResult
  | .records rs => .records rs.length
  | .value text => .value text

end Output

/-- A call is watched until it returns or its deadline passes; an overdue call can still return. Of a
call that returned while it was watched it is known whether it brought an output. -/
inductive CallState
  | watched
  | overdue
  | returned (time : Time) (success : Bool)
  | returnedLate (time : Time)
deriving DecidableEq, Repr

structure Call where
  task : TaskId
  worker : Address
  lease : Nat
  request : Request
  made : Time
  deadline : Time
  state : CallState := .watched
deriving DecidableEq, Repr

namespace Call

def isOpen (c : Call) : Bool :=
  match c.state with
  | .watched | .overdue => true
  | .returned .. | .returnedLate _ => false

def isWatched (c : Call) : Bool :=
  c.state = .watched

/-- Whether the call can return so: an output has to be of the kind of its task. -/
def admits (c : Call) : Outcome → Bool
  | .ok output => output.kind = c.task.kind
  | .error _ => true

def ended (c : Call) : Option Time :=
  match c.state with
  | .watched | .overdue => none
  | .returned time _ | .returnedLate time => some time

end Call
end Foreman
