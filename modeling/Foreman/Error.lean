import Foreman.Fault
import Foreman.Net.Address.Printer
import Foreman.Task.Id

/-!
# Errors

Every error is a cause, and its text is given by one function. The file system can refuse a path
(`FileError`), a worker can fail at a task (`TaskError`), a call to a worker can fail (`CallError`),
and the coordinator can refuse what it is asked for (`Error`). What a coordinator begins can also
fail through a fault (`Failure`).
-/

namespace Foreman

inductive Stage
  | pending
  | dispatched
  | completed
deriving DecidableEq, Repr

inductive FileError
  | notFound
  | notDirectory
  | isDirectory
  | nameTooLong
  | tooManyLinks
  | nulInName
  | notUtf8
  | other (text : String)
deriving DecidableEq, Repr

inductive TaskError
  | unknownFunction (name : String)
  | unreadable (path : String) (reason : String)
deriving DecidableEq, Repr

inductive CallError
  | transport (worker : Address) (reason : String)
  | task (e : TaskError)
deriving DecidableEq, Repr

inductive Error
  | invalidTransition (task : TaskId) (stage : Stage)
  | unknownTask (task : TaskId)
  | invalidJob (reason : String)
  | aborted
  | file (e : FileError)
deriving DecidableEq, Repr

/-- Why something does not come about: it is refused, or a fault ends it. -/
inductive Failure
  | error (e : Error)
  | fault (f : Fault)
deriving DecidableEq, Repr

def Stage.name : Stage → String
  | .pending => "Pending"
  | .dispatched => "Dispatched"
  | .completed => "Completed"

def FileError.message : FileError → String
  | .notFound => "No such file or directory (os error 2)"
  | .notDirectory => "Not a directory (os error 20)"
  | .isDirectory => "Is a directory (os error 21)"
  | .nameTooLong => "File name too long (os error 36)"
  | .tooManyLinks => "Too many levels of symbolic links (os error 40)"
  | .nulInName => "file name contained an unexpected NUL byte"
  | .notUtf8 => "stream did not contain valid UTF-8"
  | .other text => text

def TaskError.message : TaskError → String
  | .unknownFunction name => s!"no function registered under the name `{name}`"
  | .unreadable path reason => s!"cannot read input split {path}: {reason}"

/-- Nobody accepts connections at the worker's address. -/
def CallError.refused (worker : Address) : CallError :=
  .transport worker "connection refused"

def CallError.message : CallError → String
  | .transport worker reason => s!"transport failure talking to {worker.text}: {reason}"
  | .task e => e.message

def Error.message : Error → String
  | .invalidTransition task stage => s!"invalid transition for {task.text}: task is {stage.name}"
  | .unknownTask task => s!"unknown task {task.text}"
  | .invalidJob reason => s!"invalid job: {reason}"
  | .aborted => "the coordinator stopped before the job was done"
  | .file e => e.message

def Failure.message : Failure → String
  | .error e => e.message
  | .fault f => f.message

end Foreman
