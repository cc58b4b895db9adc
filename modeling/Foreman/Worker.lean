import Foreman.Call
import Foreman.Files
import Foreman.Function.Registry
import Foreman.Notice

/-!
# Workers

A worker carries out requests with the functions that it knows and the files that it can read. It
keeps nothing between requests. Along with every result go the notices that the worker gives.
-/

namespace Foreman

structure Worker where
  registry : Registry
  files : FileSystem

namespace Worker

/-- Runs a map task. The function is looked up before the split is read. -/
def mapSplit (w : Worker) (path function : String) : Except TaskError (List Record) × List Notice :=
  match w.registry.map? function with
  | .error e => (.error e, [])
  | .ok f => match w.files.readText (.ofText path) with
    | .error e => (.error (.unreadable path e.message), [.reading path])
    | .ok text =>
      let records := f text
      (.ok records, [.reading path, .mapped path records.length])

def reduceGroup (w : Worker) (records : List Record) (function : String) :
    Except TaskError String × List Notice :=
  match w.registry.reduce? function with
  | .error e => (.error e, [])
  | .ok f => (.ok (reduceRecords f records), [.reduced records.length])

/-- Serves a map task: a failure is worth one more notice. -/
def serveMap (w : Worker) (path function : String) : Except TaskError (List Record) × List Notice :=
  match w.mapSplit path function with
  | (.error e, log) => (.error e, log ++ [.mapFailed path e])
  | (.ok records, log) => (.ok records, log)

def serveReduce (w : Worker) (records : List Record) (function : String) :
    Except TaskError String × List Notice :=
  match w.reduceGroup records function with
  | (.error e, log) => (.error e, log ++ [.reduceFailed e])
  | (.ok text, log) => (.ok text, log)

def serve (w : Worker) : Request → Except TaskError Output × List Notice
  | .map path function =>
    let (result, log) := w.serveMap path function
    (result.map .records, log)
  | .reduce records function =>
    let (result, log) := w.serveReduce records function
    (result.map .value, log)

def pong : String := "OK"

end Worker
end Foreman
