import Foreman.Error
import Foreman.Record
import Foreman.Wire.Json.Reader

/-!
# The messages between coordinators and workers

A codec says how values of a type are written as JSON and read back. A record is an object of its
two fields, and may also be read from an array of them. Fields that nobody knows are ignored, fields
that are missing or repeated are refused. A choice is an object of one member, whose key names the
choice.
-/

namespace Foreman.Wire

structure Codec (α : Type) where
  encode : α → Json
  decode? : Json → Option α

namespace Json

def member? (members : List (Option String × Json)) (name : String) : Option Json :=
  match members.filter fun m => m.1 = some name with
  | [(_, j)] => some j
  | _ => none

/-- Reads two fields that are texts, from an object or from an array of just these. The keys of the
object must be texts. -/
def twoTexts? (first second : String) : Json → Option (String × String)
  | .array [a, b] => do
    let a ← a.text?
    let b ← b.text?
    some (a, b)
  | .object members =>
    if members.any (·.1.isNone) then none
    else do
      let a ← (← member? members first).text?
      let b ← (← member? members second).text?
      some (a, b)
  | _ => none

def choice (name : String) (content : Json) : Json :=
  .object [(some name, content)]

def choice? : Json → Option (String × Json)
  | .object [(some name, content)] => some (name, content)
  | _ => none

end Json

namespace Codec

variable {α : Type}

def string : Codec String where
  encode := .text
  decode? := Json.text?

def record : Codec Record where
  encode r := .object [(some "key", .text r.key), (some "value", .text r.value)]
  decode? j := (j.twoTexts? "key" "value").map fun (key, value) => ⟨key, value⟩

def list (c : Codec α) : Codec (List α) where
  encode xs := .array (xs.map c.encode)
  decode?
    | .array items => items.mapM c.decode?
    | _ => none

def taskError : Codec TaskError where
  encode
    | .unknownFunction name => .choice "UnknownFunction" (.text name)
    | .unreadable path reason =>
      .choice "Input" (.object [(some "path", .text path), (some "message", .text reason)])
  decode? j := match j.choice? with
    | some ("UnknownFunction", content) => content.text?.map .unknownFunction
    | some ("Input", content) =>
      (content.twoTexts? "path" "message").map fun (path, reason) => .unreadable path reason
    | _ => none

/-- The reply of a worker: what it was asked for, or the error of the task. -/
def reply (c : Codec α) : Codec (Except TaskError α) where
  encode
    | .ok a => .choice "Ok" (c.encode a)
    | .error e => .choice "Err" (taskError.encode e)
  decode? j := match j.choice? with
    | some ("Ok", content) => (c.decode? content).map .ok
    | some ("Err", content) => (taskError.decode? content).map .error
    | _ => none

def records : Codec (List Record) := list record

def mapReply : Codec (Except TaskError (List Record)) := reply records

def reduceReply : Codec (Except TaskError String) := reply string

def write (c : Codec α) (a : α) : String :=
  String.ofList (c.encode a).render

def read? (c : Codec α) (s : String) : Option α :=
  (Json.parse? s.toList).bind c.decode?

end Codec
end Foreman.Wire
