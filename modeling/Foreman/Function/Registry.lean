import Foreman.Error
import Foreman.Function

/-!
# The functions that a worker knows by name

Map functions and reduce functions have names of their own. A later function replaces an earlier
one of the same name.
-/

namespace Foreman

structure Registry where
  maps : Std.ExtTreeMap String MapFunction := ∅
  reduces : Std.ExtTreeMap String ReduceFunction := ∅

namespace Registry

def empty : Registry := {}

def addMap (r : Registry) (name : String) (f : MapFunction) : Registry :=
  { r with maps := r.maps.insert name f }

def addReduce (r : Registry) (name : String) (f : ReduceFunction) : Registry :=
  { r with reduces := r.reduces.insert name f }

/-- The functions that come with every worker. -/
def standard : Registry :=
  empty
    |>.addMap "word_count" wordCount
    |>.addMap "char_freq" charFrequency
    |>.addReduce "sum" sumValues
    |>.addReduce "count" countValues
    |>.addReduce "max" maxValue

def map? (r : Registry) (name : String) : Except TaskError MapFunction :=
  match r.maps[name]? with
  | some f => .ok f
  | none => .error (.unknownFunction name)

def reduce? (r : Registry) (name : String) : Except TaskError ReduceFunction :=
  match r.reduces[name]? with
  | some f => .ok f
  | none => .error (.unknownFunction name)

def knownMaps (r : Registry) : List String :=
  r.maps.keys

def knownReduces (r : Registry) : List String :=
  r.reduces.keys

end Registry
end Foreman
