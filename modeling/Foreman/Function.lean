import Foreman.Record
import Foreman.Text.Words
import Foreman.Text.Lowercase
import Foreman.Text.Numeral

/-!
# Map and reduce functions

A map function turns the contents of one input split into records. A reduce function folds the
values of one key into one value. The functions here come with every worker.
-/

namespace Foreman

abbrev MapFunction := String → List Record

abbrev ReduceFunction := String → List String → String

/-! ## 1. Map functions -/

def wordCount : MapFunction := fun input =>
  (Text.words input.toList).map fun w => ⟨String.ofList (Text.lower w), "1"⟩

def charFrequency : MapFunction := fun input =>
  (input.toList.filter fun c => !Text.isBlank c).map fun c => ⟨c.toString, "1"⟩

/-! ## 2. Reduce functions -/

/-- The values that are 64-bit integers; all others are skipped. -/
def integers (values : List String) : List Int :=
  values.filterMap Text.Numeral.int64?

def sumValues : ReduceFunction := fun _ values =>
  toString ((integers values).foldr (· + ·) 0)

def countValues : ReduceFunction := fun _ values =>
  toString values.length

/-- The greatest integer among the values, zero if there is none. -/
def maxValue : ReduceFunction := fun _ values =>
  toString ((integers values).max?.getD 0)

/-! ## 3. The output of a partition -/

def entryText (key value : String) : String :=
  key ++ "=" ++ value

def reduceAll (f : ReduceFunction) (p : Partition) : List (String × String) :=
  p.toList.map fun (key, values) => (key, f key values)

def reduceRecords (f : ReduceFunction) (rs : List Record) : String :=
  ",".intercalate ((reduceAll f (Partition.group rs)).map fun (key, value) => entryText key value)

end Foreman
