import Foreman.Record

/-!
# Assembling the results

The assembly gathers the records of the map tasks until the map phase closes, then deals them out to
partitions, once and for all, and gathers one result for every partition. The results are complete
as soon as there are as many as partitions.
-/

namespace Foreman

abbrev Results := Std.ExtTreeMap Nat String

structure Assembly where
  buffer : List Record := []
  partitions : Option (List Partition) := none
  results : Results := ∅
deriving DecidableEq

namespace Assembly

def empty : Assembly := {}

def addRecords (a : Assembly) (rs : List Record) : Assembly :=
  { a with buffer := a.buffer ++ rs }

/-- Takes the result of a partition; the last one for a partition counts. -/
def addResult (a : Assembly) (partition : Nat) (value : String) : Assembly :=
  { a with results := a.results.insert partition value }

/-- Deals the gathered records out to `n` partitions. Only the first time counts: later ones give
the same partitions, whatever `n` is. -/
def deal (a : Assembly) (n : Nat) : List Partition × Assembly :=
  match a.partitions with
  | some ps => (ps, a)
  | none =>
    let ps := Partition.deal n a.buffer
    (ps, { a with buffer := [], partitions := some ps })

theorem deal_of_partitions {a : Assembly} {ps : List Partition} (h : a.partitions = some ps)
    (n : Nat) : a.deal n = (ps, a) := by
  simp [deal, h]

/-- How many partitions can be addressed: each takes 24 bytes, of which there are 2⁶³ - 1. -/
def maxPartitions : Nat := 384307168202282325

/-- Deals the records out where the number of partitions may be unsuitable. The first time there must
not be more partitions than can be addressed, nor none if there are records to place. -/
def deal? (a : Assembly) (n : Nat) : Except Fault (List Partition × Assembly) :=
  if a.partitions.isSome then .ok (a.deal n)
  else if maxPartitions < n then .error .tooManyPartitions
  else if n = 0 && !a.buffer.isEmpty then .error .remainderByZero
  else .ok (a.deal n)

theorem deal?_of_partitions_eq_none {a : Assembly} (h : a.partitions = none) {n : Nat}
    (hn : 0 < n) :
    a.deal? n =
      if maxPartitions < n then .error .tooManyPartitions
      else .ok (Partition.deal n a.buffer,
        { a with buffer := [], partitions := some (Partition.deal n a.buffer) }) := by
  have hn0 : n ≠ 0 := by omega
  simp [deal?, deal, h, hn0]

/-- All results, once there are as many as partitions. -/
def allResults? (a : Assembly) : Option Results :=
  match a.partitions with
  | some ps => if a.results.size = ps.length then some a.results else none
  | none => none

end Assembly
end Foreman
