import Std.Data.ExtTreeMap
import Foreman.Fault

/-!
# Records and partitions

Map functions emit records: a key and a value. The records of a job are spread over partitions by a
hash of their keys, so that every key lies in one partition. A partition holds the values of each of
its keys, the keys in ascending order and the values of a key in the order of the records.
-/

namespace Foreman

structure Record where
  key : String
  value : String
deriving DecidableEq, Repr

abbrev Partition := Std.ExtTreeMap String (List String)

instance : DecidableEq Partition :=
  inferInstanceAs (DecidableEq (Std.ExtTreeMap String (List String)))

/-! ## 1. The hash of a key -/

def fnv1a (bytes : List UInt8) : UInt64 :=
  bytes.foldl (fun h b => (h ^^^ b.toUInt64) * 0x100000001b3) 0xcbf29ce484222325

/-- The hash that places a key: the low 31 bits of the hash of its bytes. -/
def keyHash (key : String) : Nat :=
  (fnv1a key.toUTF8.data.toList &&& 0x7fffffff).toNat

def partitionIndex (key : String) (n : Nat) : Nat :=
  keyHash key % n

theorem partitionIndex_lt (key : String) {n : Nat} (h : 0 < n) : partitionIndex key n < n :=
  Nat.mod_lt _ h

def partitionIndex? (key : String) (n : Nat) : Except Fault Nat :=
  if n = 0 then .error .remainderByZero else .ok (partitionIndex key n)

/-! ## 2. Grouping by key, and back -/

namespace Partition

/-- Adds a record before all others of its key. -/
def push (r : Record) (p : Partition) : Partition :=
  p.alter r.key fun values => some (r.value :: values.getD [])

theorem getElem?_push (r : Record) (p : Partition) (key : String) :
    (push r p)[key]? = if r.key = key then some (r.value :: p[key]?.getD []) else p[key]? := by
  by_cases h : r.key = key
  · subst h; simp [push]
  · simp [push, Std.ExtTreeMap.getElem?_alter, h]

def group (rs : List Record) : Partition :=
  rs.foldr push ∅

def records (p : Partition) : List Record :=
  p.toList.flatMap fun (key, values) => values.map (Record.mk key)

def deal (n : Nat) (rs : List Record) : List Partition :=
  rs.foldr (fun r ps => ps.modify (partitionIndex r.key n) (push r)) (List.replicate n ∅)

theorem length_deal (n : Nat) (rs : List Record) : (deal n rs).length = n := by
  induction rs with
  | nil => simp [deal]
  | cons r rs ih => simpa [deal] using ih

end Partition
end Foreman
