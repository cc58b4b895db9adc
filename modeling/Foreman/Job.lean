import Foreman.Error

/-!
# Jobs

A job is fixed before it starts: its input splits, the names of its functions, and the number of
partitions, of which there is one at least.
-/

namespace Foreman

structure Job where
  splits : List String
  mapFunction : String
  reduceFunction : String
  reduceCount : Nat
  reduceCount_pos : 0 < reduceCount

namespace Job

/-- A job without reduce tasks is refused. -/
def make? (splits : List String) (mapFunction reduceFunction : String) (reduceCount : Nat) :
    Except Error Job :=
  if h : 0 < reduceCount then .ok ⟨splits, mapFunction, reduceFunction, reduceCount, h⟩
  else .error (.invalidJob "the number of reduce tasks must be positive")

end Job
end Foreman
