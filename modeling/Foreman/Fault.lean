/-!
# Faults

A fault is a misuse that is not answered with an error: it ends the activity which commits it.
-/

namespace Foreman

/-- The misuses: placing a key in one of no partitions, a timer without a period, and more partitions
than can be addressed. -/
inductive Fault
  | remainderByZero
  | zeroPeriod
  | tooManyPartitions
deriving DecidableEq, Repr

def Fault.message : Fault → String
  | .remainderByZero => "attempt to calculate the remainder with a divisor of zero"
  | .zeroPeriod => "`period` must be non-zero."
  | .tooManyPartitions => "capacity overflow"

end Foreman
