/-!
# Durations as text

A whole number of milliseconds is written in seconds from one second on, with the decimal places
that it needs, and in milliseconds below. The empty duration is written in the finest unit there is.
-/

namespace Foreman.Text

def trimZeros (cs : List Char) : List Char :=
  (cs.reverse.dropWhile (· == '0')).reverse

/-- Three decimal places, without the zeros at their end. -/
def thousandths (n : Nat) : List Char :=
  trimZeros (Nat.toDigits 10 (1000 + n)).tail

def duration (ms : Nat) : String :=
  if ms = 0 then "0ns"
  else if ms < 1000 then s!"{ms}ms"
  else match thousandths (ms % 1000) with
    | [] => s!"{ms / 1000}s"
    | places => s!"{ms / 1000}." ++ String.ofList places ++ "s"

end Foreman.Text
