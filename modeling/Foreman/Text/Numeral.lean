/-!
# Numerals: integers read from text

A numeral is decimal ASCII digits after at most one sign, and it has to fit the width of the number
that is read. Any number of leading zeros is allowed; nothing else is, not even blanks.
-/

namespace Foreman.Text.Numeral

def isDigit (c : Char) : Bool :=
  '0' ≤ c && c ≤ '9'

def value (cs : List Char) : Nat :=
  cs.foldl (fun n c => 10 * n + (c.toNat - '0'.toNat)) 0

def digits? (cs : List Char) : Option Nat :=
  if cs.isEmpty || !cs.all isDigit then none else some (value cs)

/-- Reads a natural number of at most `bits` bits. A plus sign may go before it, a minus sign may
not, even before zero. -/
def unsigned? (bits : Nat) (s : String) : Option Nat :=
  let magnitude := match s.toList with
    | '+' :: cs => digits? cs
    | cs => digits? cs
  magnitude.filter (· < 1 <<< bits)

def int64? (s : String) : Option Int :=
  let number : Option Int := match s.toList with
    | '+' :: cs => (digits? cs).map Int.ofNat
    | '-' :: cs => (digits? cs).map fun n => -Int.ofNat n
    | cs => (digits? cs).map Int.ofNat
  number.filter fun i => -9223372036854775808 ≤ i && i ≤ 9223372036854775807

end Foreman.Text.Numeral
