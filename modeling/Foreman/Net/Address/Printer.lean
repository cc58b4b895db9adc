import Foreman.Net.Address

/-!
# Addresses as text

A version 4 host is four decimal numbers with points between them. A version 6 host is eight groups
of hexadecimal digits with colons between them; the longest run of two or more zero groups, the
first of several equally long ones, is written `::`. A version 6 host that stands for a version 4
one is written `::ffff:` and that host.
-/

namespace Foreman.Address

/-- The four bytes of a version 4 host, the highest first. -/
def octets (ip : BitVec 32) : List Nat :=
  [24, 16, 8, 0].map fun shift => (ip >>> shift).toNat % 256

/-- The eight groups of a version 6 host, the highest first. -/
def groups (ip : BitVec 128) : List Nat :=
  [112, 96, 80, 64, 48, 32, 16, 0].map fun shift => (ip >>> shift).toNat % 65536

def v4Text (ip : BitVec 32) : String :=
  ".".intercalate ((octets ip).map fun n => String.ofList (Nat.toDigits 10 n))

def groupsText (gs : List Nat) : String :=
  ":".intercalate (gs.map fun n => String.ofList (Nat.toDigits 16 n))

/-- Where a run of zero groups begins, and how many groups it has. -/
structure ZeroRun where
  start : Nat
  length : Nat

/-- The first of the longest runs of zero groups. -/
def longestZeroRun (gs : List Nat) : ZeroRun :=
  (List.range gs.length).foldl (fun best i =>
    let length := ((gs.drop i).takeWhile (· == 0)).length
    if best.length < length then ⟨i, length⟩ else best) ⟨0, 0⟩

def v6Text (ip : BitVec 128) : String :=
  if ip >>> 32 = 0xffff then "::ffff:" ++ v4Text (ip.truncate 32)
  else
    let gs := groups ip
    let run := longestZeroRun gs
    if 1 < run.length then
      groupsText (gs.take run.start) ++ "::" ++ groupsText (gs.drop (run.start + run.length))
    else groupsText gs

/-- The text of a host by itself, without its scope. -/
def hostText : Host → String
  | .v4 ip => v4Text ip
  | .v6 ip _ => v6Text ip

def text (a : Address) : String :=
  match a.host with
  | .v4 ip => s!"{v4Text ip}:{a.port.toNat}"
  | .v6 ip scope =>
    let mark := if scope = 0 then "" else s!"%{scope.toNat}"
    s!"[{v6Text ip}{mark}]:{a.port.toNat}"

end Foreman.Address
