import Foreman.Net.Address

/-!
# Reading addresses

The reader takes every text form of an address: a version 4 host without leading zeros in its
numbers, or a version 6 host in brackets, with at most one `::`, groups of up to four hexadecimal
digits in either case, a version 4 host in place of the last two groups, and a scope after `%`. The
port follows a colon.
-/

namespace Foreman.Address.Reader

/-- A reader of a front takes what it knows from the front of a text, and gives the rest. -/
abbrev Front (α : Type) := List Char → Option (α × List Char)

def digit? (base : Nat) (c : Char) : Option Nat :=
  let n := c.toNat
  let value :=
    if 0x30 ≤ n && n ≤ 0x39 then n - 0x30
    else if 0x61 ≤ n && n ≤ 0x66 then n - 0x61 + 10
    else if 0x41 ≤ n && n ≤ 0x46 then n - 0x41 + 10
    else base
  if value < base then some value else none

def char (c : Char) : Front Unit
  | d :: cs => if c = d then some ((), cs) else none
  | [] => none

/-- Reads as many digits as there are. It fails if there are none, more than `width`, a number of
`limit` or more, or, where a zero must not lead, a zero before other digits. -/
def number (base : Nat) (width : Option Nat) (zeroLeads : Bool) (limit : Nat) : Front Nat := fun cs =>
  let ds := cs.takeWhile fun c => (digit? base c).isSome
  let value := ds.foldl (fun n c => base * n + (digit? base c).getD 0) 0
  let tooLong := width.any (· < ds.length)
  let badZero := !zeroLeads && 1 < ds.length && ds.head? == some '0'
  if ds.isEmpty || tooLong || badZero || limit ≤ value then none
  else some (value, cs.drop ds.length)

def v4 : Front (BitVec 32) := fun cs => do
  let octet := number 10 (some 3) false 256
  let (a, cs) ← octet cs
  let ((), cs) ← char '.' cs
  let (b, cs) ← octet cs
  let ((), cs) ← char '.' cs
  let (c, cs) ← octet cs
  let ((), cs) ← char '.' cs
  let (d, cs) ← octet cs
  some (BitVec.ofNat 32 (((a * 256 + b) * 256 + c) * 256 + d), cs)

/-- Reads a colon, unless this is the first group. -/
def separator (first : Bool) : Front Unit := fun cs =>
  if first then some ((), cs) else char ':' cs

/-- Reads at most `room` groups. A version 4 host counts for two, needs room for two, and ends the
groups; whether there was one is the second part of the answer. -/
def groups (first : Bool) : Nat → List Char → List Nat × Bool × List Char
  | 0, cs => ([], false, cs)
  | room + 1, cs =>
    let embedded := if room = 0 then none else do
      let ((), cs) ← separator first cs
      v4 cs
    match embedded with
    | some (ip, rest) => ([ip.toNat / 65536, ip.toNat % 65536], true, rest)
    | none =>
      let group := do
        let ((), cs) ← separator first cs
        number 16 (some 4) true 65536 cs
      match group with
      | none => ([], false, cs)
      | some (g, rest) =>
        let (gs, hasV4, rest) := groups false room rest
        (g :: gs, hasV4, rest)

def ofGroups (gs : List Nat) : BitVec 128 :=
  BitVec.ofNat 128 (gs.foldl (fun n g => 65536 * n + g) 0)

/-- Reads a version 6 host. What stands before `::` must not end in a version 4 host, and `::`
stands for one zero group at least. -/
def v6 : Front (BitVec 128) := fun cs =>
  let (head, headV4, rest) := groups true 8 cs
  if head.length = 8 then some (ofGroups head, rest)
  else if headV4 then none
  else do
    let ((), rest) ← char ':' rest
    let ((), rest) ← char ':' rest
    let (tail, _, rest) := groups true (7 - head.length) rest
    some (ofGroups (head ++ List.replicate (8 - head.length - tail.length) 0 ++ tail), rest)

def scope : Front Nat := fun cs => do
  let ((), cs) ← char '%' cs
  number 10 none true 4294967296 cs

def port : Front (BitVec 16) := fun cs => do
  let ((), cs) ← char ':' cs
  let (n, cs) ← number 10 none true 65536 cs
  some (BitVec.ofNat 16 n, cs)

def socketV4 : Front Address := fun cs => do
  let (ip, cs) ← v4 cs
  let (p, cs) ← port cs
  some (⟨.v4 ip, p⟩, cs)

def socketV6 : Front Address := fun cs => do
  let ((), cs) ← char '[' cs
  let (ip, cs) ← v6 cs
  let (scope, cs) := (scope cs).getD (0, cs)
  let ((), cs) ← char ']' cs
  let (p, cs) ← port cs
  some (⟨.v6 ip (BitVec.ofNat 32 scope), p⟩, cs)

end Reader

def ofText? (s : String) : Option Address :=
  match (Reader.socketV4 s.toList).orElse fun _ => Reader.socketV6 s.toList with
  | some (a, []) => some a
  | _ => none

end Foreman.Address
