import Std.Data.ExtTreeMap

/-!
# Addresses of workers

A worker is known by the address at which it is reached: a host, version 4 or 6, and a port. The
addresses are ordered: version 4 before version 6, then by host, by port, and by scope. Texts are
written and read in `Foreman.Net.Address.Printer` and `Foreman.Net.Address.Reader`.
-/

namespace Foreman

/-- The host part of an address. A version 6 host may name the scope in which it is valid; scope 0
names none. -/
inductive Host
  | v4 (ip : BitVec 32)
  | v6 (ip : BitVec 128) (scope : BitVec 32)
deriving DecidableEq, Repr

structure Address where
  host : Host
  port : BitVec 16
deriving DecidableEq, Repr

namespace Host

def version : Host → Nat
  | .v4 _ => 4
  | .v6 _ _ => 6

def number : Host → Nat
  | .v4 ip => ip.toNat
  | .v6 ip _ => ip.toNat

def scopeNumber : Host → Nat
  | .v4 _ => 0
  | .v6 _ scope => scope.toNat

theorem ext_numbers {a b : Host} (hv : a.version = b.version) (hn : a.number = b.number)
    (hs : a.scopeNumber = b.scopeNumber) : a = b := by
  cases a <;> cases b <;> simp_all [version, number, scopeNumber, BitVec.toNat_inj]

end Host

namespace Address

def order : Address → Address → Ordering :=
  compareLex (compareOn fun a => a.host.version) <|
    compareLex (compareOn fun a => a.host.number) <|
      compareLex (compareOn fun a => a.port.toNat) (compareOn fun a => a.host.scopeNumber)

instance : Ord Address := ⟨order⟩

instance : Std.TransOrd Address :=
  inferInstanceAs (Std.TransCmp (compareLex _ _))

theorem order_eq_eq {a b : Address} : order a b = .eq ↔ a = b := by
  simp only [order, compareLex_eq_eq, compareOn, Nat.compare_eq_eq]
  constructor
  · rintro ⟨hv, hn, hp, hs⟩
    cases a; cases b
    simp only [mk.injEq]
    exact ⟨Host.ext_numbers hv hn hs, BitVec.eq_of_toNat_eq hp⟩
  · rintro rfl
    exact ⟨rfl, rfl, rfl, rfl⟩

instance : Std.LawfulEqOrd Address where
  compare_self := order_eq_eq.2 rfl
  eq_of_compare := order_eq_eq.1

def loopback (port : BitVec 16) : Address :=
  ⟨.v4 0x7f000001, port⟩

end Address
end Foreman
