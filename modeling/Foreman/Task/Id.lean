import Std.Data.ExtTreeMap

/-!
# Names of tasks

A task is named by its kind and its number. Map tasks are numbered by input split, reduce tasks by
partition. All map tasks come before all reduce tasks.
-/

namespace Foreman

/-- The two kinds of task: map tasks read input, reduce tasks read what map tasks emit. -/
inductive Kind
  | map
  | reduce
deriving DecidableEq, Repr

structure TaskId where
  kind : Kind
  index : Nat
deriving DecidableEq, Repr

def Kind.name : Kind → String
  | .map => "Map"
  | .reduce => "Reduce"

namespace TaskId

def text (id : TaskId) : String :=
  s!"{id.kind.name} task #{id.index}"

/-- Map tasks come before reduce tasks. -/
def kindRank (id : TaskId) : Nat :=
  match id.kind with
  | .map => 0
  | .reduce => 1

def order : TaskId → TaskId → Ordering :=
  compareLex (compareOn kindRank) (compareOn TaskId.index)

instance : Ord TaskId := ⟨order⟩

instance : Std.TransOrd TaskId :=
  inferInstanceAs (Std.TransCmp (compareLex _ _))

theorem order_eq_eq {a b : TaskId} : order a b = .eq ↔ a = b := by
  obtain ⟨ka, ia⟩ := a
  obtain ⟨kb, ib⟩ := b
  cases ka <;> cases kb <;> simp [order, compareLex_eq_eq, compareOn, kindRank]

instance : Std.LawfulEqOrd TaskId where
  compare_self := order_eq_eq.2 rfl
  eq_of_compare := order_eq_eq.1

end TaskId
end Foreman
