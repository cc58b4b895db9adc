import Foreman.Task

/-!
# The table of all tasks of a job

The table decides which moves a task may make: from pending to dispatched, from dispatched to
completed, and from dispatched back to pending under the lease of that very dispatch. A move that
is not allowed is an error, or answers `false`; it leaves the table as it was. Tasks are kept by
kind and number, so a task is never found under another name than its own.
-/

namespace Foreman

structure TaskTable where
  maps : List Task
  reduces : List Task
deriving DecidableEq

namespace TaskTable

def ofSplits (splits : List String) : TaskTable :=
  ⟨splits.map fun path => { input := .split path }, []⟩

/-! ## 1. Looking up -/

def ofKind (t : TaskTable) : Kind → List Task
  | .map => t.maps
  | .reduce => t.reduces

def get? (t : TaskTable) (id : TaskId) : Option Task :=
  (t.ofKind id.kind)[id.index]?

def idsWhere (t : TaskTable) (kind : Kind) (p : Task → Bool) : List TaskId :=
  ((t.ofKind kind).zipIdx.filter fun (task, _) => p task).map fun (_, i) => ⟨kind, i⟩

def pending (t : TaskTable) (kind : Kind) : List TaskId :=
  t.idsWhere kind Task.isPending

/-- Whether every task of a kind is completed, which holds if there is none. -/
def allFinished (t : TaskTable) (kind : Kind) : Bool :=
  (t.ofKind kind).all Task.isFinished

def count (t : TaskTable) (kind : Kind) : Nat :=
  (t.ofKind kind).length

def finishedCount (t : TaskTable) (kind : Kind) : Nat :=
  (t.ofKind kind).countP Task.isFinished

def stuck (t : TaskTable) (threshold : Nat) : List TaskId :=
  let isStuck (task : Task) := !task.isFinished && threshold < task.attempts
  t.idsWhere .map isStuck ++ t.idsWhere .reduce isStuck

/-! ## 2. Moves -/

def set (t : TaskTable) (id : TaskId) (task : Task) : TaskTable :=
  match id.kind with
  | .map => { t with maps := t.maps.set id.index task }
  | .reduce => { t with reduces := t.reduces.set id.index task }

theorem get?_set_self {t : TaskTable} {id : TaskId} {old : Task} (h : t.get? id = some old)
    (task : Task) : (t.set id task).get? id = some task := by
  obtain ⟨kind, i⟩ := id
  cases kind <;> exact List.getElem?_set_self (List.getElem?_eq_some_iff.1 h).1

theorem get?_set_of_ne (t : TaskTable) {id other : TaskId} (h : id ≠ other) (task : Task) :
    (t.set id task).get? other = t.get? other := by
  obtain ⟨kind, i⟩ := id
  obtain ⟨kind', j⟩ := other
  cases kind <;> cases kind' <;> simp_all [get?, set, ofKind]

def dispatch (t : TaskTable) (id : TaskId) (worker : Address) (deadline : Time) :
    Except Error (Nat × TaskTable) :=
  match t.get? id with
  | none => .error (.unknownTask id)
  | some task =>
    if task.isPending then .ok (task.attempts + 1, t.set id (task.handTo worker deadline))
    else .error (.invalidTransition id task.status.stage)

/-- Completes a dispatched task, whatever its lease. The answer is `false` for a task that is
completed already or went back to pending. -/
def accept (t : TaskTable) (id : TaskId) (result : TaskResult) : Except Error (Bool × TaskTable) :=
  match t.get? id with
  | none => .error (.unknownTask id)
  | some task =>
    if task.status.stage = .dispatched then
      .ok (true, t.set id { task with status := .completed result })
    else .ok (false, t)

/-- Takes a task back to pending if it is still dispatched under the given lease, and answers
whether it was. -/
def takeBack (t : TaskTable) (id : TaskId) (lease : Nat) : Except Error (Bool × TaskTable) :=
  match t.get? id with
  | none => .error (.unknownTask id)
  | some task =>
    if task.heldUnder lease then .ok (true, t.set id { task with status := .pending })
    else .ok (false, t)

/-- Adds one pending reduce task for every partition, unless there are reduce tasks already. -/
def addReduces (t : TaskTable) (partitions : List Partition) : Except Error TaskTable :=
  match t.reduces with
  | first :: _ => .error (.invalidTransition ⟨.reduce, 0⟩ first.status.stage)
  | [] => .ok { t with reduces := partitions.map fun p => { input := .partition p } }

end TaskTable
end Foreman
