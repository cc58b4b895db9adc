import Foreman.Ledger
import Foreman.Proofs.Table

/-!
# Changes of the ledger

How a ledger can move on to the next phase (`MovesOn`), and what the end of a dispatch can do to it
(`Ends`): nothing, or it takes the task back, or it completes the task. The operations of the ledger
do one of these and never refuse, as long as the job has a partition, the tasks they are about exist,
and nothing has been dealt out before the map phase closes.
-/

namespace Foreman

namespace Ledger

/-! ## 1. Moving on to the next phase -/

/-- A task is completed with an output; the phase has not moved on yet. -/
def complete (l : Ledger) (id : TaskId) (task : Task) (output : Output) : Ledger :=
  { l with tasks := l.tasks.set id { task with status := .completed output.result } }.gather id output

/-- The map phase is closed: the records are dealt out, and every partition is a task. -/
def closeMaps (l : Ledger) (n : Nat) : Ledger :=
  { l with
    tasks := { l.tasks with
      reduces := (Partition.deal n l.assembly.buffer).map fun p => { input := .partition p } }
    assembly := { l.assembly with
      buffer := [], partitions := some (Partition.deal n l.assembly.buffer) }
    phase := .reducing }

/-- The ledgers to which a ledger can move on, and the phase that begins. -/
inductive MovesOn (n : Nat) (l : Ledger) : Ledger → Option Phase → Prop
  | stays
      (hmap : l.phase = .mapping → l.tasks.allFinished .map = true → Assembly.maxPartitions < n)
      (hreduce : l.phase = .reducing → l.tasks.allFinished .reduce = false) : MovesOn n l l none
  | closesMaps (hp : l.phase = .mapping) (hf : l.tasks.allFinished .map = true)
      (hn : n ≤ Assembly.maxPartitions) : MovesOn n l (l.closeMaps n) (some .reducing)
  | closesReduces (hp : l.phase = .reducing) (hf : l.tasks.allFinished .reduce = true) :
      MovesOn n l { l with phase := .done } (some .done)

/-- While the job maps, nothing has been dealt out and there is no reduce task. -/
def Unclosed (l : Ledger) : Prop :=
  l.phase = .mapping → l.assembly.partitions = none ∧ l.tasks.reduces = []

theorem enterNext_movesOn {l : Ledger} {n : Nat} (hn : 0 < n) (hl : l.Unclosed) :
    ∃ change, l.enterNext n = .ok change ∧ MovesOn n l change.ledger change.entered := by
  unfold enterNext
  cases hp : l.phase with
  | mapping =>
    obtain ⟨hparts, hreds⟩ := hl hp
    by_cases hf : l.tasks.allFinished .map = true
    · simp only [if_pos hf]
      rw [Assembly.deal?_of_partitions_eq_none hparts hn]
      by_cases hmax : Assembly.maxPartitions < n
      · rw [if_pos hmax]
        exact ⟨_, rfl, .stays (fun _ _ => hmax) fun h => nomatch hp.symm.trans h⟩
      · rw [if_neg hmax]
        simp only [TaskTable.addReduces_of_reduces_eq_nil hreds]
        exact ⟨_, rfl, .closesMaps hp hf (Nat.le_of_not_lt hmax)⟩
    · simp only [if_neg hf]
      exact ⟨_, rfl, .stays (fun _ h => absurd h hf) fun h => nomatch hp.symm.trans h⟩
  | reducing =>
    by_cases hf : l.tasks.allFinished .reduce = true
    · simp only [if_pos hf]
      exact ⟨_, rfl, .closesReduces hp hf⟩
    · simp only [if_neg hf]
      exact ⟨_, rfl, .stays (fun h => nomatch hp.symm.trans h) fun _ => Bool.eq_false_iff.2 hf⟩
  | done =>
    exact ⟨_, rfl, .stays (fun h => nomatch hp.symm.trans h) fun h => nomatch hp.symm.trans h⟩

-- Moving on leaves the reservations, what is held back, and the error that was kept.
theorem MovesOn.frame {n : Nat} {l l' : Ledger} {entered : Option Phase}
    (hm : MovesOn n l l' entered) :
    ∃ tasks assembly phase, l' = { l with tasks, assembly, phase } := by
  cases hm with
  | stays => exact ⟨l.tasks, l.assembly, l.phase, rfl⟩
  | closesMaps => exact ⟨_, _, _, rfl⟩
  | closesReduces => exact ⟨l.tasks, l.assembly, .done, rfl⟩

theorem phase_of_movesOn {n : Nat} {l l' : Ledger} {entered : Option Phase}
    (h : MovesOn n l l' entered) : entered.getD l.phase = l'.phase := by
  cases h <;> rfl

/-! ## 2. What does not change -/

section

variable (l : Ledger) (id : TaskId) (task : Task) (output : Output) (worker : Address)

@[simp] theorem complete_tasks :
    (l.complete id task output).tasks =
      l.tasks.set id { task with status := .completed output.result } := by
  cases output <;> rfl

@[simp] theorem complete_phase : (l.complete id task output).phase = l.phase := by
  cases output <;> rfl

@[simp] theorem complete_partitions :
    (l.complete id task output).assembly.partitions = l.assembly.partitions := by
  cases output <;> rfl

@[simp] theorem unreserve_tasks : (l.unreserve worker id).tasks = l.tasks := by
  unfold unreserve; split <;> rfl

@[simp] theorem unreserve_assembly : (l.unreserve worker id).assembly = l.assembly := by
  unfold unreserve; split <;> rfl

@[simp] theorem unreserve_phase : (l.unreserve worker id).phase = l.phase := by
  unfold unreserve; split <;> rfl

@[simp] theorem unreserve_heldBack : (l.unreserve worker id).heldBack = l.heldBack := by
  unfold unreserve; split <;> rfl

end

theorem unreserve_reserved_of_eq {l : Ledger} {worker : Address} {id : TaskId}
    (h : l.reserved[worker]? = some id) :
    (l.unreserve worker id).reserved = l.reserved.erase worker := by
  rw [unreserve, if_pos h]

theorem Unclosed.complete {l : Ledger} (h : l.Unclosed) (id : TaskId) (task : Task)
    (output : Output) : (l.complete id task output).Unclosed := by
  intro hp
  rw [complete_phase] at hp
  obtain ⟨hparts, hreds⟩ := h hp
  rw [complete_partitions, complete_tasks]
  exact ⟨hparts, TaskTable.reduces_set_eq_nil hreds _ _⟩

theorem Unclosed.unreserve {l : Ledger} (h : l.Unclosed) (worker : Address) (id : TaskId) :
    (l.unreserve worker id).Unclosed := by
  intro hp
  rw [unreserve_phase] at hp
  rw [unreserve_assembly, unreserve_tasks]
  exact h hp

/-! ## 3. Ends of dispatches -/

/-- What the end of a call, whose task is given, can do to the tasks: nothing, take the task back, or
complete it with an output. The books of the call that is watched show whether its lease is current;
a late answer does not look at the lease. -/
inductive Ends (n : Nat) (l : Ledger) (call : Call) (task : Task) :
    Option Output → Ledger → Option Phase → Prop
  | keeps (h : call.isWatched = true → task.heldUnder call.lease = false) :
      Ends n l call task none l none
  | takesBack (hw : call.isWatched = true) (h : task.heldUnder call.lease = true)
      (heldBack : Std.ExtTreeMap TaskId Time) :
      Ends n l call task none
        { l with tasks := l.tasks.set call.task { task with status := .pending }, heldBack } none
  | completes {output : Output} {l' : Ledger} {entered : Option Phase}
      (h : task.status.stage = .dispatched)
      (hm : MovesOn n (l.complete call.task task output) l' entered) :
      Ends n l call task (some output) l' entered

-- So does the end of a call, but a task that is taken back can be held back.
theorem Ends.frame {n : Nat} {l l' : Ledger} {call : Call} {task : Task} {taken : Option Output}
    {entered : Option Phase} (he : Ends n l call task taken l' entered) :
    ∃ tasks assembly phase heldBack, l' = { l with tasks, assembly, phase, heldBack } ∧
      (taken.isSome = true → heldBack = l.heldBack) := by
  cases he with
  | keeps => exact ⟨l.tasks, l.assembly, l.phase, l.heldBack, rfl, fun _ => rfl⟩
  | takesBack _ _ heldBack =>
    exact ⟨_, l.assembly, l.phase, heldBack, rfl, fun h => nomatch h⟩
  | completes _ hm =>
    have ⟨tasks, assembly, phase, heq⟩ := hm.frame
    refine ⟨tasks, assembly, phase, l.heldBack, ?_, fun _ => rfl⟩
    rw [heq]
    unfold complete gather
    split
    · rfl
    · rfl

/-- The output that a task takes from a call: none unless it is dispatched. -/
def taken (task : Task) : Outcome → Option Output
  | .ok output => if task.status.stage = .dispatched then some output else none
  | .error _ => none

section

variable {l : Ledger} {call : Call} {task : Task} (htask : l.tasks.get? call.task = some task)

include htask

theorem accept_ends {n : Nat} (hn : 0 < n) (hl : l.Unclosed) (output : Output) :
    ∃ change, l.accept n call.task call.worker output = .ok change ∧
      Ends n l call task (taken task (.ok output)) change.ledger change.entered := by
  unfold accept taken
  rw [TaskTable.accept_of_get? htask]
  by_cases hs : task.status.stage = .dispatched
  · obtain ⟨change, hchange, hmoves⟩ :=
      enterNext_movesOn hn (hl.complete call.task task output)
    simp only [if_pos hs]
    unfold complete at hchange
    rw [hchange]
    exact ⟨_, rfl, .completes hs hmoves⟩
  · simp only [if_neg hs]
    exact ⟨_, rfl, .keeps fun _ => Task.not_heldUnder_of_stage hs⟩

theorem takeBack_ends (hw : call.isWatched = true) (n retryWarning : Nat) :
    ∃ change, l.takeBack retryWarning call.task call.lease =
        .ok (task.heldUnder call.lease, change) ∧
      Ends n l call task none change.ledger change.entered ∧
      (task.heldUnder call.lease = true → change.ledger =
        { l with tasks := l.tasks.set call.task { task with status := .pending } } ∧
          change.entered = none) := by
  unfold takeBack
  rw [TaskTable.takeBack_of_get? htask]
  cases hh : task.heldUnder call.lease with
  | true => exact ⟨_, rfl, .takesBack hw hh l.heldBack, fun _ => ⟨rfl, rfl⟩⟩
  | false => exact ⟨_, rfl, .keeps fun _ => hh, fun h => nomatch h⟩

end

section

variable {l : Ledger} {call : Call} {task : Task} (htask : l.tasks.get? call.task = some task)
  (job : Job)

include htask

theorem returned_ends (hl : l.Unclosed) (hw : call.isWatched = true) (config : Config) (now : Time)
    (outcome : Outcome) :
    Ends job.reduceCount (l.unreserve call.worker call.task) call task (taken task outcome)
      (l.returned job config now call outcome).ledger
      (l.returned job config now call outcome).entered := by
  have htask' : (l.unreserve call.worker call.task).tasks.get? call.task = some task := by
    rw [unreserve_tasks]; exact htask
  unfold returned
  cases outcome with
  | ok output =>
    obtain ⟨change, hchange, hends⟩ := accept_ends htask' job.reduceCount_pos
      (hl.unreserve call.worker call.task) output
    simp only [hchange]
    exact hends
  | error e =>
    obtain ⟨change, hchange, hends, hback⟩ :=
      takeBack_ends htask' hw job.reduceCount config.retryWarning
    simp only [hchange]
    cases hh : task.heldUnder call.lease with
    | true =>
      -- The task is held back on top of being taken back.
      obtain ⟨hledger, hentered⟩ := hback hh
      simp only [hledger, hentered]
      exact .takesBack hw hh _
    | false => exact hends

theorem missed_ends (hw : call.isWatched = true) (config : Config) :
    Ends job.reduceCount (l.unreserve call.worker call.task) call task none
      (l.missed config call).ledger (l.missed config call).entered := by
  have htask' : (l.unreserve call.worker call.task).tasks.get? call.task = some task := by
    rw [unreserve_tasks]; exact htask
  obtain ⟨change, hchange, hends, _⟩ :=
    takeBack_ends htask' hw job.reduceCount config.retryWarning
  unfold missed
  simp only [hchange]
  exact hends

theorem returnedLate_ends (hl : l.Unclosed) (hw : call.isWatched = false) (outcome : Outcome) :
    Ends job.reduceCount l call task (taken task outcome) (l.returnedLate job call outcome).ledger
      (l.returnedLate job call outcome).entered := by
  unfold returnedLate
  cases outcome with
  | ok output =>
    obtain ⟨change, hchange, hends⟩ := accept_ends htask job.reduceCount_pos hl output
    simp only [hchange]
    exact hends
  | error e => exact .keeps fun h => absurd h (by simp [hw])

end

/-! ## 4. Dispatches -/

-- A worker is chosen among those that are free.
theorem mem_of_preferred_eq_some {free : List Address} {last : Option Address} {worker : Address}
    (h : preferred free last = some worker) : worker ∈ free := by
  unfold preferred at h
  rcases Option.or_eq_some_iff.1 h with hfind | ⟨_, hhead⟩
  · exact List.mem_of_find?_eq_some hfind
  · exact List.mem_of_head? hhead

theorem preferred_eq_some {free : List Address} (h : free ≠ []) (last : Option Address) :
    ∃ worker, preferred free last = some worker := by
  have ⟨first, hfirst⟩ := Option.ne_none_iff_exists'.1 (mt List.head?_eq_none_iff.1 h)
  unfold preferred
  rw [hfirst]
  cases free.find? fun w => some w ≠ last with
  | none => exact ⟨first, rfl⟩
  | some worker => exact ⟨worker, rfl⟩

/-- The call that a dispatch of a task to a worker makes. -/
def callFor (job : Job) (config : Config) (now : Time) (id : TaskId) (task : Task)
    (worker : Address) : Call :=
  { task := id, worker, lease := task.attempts + 1, request := .ofInput job task.input
    made := now, deadline := now + config.dispatchTimeout }

/-- The ledger after the dispatch of a task to a worker. -/
def handedOut (l : Ledger) (id : TaskId) (task : Task) (worker : Address) (deadline : Time) :
    Ledger :=
  { l with
    tasks := l.tasks.set id (task.handTo worker deadline)
    reserved := l.reserved.insert worker id
    heldBack := l.heldBack.erase id }

-- In its phase the first task that is ready is handed out, if there is a worker for it.
theorem assign?_cases (l : Ledger) (job : Job) (config : Config) (now : Time) (alive : List Address)
    (kind : Kind) :
    (l.phase.kind = some kind → l.ready now kind = []) ∧
        l.assign? job config now alive kind = .ok none ∨
      ∃ id task, l.phase.kind = some kind ∧ id ∈ l.ready now kind ∧ l.tasks.get? id = some task ∧
        l.assign? job config now alive kind =
          .ok ((preferred (l.free alive) task.lastWorker).map fun worker =>
            (callFor job config now id task worker,
              l.handedOut id task worker (now + config.dispatchTimeout))) := by
  unfold assign?
  by_cases hkind : l.phase.kind = some kind
  · rw [if_neg (not_not_intro hkind)]
    cases hid : (l.ready now kind).head? with
    | none => exact .inl ⟨fun _ => List.head?_eq_none_iff.1 hid, rfl⟩
    | some id =>
      have hready : id ∈ l.ready now kind := List.mem_of_head? hid
      have ⟨_, task, htask, hpending⟩ := TaskTable.mem_pending.1 (List.mem_filter.1 hready).1
      refine .inr ⟨id, task, hkind, hready, htask, ?_⟩
      dsimp only
      rw [htask]
      dsimp only
      cases preferred (l.free alive) task.lastWorker with
      | none => rfl
      | some worker =>
        dsimp only
        rw [TaskTable.dispatch_of_isPending htask hpending]
        rfl
  · rw [if_pos hkind]
    exact .inl ⟨fun h => absurd h hkind, rfl⟩

-- A dispatch hands a task that is ready to a worker that is free, if it hands out any.
theorem assign?_eq_ok {l : Ledger} {job : Job} {config : Config} {now : Time}
    {alive : List Address} {kind : Kind} {found : Option (Call × Ledger)}
    (h : l.assign? job config now alive kind = .ok found) :
    found = none ∨ ∃ id task worker, l.phase.kind = some kind ∧ id ∈ l.ready now kind ∧
      l.tasks.get? id = some task ∧ worker ∈ l.free alive ∧
      found = some (callFor job config now id task worker,
        l.handedOut id task worker (now + config.dispatchTimeout)) := by
  rcases l.assign?_cases job config now alive kind with
    ⟨_, hassign⟩ | ⟨id, task, hkind, hready, htask, hassign⟩
  · rw [hassign] at h
    cases h
    exact .inl rfl
  · rw [hassign] at h
    cases h
    cases hworker : preferred (l.free alive) task.lastWorker with
    | none => exact .inl rfl
    | some worker =>
      exact .inr ⟨id, task, worker, hkind, hready, htask, mem_of_preferred_eq_some hworker, rfl⟩

theorem not_reserved_of_mem_free {l : Ledger} {alive : List Address} {worker : Address}
    (h : worker ∈ l.free alive) : l.reserved[worker]? = none := by
  have hc := (List.mem_filter.1 h).2
  rw [Bool.not_eq_true', Std.ExtTreeMap.contains_eq_isSome_getElem?] at hc
  exact Option.isSome_eq_false_iff.1 hc |> Option.isNone_iff_eq_none.1

end Ledger
end Foreman
