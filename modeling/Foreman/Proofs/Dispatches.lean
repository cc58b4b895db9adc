import Foreman.Proofs.Pacing

/-!
# What a dispatch picks

A dispatch wants the first task that is ready and a worker that is free: the least one that did not have
this task last, or the one that had it last if no other is free. If there are both, the task is handed to the
worker with its input and nothing else changes. Otherwise nothing changes at all (`dispatch_serves_first_ready`).
-/

namespace Foreman

namespace Monitor

/-! ## 1. Workers that are alive -/

/-- The worker is known, and it answered its latest probe. -/
def IsAlive (m : Monitor) (worker : Address) : Prop :=
  ∃ e, m.endpoints[worker]? = some e ∧ e.health = .alive

theorem mem_alive {m : Monitor} {worker : Address} : worker ∈ m.alive ↔ m.IsAlive worker := by
  simp only [alive, IsAlive, List.mem_map, List.mem_filter, Prod.exists, decide_eq_true_eq,
    Std.ExtTreeMap.mem_toList_iff_getElem?_eq_some]
  constructor
  · rintro ⟨_, e, ⟨he, halive⟩, rfl⟩
    exact ⟨e, he, halive⟩
  · rintro ⟨e, he, halive⟩
    exact ⟨worker, e, ⟨he, halive⟩, rfl⟩

theorem alive_ascending (m : Monitor) : m.alive.Pairwise fun a b => compare a b = .lt := by
  unfold alive
  rw [List.pairwise_map]
  exact Std.ExtTreeMap.ordered_keys_toList.filter _

end Monitor

namespace Ledger

/-! ## 2. Tasks that are ready and workers that are free -/

/-- The task can be dispatched now: it is of the kind, it is pending, and it is not held back. -/
def IsReady (l : Ledger) (now : Time) (kind : Kind) (id : TaskId) : Prop :=
  id.kind = kind ∧ l.tasks.IsPending id ∧ ¬ ∃ t, l.heldBack[id]? = some t ∧ now < t

/-- The worker can be given a task: it is alive, and not reserved. -/
def IsFree (l : Ledger) (m : Monitor) (worker : Address) : Prop :=
  m.IsAlive worker ∧ l.reserved[worker]? = none

theorem mem_ready_iff {l : Ledger} {now : Time} {kind : Kind} {id : TaskId} :
    id ∈ l.ready now kind ↔ l.IsReady now kind id := by
  rw [mem_ready, TaskTable.mem_pending, and_assoc]
  exact Iff.rfl

theorem ready_ascending (l : Ledger) (now : Time) (kind : Kind) :
    (l.ready now kind).Pairwise fun a b => a.index < b.index :=
  (TaskTable.idsWhere_ascending _ _ _).filter _

theorem mem_free {l : Ledger} {workers : List Address} {worker : Address} :
    worker ∈ l.free workers ↔ worker ∈ workers ∧ l.reserved[worker]? = none := by
  unfold free
  rw [List.mem_filter, Std.ExtTreeMap.contains_eq_isSome_getElem?, Bool.not_eq_true',
    Option.isSome_eq_false_iff, Option.isNone_iff_eq_none]

theorem mem_free_alive {l : Ledger} {m : Monitor} {worker : Address} :
    worker ∈ l.free m.alive ↔ l.IsFree m worker := by
  rw [mem_free, Monitor.mem_alive]
  exact Iff.rfl

theorem free_ascending (l : Ledger) (m : Monitor) :
    (l.free m.alive).Pairwise fun a b => compare a b = .lt :=
  m.alive_ascending.filter _

/-! ## 3. The worker for a task -/

/-- The worker is the one for a task among those that are free: the least of them that did not have the task
last, or the one that had it last if no other is free. -/
inductive Suits (free : Address → Prop) (last : Option Address) (worker : Address) : Prop
  | another (hfree : free worker) (hnew : last ≠ some worker)
      (hleast : ∀ w, free w → last ≠ some w → w = worker ∨ compare worker w = .lt)
  | again (hfree : free worker) (hlast : last = some worker) (honly : ∀ w, free w → w = worker)

theorem preferred_suits {free : List Address} (h : free.Pairwise fun a b => compare a b = .lt)
    {last : Option Address} {worker : Address} (hworker : preferred free last = some worker) :
    Suits (· ∈ free) last worker := by
  have hmem := mem_of_preferred_eq_some hworker
  rcases Option.or_eq_some_iff.1 hworker with hfind | ⟨hnone, _⟩
  · obtain ⟨hnew, before, after, rfl, hbefore⟩ := List.find?_eq_some_iff_append.1 hfind
    refine .another hmem (Ne.symm (of_decide_eq_true hnew)) ?_
    intro w hw hne
    rcases List.mem_append.1 hw with hw | hw
    · -- Whoever comes before in the order had the task last.
      have hold := hbefore w hw
      rw [Bool.not_eq_true', decide_eq_false_iff_not, not_not] at hold
      exact absurd hold.symm hne
    · rcases List.mem_cons.1 hw with rfl | hw
      · exact .inl rfl
      · have hafter := (List.pairwise_append.1 h).2.1
        exact .inr ((List.pairwise_cons.1 hafter).1 w hw)
  · have hlast : ∀ w ∈ free, last = some w := by
      intro w hw
      have hold := List.find?_eq_none.1 hnone w hw
      rw [decide_eq_true_eq, not_not] at hold
      exact hold.symm
    refine .again hmem (hlast worker hmem) ?_
    intro w hw
    exact Option.some.inj ((hlast w hw).symm.trans (hlast worker hmem))

theorem preferred_eq_none_iff {free : List Address} {last : Option Address} :
    preferred free last = none ↔ free = [] := by
  constructor
  · intro hnone
    by_contra hne
    obtain ⟨worker, hworker⟩ := preferred_eq_some hne last
    rw [hnone] at hworker
    cases hworker
  · rintro rfl
    rfl

end Ledger

namespace Coordinator

/-! ## 4. A dispatch -/

-- A dispatch does nothing for want of the phase, of a task or of a worker, or it hands the first task that is
-- ready to the worker that is preferred for it.
theorem dispatchOne_cases (c : Coordinator) (kind : Kind) :
    (c.phase.kind ≠ some kind ∨ c.ledger.ready c.now kind = [] ∨
        c.ledger.free c.monitor.alive = []) ∧
      c.dispatchOne kind = .ok (none, c) ∨
    ∃ id rest task worker, c.phase.kind = some kind ∧ c.ledger.ready c.now kind = id :: rest ∧
      c.ledger.tasks.get? id = some task ∧
      Ledger.preferred (c.ledger.free c.monitor.alive) task.lastWorker = some worker ∧
      c.dispatchOne kind = .ok (some id, c.hand id task worker) := by
  have hone : ∀ found, c.ledger.assign? c.job c.config c.now c.monitor.alive kind = .ok found →
      c.dispatchOne kind = .ok (match found with
        | none => (none, c)
        | some (call, ledger) => (some call.task, { c with ledger, calls := c.calls ++ [call] })) := by
    intro found hfound
    unfold dispatchOne
    rw [hfound]
    cases found with
    | none => rfl
    | some made => rfl
  rcases c.ledger.assign?_cases c.job c.config c.now c.monitor.alive kind with
    ⟨hnone, hassign⟩ | ⟨id, task, hkind, _, htask, hassign⟩
  · refine .inl ⟨?_, hone _ hassign⟩
    by_cases hkind : c.phase.kind = some kind
    · exact .inr (.inl (hnone hkind))
    · exact .inl hkind
  · cases hworker : Ledger.preferred (c.ledger.free c.monitor.alive) task.lastWorker with
    | none =>
      rw [hworker] at hassign
      exact .inl ⟨.inr (.inr (Ledger.preferred_eq_none_iff.1 hworker)), hone _ hassign⟩
    | some worker =>
      rw [hworker] at hassign
      obtain ⟨rest, hrest⟩ := List.head?_eq_some_iff.1 (Ledger.head?_ready_of_assign? hassign)
      exact .inr ⟨id, rest, task, worker, hkind, hrest, htask, hworker, hone _ hassign⟩

/-- There is nothing to dispatch: the kind is not that of the phase, or no task is ready, or every worker that
is alive is reserved. -/
def Idle (c : Coordinator) (kind : Kind) : Prop :=
  c.phase.kind ≠ some kind ∨ (∀ id, ¬ c.ledger.IsReady c.now kind id) ∨
    ∀ worker, c.monitor.IsAlive worker → ∃ id, c.ledger.reserved[worker]? = some id

/-- What a dispatch of a task to a worker takes, and what it leaves. -/
structure Dispatches (c : Coordinator) (kind : Kind) (id : TaskId) (task : Task) (worker : Address)
    (c' : Coordinator) : Prop where
  phase : c.phase.kind = some kind
  ready : c.ledger.IsReady c.now kind id
  /-- Of the tasks that are ready it is the first. -/
  first : ∀ other, c.ledger.IsReady c.now kind other → id.index ≤ other.index
  found : c.ledger.tasks.get? id = some task
  suits : Ledger.Suits (c.ledger.IsFree c.monitor) task.lastWorker worker
  dispatched : c'.ledger.tasks.get? id = some { task with
    status := .dispatched worker (c.now + c.config.dispatchTimeout) (task.attempts + 1)
    attempts := task.attempts + 1
    lastWorker := some worker }
  others : ∀ other, other ≠ id → c'.ledger.tasks.get? other = c.ledger.tasks.get? other
  reserved : ∀ w, c'.ledger.reserved[w]? = if w = worker then some id else c.ledger.reserved[w]?
  heldBack : ∀ other,
    c'.ledger.heldBack[other]? = if other = id then none else c.ledger.heldBack[other]?
  /-- A counter of 32 bits goes up by one as well. It is at the number of dispatches below 2 ^ 32 of them. -/
  counter : ∀ after, c'.ledger.tasks.get? id = some after → after.counter = task.counter + 1 ∧
    (after.attempts < 2 ^ 32 → after.counter.toNat = task.counter.toNat + 1)
  /-- One call is made. It asks for the map function of the job over the split of the task, or for the reduce
  function over the records of its partition, the values of each key one after the other. -/
  calls : ∃ request, c'.calls = c.calls ++ [{
      task := id, worker, lease := task.attempts + 1, request
      made := c.now, deadline := c.now + c.config.dispatchTimeout, state := .watched }] ∧
    (∀ path, task.input = .split path → request = .map path c.job.mapFunction) ∧
    ∀ p, task.input = .partition p → request = .reduce
      (p.toList.flatMap fun (key, values) => values.map fun value => { key, value }) c.job.reduceFunction
  /-- Nothing else changes. -/
  rest : c' = { c with
    calls := c'.calls
    ledger := { c.ledger with
      tasks := c'.ledger.tasks, reserved := c'.ledger.reserved, heldBack := c'.ledger.heldBack } }

section

variable {c : Coordinator} {kind : Kind}

theorem idle_iff : c.Idle kind ↔ c.phase.kind ≠ some kind ∨ c.ledger.ready c.now kind = [] ∨
    c.ledger.free c.monitor.alive = [] := by
  simp only [Idle, List.eq_nil_iff_forall_not_mem, Ledger.mem_ready_iff, Ledger.mem_free_alive,
    Ledger.IsFree, not_and, ← Option.ne_none_iff_exists', ne_eq]

theorem dispatches_hand {id : TaskId} {rest : List TaskId} {task : Task} {worker : Address}
    (hkind : c.phase.kind = some kind) (hready : c.ledger.ready c.now kind = id :: rest)
    (htask : c.ledger.tasks.get? id = some task)
    (hworker : Ledger.preferred (c.ledger.free c.monitor.alive) task.lastWorker = some worker) :
    c.Dispatches kind id task worker (c.hand id task worker) := by
  have hmem : id ∈ c.ledger.ready c.now kind := by
    rw [hready]
    exact List.mem_cons_self
  have hget := TaskTable.get?_set htask (task.handTo worker (c.now + c.config.dispatchTimeout))
  have hsuits := Ledger.preferred_suits (c.ledger.free_ascending c.monitor) hworker
  simp only [Ledger.mem_free_alive] at hsuits
  refine ⟨hkind, Ledger.mem_ready_iff.1 hmem, ?_, htask, hsuits, get?_hand htask, ?_, ?_, ?_, ?_,
    ⟨_, rfl, ?_, ?_⟩, rfl⟩
  · intro other hother
    rw [← Ledger.mem_ready_iff, hready] at hother
    rcases List.mem_cons.1 hother with rfl | hrest
    · exact Nat.le_refl _
    · have hascending := c.ledger.ready_ascending c.now kind
      rw [hready] at hascending
      exact Nat.le_of_lt ((List.pairwise_cons.1 hascending).1 other hrest)
  · intro other hne
    exact (hget other).trans (if_neg hne)
  · intro w
    show (c.ledger.reserved.insert worker id)[w]? = _
    rw [Std.ExtTreeMap.getElem?_insert]
    simp only [Std.LawfulEqCmp.compare_eq_iff_eq, eq_comm (a := w)]
  · intro other
    show (c.ledger.heldBack.erase id)[other]? = _
    rw [Std.ExtTreeMap.getElem?_erase]
    simp only [Std.LawfulEqCmp.compare_eq_iff_eq, eq_comm (a := other)]
  · intro after hafter
    cases (get?_hand htask).symm.trans hafter
    refine ⟨task.counter_handTo worker _, ?_⟩
    intro hbound
    rw [Task.toNat_counter hbound, Task.toNat_counter (Nat.lt_of_succ_lt hbound)]
    rfl
  · intro path hinput
    rw [hinput]
    rfl
  · intro p hinput
    rw [hinput]
    rfl

end

/-- Whatever the state of a coordinator and whoever is alive, a dispatch does nothing just if there is nothing
to dispatch. Otherwise it hands the first task that is ready, even if earlier ones are held back, to the
worker that suits it, in one call that carries the task's own input. It changes what this takes and nothing
else, and it is never an error. -/
theorem dispatch_serves_first_ready (c : Coordinator) (kind : Kind) :
    (c.dispatchOne kind = .ok (none, c) ↔ c.Idle kind) ∧
    (c.Idle kind ∨ ∃ id task worker c', c.dispatchOne kind = .ok (some id, c') ∧
      c.Dispatches kind id task worker c') := by
  rcases c.dispatchOne_cases kind with
    ⟨hidle, hone⟩ | ⟨id, rest, task, worker, hkind, hready, htask, hworker, hone⟩
  · have hidle := idle_iff.2 hidle
    exact ⟨iff_of_true hone hidle, .inl hidle⟩
  · have hnot : ¬ c.Idle kind := by
      rw [idle_iff, hready]
      rintro (hphase | hnil | hfree)
      · exact hphase hkind
      · cases hnil
      · rw [hfree] at hworker
        cases hworker
    have hdispatches := dispatches_hand hkind hready htask hworker
    refine ⟨iff_of_false ?_ hnot, .inr ⟨id, task, worker, _, hone, hdispatches⟩⟩
    intro hnone
    rw [hone] at hnone
    cases hnone

-- A task that has failed is passed over at first, and then goes to another worker.
example :
    let failed := pairStart.steps [.probed (.loopback 1) true, .probed (.loopback 2) true,
      .dispatch .map [.loopback 1], .answer 0 (.error (.refused (.loopback 1)))]
    ((failed.handle (.dispatch .map)).calls.map fun call => (call.task.index, call.worker)) =
        [(0, .loopback 1), (1, .loopback 1)] ∧
      (((failed.step (.tick 200)).handle (.dispatch .map)).calls.map
        fun call => (call.task.index, call.worker)) = [(0, .loopback 1), (0, .loopback 2)] := by
  decide +kernel

end Coordinator
end Foreman
