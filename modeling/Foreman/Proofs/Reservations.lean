import Foreman.Proofs.Effects

/-!
# Reservations, leases and watched calls

A dispatch reserves a worker, puts its task under a lease, and makes a call that is watched until it
returns or its deadline takes effect. The three are recorded in different places, and they agree in
every state (`reservations_match_watched_calls`). So a worker can be freed by its name and the task
alone, although the lease is not looked at.
-/

namespace Foreman

namespace Ledger

/-! ## 1. What the end of a call does to reservations and leases -/

theorem Ends.reserved {n : Nat} {l l' : Ledger} {call : Call} {task : Task} {taken : Option Output}
    {entered : Option Phase} (he : Ends n l call task taken l' entered) :
    l'.reserved = l.reserved := by
  have ⟨_, _, _, _, heq, _⟩ := he.frame
  rw [heq]

-- When a watched call has ended, its task is not held under its lease any more.
theorem Ends.not_heldUnder {n : Nat} {l l' : Ledger} {call : Call} {task new : Task}
    {taken : Option Output} {entered : Option Phase} (he : Ends n l call task taken l' entered)
    (hw : call.isWatched = true) (htask : l.tasks.get? call.task = some task)
    (hnew : l'.tasks.get? call.task = some new) : new.heldUnder call.lease = false := by
  cases he with
  | keeps h =>
    cases htask.symm.trans hnew
    exact h hw
  | takesBack =>
    cases (TaskTable.get?_set_self htask _).symm.trans hnew
    rfl
  | completes _ hm =>
    rcases hm.get?_cases hnew with hold | ⟨_, p, rfl⟩
    · rw [complete_tasks, TaskTable.get?_set_self htask] at hold
      cases hold
      rfl
    · rfl

end Ledger

namespace Coordinator

/-! ## 2. Watched calls -/

/-- The call of that number is watched: it has not returned and its deadline has not taken effect. -/
def Watched (c : Coordinator) (n : Nat) (call : Call) : Prop :=
  c.calls[n]? = some call ∧ call.isWatched = true

section

variable {c c' : Coordinator} {call : Call} {n : Nat}

theorem watched_append (hcalls : c'.calls = c.calls ++ [call]) (hw : call.isWatched = true) (m : Nat)
    (found : Call) :
    c'.Watched m found ↔ c.Watched m found ∨ m = c.calls.length ∧ found = call := by
  unfold Watched
  rw [hcalls, List.getElem?_append]
  by_cases hm : m < c.calls.length
  · rw [if_pos hm]
    exact (or_iff_left fun h => Nat.ne_of_lt hm h.1).symm
  · rw [if_neg hm, List.getElem?_eq_none (Nat.le_of_not_lt hm)]
    constructor
    · intro ⟨hfound, _⟩
      have ⟨hlen, heq⟩ := List.getElem?_eq_some_iff.1 hfound
      rw [List.length_singleton] at hlen
      rw [List.getElem_singleton] at heq
      exact .inr ⟨by omega, heq.symm⟩
    · rintro (⟨hfound, _⟩ | ⟨rfl, rfl⟩)
      · cases hfound
      · rw [Nat.sub_self]
        exact ⟨rfl, hw⟩

theorem watched_modify {state : CallState} (hs : state ≠ .watched)
    (hcalls : c'.calls = c.calls.modify n fun call => { call with state }) (m : Nat) (found : Call) :
    c'.Watched m found ↔ m ≠ n ∧ c.Watched m found := by
  unfold Watched
  rw [hcalls, List.getElem?_modify]
  by_cases hm : n = m
  · simp only [if_pos hm]
    constructor
    · intro ⟨hfound, hw⟩
      have ⟨_, _, heq⟩ := Option.map_eq_some_iff.1 hfound
      rw [← heq] at hw
      exact absurd (of_decide_eq_true hw) hs
    · intro ⟨hne, _⟩
      exact absurd hm.symm hne
  · simp only [if_neg hm]
    change (Option.map id _ = _ ∧ _) ↔ _
    rw [Option.map_id_fun, id]
    exact (and_iff_right (Ne.symm hm)).symm

end

/-! ## 3. The invariant -/

/-- Reservations are the watched calls, and dispatched tasks are held under leases of watched calls. -/
structure Leased (c : Coordinator) : Prop where
  reserved : ∀ w id, c.ledger.reserved[w]? = some id ↔
    ∃ n call, c.Watched n call ∧ call.worker = w ∧ call.task = id
  oneWorker : ∀ n m a b, c.Watched n a → c.Watched m b → a.worker = b.worker → n = m
  oneTask : ∀ n m a b, c.Watched n a → c.Watched m b → a.task = b.task → n = m
  dispatched : ∀ id task w d l, c.ledger.tasks.get? id = some task →
    task.status = .dispatched w d l →
    ∃ n call, c.Watched n call ∧ call.task = id ∧ call.worker = w ∧ call.deadline = d ∧
      call.lease = l ∧ l = task.attempts
  watched : ∀ n call, c.Watched n call → ∃ task, c.ledger.tasks.get? call.task = some task ∧
    (task.status = .dispatched call.worker call.deadline call.lease ∨ task.isFinished = true)

/-! ## 4. Every step keeps it -/

section

variable {c c' : Coordinator} (h : c.Leased)

include h

-- A worker that is free holds no watched call, and a task that is pending has none.
theorem Leased.worker_ne {worker : Address} (hfree : c.ledger.reserved[worker]? = none) {n : Nat}
    {call : Call} (hcall : c.Watched n call) : call.worker ≠ worker := by
  intro hw
  have hreserved := (h.reserved call.worker call.task).2 ⟨n, call, hcall, rfl, rfl⟩
  rw [hw, hfree] at hreserved
  cases hreserved

theorem Leased.task_ne {id : TaskId} {task : Task} (htask : c.ledger.tasks.get? id = some task)
    (hpending : task.isPending = true) {n : Nat} {call : Call} (hcall : c.Watched n call) :
    call.task ≠ id := by
  intro ht
  obtain ⟨found, hfound, hs⟩ := h.watched n call hcall
  rw [ht, htask] at hfound
  cases hfound
  rw [Task.isPending_eq_true_iff] at hpending
  rw [Task.isFinished_eq_true_iff, hpending] at hs
  rcases hs with hs | ⟨_, hr⟩
  · cases hs
  · cases hr

omit h in
theorem unique_append {α : Type} (part : Call → α) {n : Nat} {call : Call}
    (hwatched : ∀ m found, c'.Watched m found ↔ c.Watched m found ∨ m = n ∧ found = call)
    (hold : ∀ m k a b, c.Watched m a → c.Watched k b → part a = part b → m = k)
    (hnew : ∀ m found, c.Watched m found → part found ≠ part call) (m k : Nat) (a b : Call)
    (ha : c'.Watched m a) (hb : c'.Watched k b) (hab : part a = part b) : m = k := by
  rcases (hwatched m a).1 ha with ha | ⟨hm, ha⟩
  · rcases (hwatched k b).1 hb with hb | ⟨_, hb⟩
    · exact hold m k a b ha hb hab
    · rw [hb] at hab
      exact absurd hab (hnew m a ha)
  · rcases (hwatched k b).1 hb with hb | ⟨hk, _⟩
    · rw [ha] at hab
      exact absurd hab.symm (hnew k b hb)
    · rw [hm, hk]

theorem Leased.reserved_insert {id : TaskId} {worker : Address} {n : Nat} {call : Call}
    (hfree : c.ledger.reserved[worker]? = none) (hworker : call.worker = worker)
    (hid : call.task = id)
    (hwatched : ∀ m found, c'.Watched m found ↔ c.Watched m found ∨ m = n ∧ found = call)
    (w : Address) (other : TaskId) :
    (c.ledger.reserved.insert worker id)[w]? = some other ↔
      ∃ m found, c'.Watched m found ∧ found.worker = w ∧ found.task = other := by
  rw [Std.ExtTreeMap.getElem?_insert]
  simp only [Std.LawfulEqCmp.compare_eq_iff_eq]
  by_cases hw : worker = w
  · rw [if_pos hw]
    constructor
    · intro heq
      rw [Option.some.injEq] at heq
      exact ⟨n, call, (hwatched n call).2 (.inr ⟨rfl, rfl⟩), hworker.trans hw, hid.trans heq⟩
    · rintro ⟨m, found, hfound, hfw, hft⟩
      rcases (hwatched m found).1 hfound with hold | ⟨_, hnew⟩
      · exact absurd (hfw.trans hw.symm) (h.worker_ne hfree hold)
      · rw [← hft, hnew, hid]
  · rw [if_neg hw, h.reserved]
    constructor
    · rintro ⟨m, found, hfound, hrest⟩
      exact ⟨m, found, (hwatched m found).2 (.inl hfound), hrest⟩
    · rintro ⟨m, found, hfound, hfw, hft⟩
      rcases (hwatched m found).1 hfound with hold | ⟨_, hnew⟩
      · exact ⟨m, found, hold, hfw, hft⟩
      · rw [hnew, hworker] at hfw
        exact absurd hfw hw

-- The call that is made joins the watched ones.
theorem Leased.hands {id : TaskId} {task : Task} {worker : Address} {n : Nat}
    (htask : c.ledger.tasks.get? id = some task) (hpending : task.isPending = true)
    (hfree : c.ledger.reserved[worker]? = none)
    (hledger : c'.ledger = c.ledger.handedOut id task worker (c.now + c.config.dispatchTimeout))
    (hwatched : ∀ m found, c'.Watched m found ↔ c.Watched m found ∨
      m = n ∧ found = Ledger.callFor c.job c.config c.now id task worker) : c'.Leased := by
  have hget : ∀ other, c'.ledger.tasks.get? other = if other = id
      then some (task.handTo worker (c.now + c.config.dispatchTimeout))
      else c.ledger.tasks.get? other := by
    rw [hledger]
    exact TaskTable.get?_set htask _
  have hmade := (hwatched n _).2 (.inr ⟨rfl, rfl⟩)
  refine ⟨?_, unique_append _ hwatched h.oneWorker fun _ _ => h.worker_ne hfree,
    unique_append _ hwatched h.oneTask fun _ _ => h.task_ne htask hpending, ?_, ?_⟩
  · rw [hledger]
    exact h.reserved_insert hfree rfl rfl hwatched
  · intro other found w d l hfound hs
    rw [hget] at hfound
    split at hfound
    · rename_i heq
      cases hfound
      cases hs
      exact ⟨n, _, hmade, heq.symm, rfl, rfl, rfl, rfl⟩
    · obtain ⟨m, call, hcall, hrest⟩ := h.dispatched other found w d l hfound hs
      exact ⟨m, call, (hwatched m call).2 (.inl hcall), hrest⟩
  · intro m call hcall
    rcases (hwatched m call).1 hcall with hold | ⟨_, hnew⟩
    · rw [hget, if_neg (h.task_ne htask hpending hold)]
      exact h.watched m call hold
    · rw [hnew]
      exact ⟨_, (hget id).trans (if_pos rfl), .inl rfl⟩

-- When a watched call is released by its worker and its task alone, the reservations that stay are
-- those of the other watched calls.
theorem Leased.unreserve {n : Nat} {call : Call} (hcall : c.Watched n call) (w : Address)
    (id : TaskId) :
    (c.ledger.unreserve call.worker call.task).reserved[w]? = some id ↔
      ∃ m other, m ≠ n ∧ c.Watched m other ∧ other.worker = w ∧ other.task = id := by
  have hheld := (h.reserved call.worker call.task).2 ⟨n, call, hcall, rfl, rfl⟩
  rw [Ledger.unreserve_reserved_of_eq hheld, Std.ExtTreeMap.getElem?_erase]
  simp only [Std.LawfulEqCmp.compare_eq_iff_eq]
  by_cases hworker : call.worker = w
  · -- The one reservation of this worker was that of the call, and it is gone.
    rw [if_pos hworker]
    refine iff_of_false (fun hnone => nomatch hnone) ?_
    intro ⟨m, other, hne, hother, hw, _⟩
    exact hne (h.oneWorker m n other call hother hcall (hw.trans hworker.symm))
  · rw [if_neg hworker, h.reserved]
    constructor
    · intro ⟨m, other, hother, hw, ht⟩
      refine ⟨m, other, ?_, hother, hw, ht⟩
      intro hm
      subst hm
      have heq : other = call := Option.some.inj (hother.1.symm.trans hcall.1)
      rw [heq] at hw
      exact hworker hw
    · intro ⟨m, other, _, hother, hrest⟩
      exact ⟨m, other, hother, hrest⟩

theorem Leased.reserved_released {n : Nat} {call : Call} (hcall : c.calls[n]? = some call)
    (hwatched : ∀ m found, c'.Watched m found ↔ m ≠ n ∧ c.Watched m found) (w : Address)
    (id : TaskId) :
    (c.released call).reserved[w]? = some id ↔
      ∃ m found, c'.Watched m found ∧ found.worker = w ∧ found.task = id := by
  by_cases hw : call.isWatched = true
  · rw [released, if_pos hw, h.unreserve ⟨hcall, hw⟩]
    constructor
    · rintro ⟨m, other, hne, hother, hrest⟩
      exact ⟨m, other, (hwatched m other).2 ⟨hne, hother⟩, hrest⟩
    · rintro ⟨m, other, hother, hrest⟩
      obtain ⟨hne, hother⟩ := (hwatched m other).1 hother
      exact ⟨m, other, hne, hother, hrest⟩
  · -- A call that is overdue holds no reservation any more.
    rw [released, if_neg hw, h.reserved]
    constructor
    · rintro ⟨m, found, hfound, hrest⟩
      refine ⟨m, found, (hwatched m found).2 ⟨?_, hfound⟩, hrest⟩
      intro hm
      have heq : found = call := Option.some.inj ((hm ▸ hfound.1).symm.trans hcall)
      rw [← heq] at hw
      exact hw hfound.2
    · rintro ⟨m, found, hfound, hrest⟩
      exact ⟨m, found, ((hwatched m found).1 hfound).2, hrest⟩

-- The call that ends leaves the watched ones, and with it goes its reservation and no other.
theorem Leased.ends (hregular : c.Regular) {n : Nat} {call : Call} {task : Task}
    {taken : Option Output} {entered : Option Phase} (hcall : c.calls[n]? = some call)
    (htask : c.ledger.tasks.get? call.task = some task)
    (hends : Ledger.Ends c.job.reduceCount (c.released call) call task taken c'.ledger entered)
    (hwatched : ∀ m found, c'.Watched m found ↔ m ≠ n ∧ c.Watched m found) : c'.Leased := by
  have htasks := c.released_tasks call
  refine ⟨?_, ?_, ?_, ?_, ?_⟩
  · rw [hends.reserved]
    exact h.reserved_released hcall hwatched
  · intro m k a b ha hb
    exact h.oneWorker m k a b ((hwatched m a).1 ha).2 ((hwatched k b).1 hb).2
  · intro m k a b ha hb
    exact h.oneTask m k a b ((hwatched m a).1 ha).2 ((hwatched k b).1 hb).2
  · intro id new w d l hnew hs
    rcases hends.get?_cases (htasks ▸ htask) hnew with hold | ⟨_, hstage⟩ | hp
    · rw [htasks] at hold
      obtain ⟨m, found, hfound, hft, hrest⟩ := h.dispatched id new w d l hold hs
      refine ⟨m, found, (hwatched m found).2 ⟨?_, hfound⟩, hft, hrest⟩
      -- A task that is held under the lease of the call that ends is not held any more.
      intro hm
      have heq : found = call := Option.some.inj ((hm ▸ hfound.1).symm.trans hcall)
      subst heq
      have hnot := hends.not_heldUnder hfound.2 (htasks ▸ htask) (hft ▸ hnew)
      rw [Bool.eq_false_iff, ne_eq, Task.heldUnder_eq_true_iff, hrest.2.2.1] at hnot
      exact hnot ⟨w, d, hs⟩
    · rw [hs] at hstage
      exact absurd rfl hstage
    · rw [hs] at hp
      cases hp
  · intro m found hfound
    obtain ⟨hne, hfound⟩ := (hwatched m found).1 hfound
    obtain ⟨old, hold, hs⟩ := h.watched m found hfound
    obtain ⟨new, hnew, _, hcases⟩ :=
      hends.get?_of_eq_some (hregular.released call) (htasks ▸ htask) (htasks ▸ hold)
    refine ⟨new, hnew, ?_⟩
    rcases hcases with rfl | ⟨hft, ⟨hw, _⟩ | hf⟩
    · exact hs
    · -- Only a watched call takes its task back, and no other watched call has this task.
      exact absurd (h.oneTask m n found call hfound ⟨hcall, hw⟩ hft) hne
    · exact .inr hf

end

theorem Effect.leased {c c' : Coordinator} {accepted : Option (TaskId × Output)}
    (he : Effect c accepted c') (hregular : c.Regular) (h : c.Leased) : c'.Leased := by
  cases he with
  | idle => exact ⟨h.reserved, h.oneWorker, h.oneTask, h.dispatched, h.watched⟩
  | hands id task worker _ htask hpending hfree =>
    exact h.hands htask hpending hfree rfl (watched_append rfl rfl)
  | ends n call task state hcall _ hstate htask hends =>
    exact h.ends hregular hcall htask hends (watched_modify hstate rfl)

theorem leased_of_create? {job : Job} {workers : List Address} {config : Config} {c : Coordinator}
    (h : create? job workers config = .ok c) : c.Leased := by
  have ⟨_, _, hcalls, _, _, hm⟩ := create?_eq_ok h
  have hnone : ∀ n call, ¬ c.Watched n call := by
    intro n call hw
    have hcall := hw.1
    rw [hcalls] at hcall
    cases hcall
  refine ⟨?_, fun n _ a _ ha => absurd ha (hnone n a), fun n _ a _ ha => absurd ha (hnone n a), ?_,
    fun n call hw => absurd hw (hnone n call)⟩
  · intro w id
    have ⟨_, _, _, heq⟩ := hm.frame
    rw [heq]
    refine iff_of_false ?_ fun ⟨n, call, hw, _⟩ => hnone n call hw
    simp
  · intro id task w d l htask hs
    rcases hm.get?_cases htask with hold | ⟨_, p, rfl⟩
    · obtain ⟨kind, i⟩ := id
      cases kind with
      | map =>
        rw [TaskTable.get?_ofSplits_map] at hold
        have ⟨_, _, heq⟩ := Option.map_eq_some_iff.1 hold
        rw [← heq] at hs
        cases hs
      | reduce =>
        rw [TaskTable.get?_ofSplits_reduce] at hold
        cases hold
    · cases hs

theorem Leased.steps {c : Coordinator} (hregular : c.Regular) (h : c.Leased) (run : List Step) :
    (c.steps run).Leased := by
  refine steps_induct (P := fun c _ => c.Leased) ?_ hregular [] h run
  intro _ _ _ _ hr he hl
  exact he.leased hr hl

/-! ## 5. The three records agree -/

/-- In every state the reservations are the watched calls, of which every worker and every task has
one at most. A dispatched task is held under its latest lease, that of a watched call; the task of a
watched call is dispatched under the lease of that call, or completed. So no two dispatched tasks
share a worker, and a release leaves the reservations of all other watched calls as they are. -/
theorem reservations_match_watched_calls {job : Job} {workers : List Address} {config : Config}
    {c₀ : Coordinator} (h : create? job workers config = .ok c₀) (run : List Step) :
    let c := c₀.steps run
    (∀ w id, c.ledger.reserved[w]? = some id ↔
      ∃ n call, c.Watched n call ∧ call.worker = w ∧ call.task = id) ∧
    (∀ n m a b, c.Watched n a → c.Watched m b → a.worker = b.worker ∨ a.task = b.task → n = m) ∧
    (∀ id task w d l, c.ledger.tasks.get? id = some task → task.status = .dispatched w d l →
      l = task.attempts ∧
        ∃ n call, c.Watched n call ∧ call.task = id ∧ call.worker = w ∧ call.lease = l) ∧
    (∀ n call, c.Watched n call → ∃ task, c.ledger.tasks.get? call.task = some task ∧
      (task.status = .dispatched call.worker call.deadline call.lease ∨
        ∃ r, task.status = .completed r)) ∧
    (∀ id id' task task' w d d' l l', c.ledger.tasks.get? id = some task →
      c.ledger.tasks.get? id' = some task' → task.status = .dispatched w d l →
      task'.status = .dispatched w d' l' → id = id') ∧
    ∀ n call, c.Watched n call → ∀ w id,
      (c.ledger.unreserve call.worker call.task).reserved[w]? = some id ↔
        ∃ m other, m ≠ n ∧ c.Watched m other ∧ other.worker = w ∧ other.task = id := by
  intro c
  have hl : c.Leased := (leased_of_create? h).steps (regular_of_create? h) run
  refine ⟨hl.reserved, ?_, ?_, ?_, ?_, fun n call => hl.unreserve⟩
  · intro n m a b ha hb hab
    rcases hab with hab | hab
    · exact hl.oneWorker n m a b ha hb hab
    · exact hl.oneTask n m a b ha hb hab
  · intro id task w d l htask hs
    have ⟨n, call, hcall, hid, hw, _, hlease, hattempts⟩ := hl.dispatched id task w d l htask hs
    exact ⟨hattempts, n, call, hcall, hid, hw, hlease⟩
  · intro n call hcall
    have ⟨task, htask, hs⟩ := hl.watched n call hcall
    rw [Task.isFinished_eq_true_iff] at hs
    exact ⟨task, htask, hs⟩
  · intro id id' task task' w d d' l l' htask htask' hs hs'
    have ⟨n, a, ha, hid, hw, _⟩ := hl.dispatched id task w d l htask hs
    have ⟨m, b, hb, hid', hw', _⟩ := hl.dispatched id' task' w d' l' htask' hs'
    have hnm : n = m := hl.oneWorker n m a b ha hb (hw.trans hw'.symm)
    subst hnm
    have hab : a = b := Option.some.inj (ha.1.symm.trans hb.1)
    rw [← hid, ← hid', hab]

/-- A worker whose first call is overdue has the same task again. The first call completes the task
late, and the worker stays reserved for the second one. -/
theorem reserved_after_late_answer :
    ∃ c₀, create? ⟨["a"], "word_count", "sum", 1, by decide⟩ [.loopback 1] {} = .ok c₀ ∧
      (c₀.steps [.dispatch .map [.loopback 1], .expire 0, .dispatch .map [.loopback 1],
        .answer 0 (.ok (.records []))]).ledger.reserved[Address.loopback 1]? = some ⟨.map, 0⟩ := by
  have h : create? ⟨["a"], "word_count", "sum", 1, by decide⟩ [.loopback 1] {} = .ok _ := rfl
  refine ⟨_, h, ?_⟩
  apply ((reservations_match_watched_calls h _).1 _ _).2
  exact ⟨1, _, ⟨rfl, rfl⟩, rfl, rfl⟩

end Coordinator
end Foreman
