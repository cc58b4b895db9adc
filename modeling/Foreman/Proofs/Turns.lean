import Foreman.Proofs.Deadlines

/-!
# What a step does, in full

An effect (`Foreman.Proofs.Effects`) leaves open when a task is held back, and in which state a call ends.
A turn says both: a call fails or brings an output, in time or late, or its deadline takes effect. Every
step is a turn (`step_turn`).
-/

namespace Foreman

namespace Ledger

/-! ## 1. Ledgers after the end of a call -/

/-- The task is pending again. -/
def withdraw (l : Ledger) (id : TaskId) (task : Task) : Ledger :=
  { l with tasks := l.tasks.set id { task with status := .pending } }

/-- The task may not be dispatched before the moment. -/
def holdBack (l : Ledger) (id : TaskId) (time : Time) : Ledger :=
  { l with heldBack := l.heldBack.insert id time }

/-- The end of a call that brings nothing. Its task is withdrawn if it is still held under its lease. -/
def lapse (l : Ledger) (call : Call) (task : Task) : Ledger :=
  if task.heldUnder call.lease then l.withdraw call.task task else l

/-- A failure in time. A task that is withdrawn is held back for a while too. -/
def fail (l : Ledger) (call : Call) (task : Task) (time : Time) : Ledger :=
  if task.heldUnder call.lease then (l.withdraw call.task task).holdBack call.task time else l

/-- The arrival of an output. It completes the task if that is dispatched, under whatever lease. -/
inductive Takes (n : Nat) (l : Ledger) (id : TaskId) (task : Task) (output : Output) : Ledger → Prop
  | counts {l' : Ledger} {entered : Option Phase} (hs : task.status.stage = .dispatched)
      (hm : MovesOn n (l.complete id task output) l' entered) : Takes n l id task output l'
  | ignored (hs : task.status.stage ≠ .dispatched) : Takes n l id task output l

theorem Ends.eq_of_not_heldUnder {n : Nat} {l l' : Ledger} {call : Call} {task : Task}
    {entered : Option Phase} (he : Ends n l call task none l' entered)
    (h : task.heldUnder call.lease = false) : l' = l := by
  cases he with
  | keeps => rfl
  | takesBack _ hheld =>
    rw [h] at hheld
    cases hheld

theorem Ends.takes {n : Nat} {l l' : Ledger} {call : Call} {task : Task} {output : Output}
    {entered : Option Phase} (he : Ends n l call task (taken task (.ok output)) l' entered) :
    Takes n l call.task task output l' := by
  by_cases hs : task.status.stage = .dispatched
  · simp only [taken, if_pos hs] at he
    cases he with
    | completes _ hm => exact .counts hs hm
  · simp only [taken, if_neg hs] at he
    rw [he.eq_of_not_heldUnder (Task.not_heldUnder_of_stage hs)]
    exact .ignored hs

section

variable {l : Ledger} {call : Call} {task : Task} (htask : l.tasks.get? call.task = some task)

include htask

theorem takeBack_eq (retryWarning : Nat) :
    ∃ change, l.takeBack retryWarning call.task call.lease =
      .ok (task.heldUnder call.lease, change) ∧ change.ledger = l.lapse call task := by
  unfold takeBack lapse
  rw [TaskTable.takeBack_of_get? htask]
  cases task.heldUnder call.lease with
  | true => exact ⟨_, rfl, rfl⟩
  | false => exact ⟨_, rfl, rfl⟩

theorem missed_ledger (config : Config) :
    (l.missed config call).ledger = (l.unreserve call.worker call.task).lapse call task := by
  rw [← unreserve_tasks l call.task call.worker] at htask
  obtain ⟨change, hchange, hledger⟩ := takeBack_eq htask config.retryWarning
  unfold missed
  simp only [hchange]
  exact hledger

theorem returned_error_ledger (job : Job) (config : Config) (now : Time) (e : CallError) :
    (l.returned job config now call (.error e)).ledger =
      (l.unreserve call.worker call.task).fail call task (now + config.scheduleInterval) := by
  rw [← unreserve_tasks l call.task call.worker] at htask
  obtain ⟨change, hchange, hledger⟩ := takeBack_eq htask config.retryWarning
  unfold returned fail
  unfold lapse at hledger
  simp only [hchange]
  cases hheld : task.heldUnder call.lease with
  | true =>
    rw [hheld, if_pos rfl] at hledger
    simp only [hledger]
    rfl
  | false =>
    rw [hheld, if_neg Bool.false_ne_true] at hledger
    exact hledger

end

end Ledger

namespace Coordinator

/-! ## 2. Answers to open calls -/

/-- The deadline of the call of that number has taken effect, and it has not returned. -/
def Overdue (c : Coordinator) (n : Nat) (call : Call) : Prop :=
  c.calls[n]? = some call ∧ call.state = .overdue

section

variable {c : Coordinator} {n : Nat} {call : Call} {task : Task} {outcome : Outcome} {output : Output}

theorem answer_of_overdue (ho : c.Overdue n call) (hadmits : call.admits outcome = true) :
    c.answer n outcome = (c.setCallState n (.returnedLate c.now)).applyReturn outcome
      (c.ledger.returnedLate c.job call outcome) := by
  unfold answer
  rw [ho.1]
  dsimp only
  rw [hadmits, ho.2]
  rfl

-- A late failure is not even noticed.
theorem answer_error_of_overdue (ho : c.Overdue n call) (e : CallError) :
    c.answer n (.error e) = c.setCallState n (.returnedLate c.now) := by
  rw [answer_of_overdue ho rfl]
  show { c.setCallState n (.returnedLate c.now) with woken := c.woken || false } = _
  rw [Bool.or_false]
  rfl

theorem calls_of_overdue (ho : c.Overdue n call) (hadmits : call.admits outcome = true) :
    (c.answer n outcome).calls = (c.setCallState n (.returnedLate c.now)).calls := by
  rw [answer_of_overdue ho hadmits]
  rfl

theorem calls_of_watched (hw : c.Watched n call) (hadmits : call.admits outcome = true) :
    (c.answer n outcome).calls = (c.setCallState n (.returned c.now outcome.isOk)).calls := by
  rw [answer_of_watched hw hadmits]
  rfl

variable (htask : c.ledger.tasks.get? call.task = some task)

include htask

theorem failure_of_watched (hw : c.Watched n call) (e : CallError) :
    (c.answer n (.error e)).ledger = (c.ledger.unreserve call.worker call.task).fail call task
      (c.now + c.config.scheduleInterval) := by
  rw [answer_of_watched hw rfl]
  exact Ledger.returned_error_ledger htask c.job c.config c.now e

variable (h : c.Regular) (hadmits : call.admits (.ok output) = true)

include h hadmits

theorem takes_of_watched (hw : c.Watched n call) :
    Ledger.Takes c.job.reduceCount (c.ledger.unreserve call.worker call.task) call.task task output
      (c.answer n (.ok output)).ledger := by
  have hends := Ledger.returned_ends htask c.job h.unclosed hw.2 c.config c.now (.ok output)
  rw [answer_of_watched hw hadmits]
  exact hends.takes

theorem takes_of_overdue (ho : c.Overdue n call) :
    Ledger.Takes c.job.reduceCount c.ledger call.task task output (c.answer n (.ok output)).ledger := by
  have hw : call.isWatched = false := by
    rw [Call.isWatched, ho.2]
    rfl
  have hends := Ledger.returnedLate_ends htask c.job h.unclosed hw (.ok output)
  rw [answer_of_overdue ho hadmits]
  exact hends.takes

end

/-! ## 3. Turns -/

/-- What a step makes of the ledger and the calls. -/
inductive Turn (c : Coordinator) : Step → Coordinator → Prop
  /-- Neither changes. -/
  | rests {s : Step} {c' : Coordinator} (hledger : c'.ledger = c.ledger)
      (hcalls : c'.calls = c.calls) : Turn c s c'
  /-- A task that is ready is handed to a worker that is free. -/
  | hands {kind : Kind} {alive : List Address} {id : TaskId} {task : Task} {worker : Address}
      (hready : id ∈ c.ledger.ready c.now kind) (htask : c.ledger.tasks.get? id = some task)
      (hfree : c.ledger.reserved[worker]? = none) :
      Turn c (.dispatch kind alive) (c.hand id task worker)
  /-- A call fails in time. -/
  | fails {n : Nat} {call : Call} {task : Task} {e : CallError} {c' : Coordinator}
      (hw : c.Watched n call) (htask : c.ledger.tasks.get? call.task = some task)
      (hledger : c'.ledger = (c.ledger.unreserve call.worker call.task).fail call task
        (c.now + c.config.scheduleInterval))
      (hcalls : c'.calls = (c.setCallState n (.returned c.now false)).calls) :
      Turn c (.answer n (.error e)) c'
  /-- A call fails late. -/
  | failsLate {n : Nat} {call : Call} {e : CallError} {c' : Coordinator} (ho : c.Overdue n call)
      (hledger : c'.ledger = c.ledger)
      (hcalls : c'.calls = (c.setCallState n (.returnedLate c.now)).calls) :
      Turn c (.answer n (.error e)) c'
  /-- A call brings an output in time. -/
  | succeeds {n : Nat} {call : Call} {task : Task} {output : Output} {c' : Coordinator}
      (hw : c.Watched n call) (htask : c.ledger.tasks.get? call.task = some task)
      (hledger : Ledger.Takes c.job.reduceCount (c.ledger.unreserve call.worker call.task)
        call.task task output c'.ledger)
      (hcalls : c'.calls = (c.setCallState n (.returned c.now true)).calls) :
      Turn c (.answer n (.ok output)) c'
  /-- A call brings an output late. -/
  | succeedsLate {n : Nat} {call : Call} {task : Task} {output : Output} {c' : Coordinator}
      (ho : c.Overdue n call) (htask : c.ledger.tasks.get? call.task = some task)
      (hledger : Ledger.Takes c.job.reduceCount c.ledger call.task task output c'.ledger)
      (hcalls : c'.calls = (c.setCallState n (.returnedLate c.now)).calls) :
      Turn c (.answer n (.ok output)) c'
  /-- The deadline of a call takes effect. -/
  | lapses {n : Nat} {call : Call} {task : Task} {c' : Coordinator}
      (hw : c.Watched n call) (htask : c.ledger.tasks.get? call.task = some task)
      (hledger : c'.ledger = (c.ledger.unreserve call.worker call.task).lapse call task)
      (hcalls : c'.calls = (c.setCallState n .overdue).calls) :
      Turn c (.expire n) c'

theorem assign_turn (c : Coordinator) (kind : Kind) (alive : List Address) :
    c.Turn (.dispatch kind alive) (c.assign kind alive) := by
  unfold assign
  cases hfound : c.ledger.assign? c.job c.config c.now alive kind with
  | error e => exact .rests rfl rfl
  | ok found =>
    rcases Ledger.assign?_eq_ok hfound with rfl | ⟨id, task, worker, _, hready, htask, hfree, rfl⟩
    · exact .rests rfl rfl
    · exact .hands hready htask (Ledger.not_reserved_of_mem_free hfree)

section

variable {c : Coordinator} (h : c.Regular) {n : Nat} {call : Call} {outcome : Outcome}
  (hadmits : call.admits outcome = true)

include h hadmits

theorem watched_turn (hw : c.Watched n call) :
    c.Turn (.answer n outcome) (c.answer n outcome) := by
  obtain ⟨task, htask, _⟩ := h.known call (List.mem_of_getElem? hw.1)
  have hcalls := calls_of_watched hw hadmits
  cases outcome with
  | error e => exact .fails hw htask (failure_of_watched htask hw e) hcalls
  | ok output => exact .succeeds hw htask (takes_of_watched htask h hadmits hw) hcalls

theorem overdue_turn (ho : c.Overdue n call) : c.Turn (.answer n outcome) (c.answer n outcome) := by
  obtain ⟨task, htask, _⟩ := h.known call (List.mem_of_getElem? ho.1)
  have hcalls := calls_of_overdue ho hadmits
  cases outcome with
  | error e =>
    rw [answer_error_of_overdue ho]
    exact .failsLate ho rfl rfl
  | ok output => exact .succeedsLate ho htask (takes_of_overdue htask h hadmits ho) hcalls

end

theorem answer_turn {c : Coordinator} (h : c.Regular) (n : Nat) (outcome : Outcome) :
    c.Turn (.answer n outcome) (c.answer n outcome) := by
  cases hcall : c.calls[n]? with
  | none =>
    unfold answer
    rw [hcall]
    exact .rests rfl rfl
  | some call =>
    by_cases hadmits : call.admits outcome = true
    · cases hstate : call.state with
      | watched => exact watched_turn h hadmits ⟨hcall, decide_eq_true hstate⟩
      | overdue => exact overdue_turn h hadmits ⟨hcall, hstate⟩
      | returned =>
        unfold answer
        simp only [hcall, hadmits, hstate]
        exact .rests rfl rfl
      | returnedLate =>
        unfold answer
        simp only [hcall, hadmits, hstate]
        exact .rests rfl rfl
    · unfold answer
      simp only [hcall, hadmits]
      exact .rests rfl rfl

theorem expire_turn {c : Coordinator} (h : c.Regular) (n : Nat) : c.Turn (.expire n) (c.expire n) := by
  unfold expire
  split
  · rename_i hany
    obtain ⟨call, hcall, hw⟩ := (Option.any_eq_true _ _).1 hany
    obtain ⟨task, htask, _⟩ := h.known call (List.mem_of_getElem? hcall)
    unfold passDeadline
    rw [hcall]
    exact .lapses ⟨hcall, hw⟩ htask (Ledger.missed_ledger htask c.config) rfl
  · exact .rests rfl rfl

theorem step_turn {c : Coordinator} (h : c.Regular) (s : Step) : c.Turn s (c.step s) := by
  cases s with
  | dispatch kind alive => exact c.assign_turn kind alive
  | answer n outcome => exact answer_turn h n outcome
  | expire n => exact expire_turn h n
  | probed worker answered => exact .rests rfl rfl
  | tick ms => exact .rests rfl rfl
  | attend => exact .rests rfl rfl

end Coordinator
end Foreman
