import Foreman.Proofs.Changes
import Foreman.Proofs.Steps

/-!
# What a step can do

Whatever the step, the coordinator stays as it is apart from its clock and its log, or it hands a
task out, or an open call ends (`Effect`). Every invariant of coordinators is a case analysis over
these three. It is enough for `step_effect` that all calls are about tasks that exist and that nothing
has been dealt out too early (`Regular`), which every step keeps.
-/

namespace Foreman

/-! ## 1. Tables of ledgers that move on -/

namespace Ledger

theorem get?_closeMaps (l : Ledger) (n : Nat) (id : TaskId) :
    (l.closeMaps n).tasks.get? id =
      match id.kind with
      | .map => l.tasks.get? id
      | .reduce => (Partition.deal n l.assembly.buffer)[id.index]?.map
          fun p => { input := .partition p } := by
  obtain ⟨kind, i⟩ := id
  cases kind with
  | map => rfl
  | reduce => simp [closeMaps, TaskTable.get?, TaskTable.ofKind]

-- Moving on keeps all tasks as they are.
theorem MovesOn.get?_of_eq_some {n : Nat} {l l' : Ledger} {entered : Option Phase}
    (hm : MovesOn n l l' entered) (hl : l.Unclosed) {id : TaskId} {task : Task}
    (h : l.tasks.get? id = some task) : l'.tasks.get? id = some task := by
  cases hm with
  | stays => exact h
  | closesReduces => exact h
  | closesMaps hp =>
    have hnone := (TaskTable.reduces_eq_nil_iff _).1 (hl hp).2
    rw [get?_closeMaps]
    obtain ⟨kind, i⟩ := id
    cases kind with
    | map => exact h
    | reduce =>
      rw [hnone i] at h
      cases h

-- The tasks that are new when the ledger has moved on are pending reduce tasks.
theorem MovesOn.get?_cases {n : Nat} {l l' : Ledger} {entered : Option Phase}
    (hm : MovesOn n l l' entered) {id : TaskId} {task : Task}
    (h : l'.tasks.get? id = some task) :
    l.tasks.get? id = some task ∨ id.kind = .reduce ∧ ∃ p, task = { input := .partition p } := by
  cases hm with
  | stays => exact .inl h
  | closesReduces => exact .inl h
  | closesMaps =>
    rw [get?_closeMaps] at h
    obtain ⟨kind, i⟩ := id
    cases kind with
    | map => exact .inl h
    | reduce =>
      obtain ⟨p, _, rfl⟩ := Option.map_eq_some_iff.1 h
      exact .inr ⟨rfl, p, rfl⟩

-- The end of a call keeps all tasks but its own as they are, and of that one the input.
theorem Ends.get?_of_eq_some {n : Nat} {l l' : Ledger} {call : Call} {task : Task}
    {taken : Option Output} {entered : Option Phase} (he : Ends n l call task taken l' entered)
    (hl : l.Unclosed) (htask : l.tasks.get? call.task = some task) {id : TaskId} {old : Task}
    (h : l.tasks.get? id = some old) :
    ∃ new, l'.tasks.get? id = some new ∧ new.input = old.input ∧
      (new = old ∨ id = call.task ∧
        (call.isWatched = true ∧ new.status = .pending ∨ new.isFinished = true)) := by
  cases he with
  | keeps => exact ⟨old, h, rfl, .inl rfl⟩
  | takesBack hw _ heldBack =>
    by_cases hid : id = call.task
    · subst hid
      cases htask.symm.trans h
      exact ⟨_, TaskTable.get?_set_self htask _, rfl, .inr ⟨rfl, .inl ⟨hw, rfl⟩⟩⟩
    · refine ⟨old, ?_, rfl, .inl rfl⟩
      change (l.tasks.set _ _).get? id = _
      rw [TaskTable.get?_set htask, if_neg hid]
      exact h
  | @completes output _ _ _ hm =>
    have hmoved : ∀ new, (l.complete call.task task output).tasks.get? id = some new →
        l'.tasks.get? id = some new :=
      fun new => hm.get?_of_eq_some (hl.complete call.task task output)
    rw [complete_tasks, TaskTable.get?_set htask] at hmoved
    by_cases hid : id = call.task
    · subst hid
      cases htask.symm.trans h
      exact ⟨_, hmoved _ (if_pos rfl), rfl, .inr ⟨rfl, .inr rfl⟩⟩
    · exact ⟨old, hmoved _ ((if_neg hid).trans h), rfl, .inl rfl⟩

-- After the end of a call a task is as it was, or it is the one of the call and not dispatched, or
-- it is a new reduce task.
theorem Ends.get?_cases {n : Nat} {l l' : Ledger} {call : Call} {task : Task}
    {taken : Option Output} {entered : Option Phase} (he : Ends n l call task taken l' entered)
    (htask : l.tasks.get? call.task = some task) {id : TaskId} {new : Task}
    (h : l'.tasks.get? id = some new) :
    l.tasks.get? id = some new ∨ id = call.task ∧ new.status.stage ≠ .dispatched ∨
      new.status = .pending := by
  cases he with
  | keeps => exact .inl h
  | takesBack =>
    change (l.tasks.set _ _).get? id = _ at h
    rw [TaskTable.get?_set htask] at h
    split at h
    · rename_i hid
      cases h
      exact .inr (.inl ⟨hid, Stage.noConfusion⟩)
    · exact .inl h
  | completes _ hm =>
    rcases hm.get?_cases h with hold | ⟨_, p, rfl⟩
    · rw [complete_tasks, TaskTable.get?_set htask] at hold
      split at hold
      · rename_i hid
        cases hold
        exact .inr (.inl ⟨hid, Stage.noConfusion⟩)
      · exact .inl hold
    · exact .inr (.inr rfl)

theorem MovesOn.unclosed {n : Nat} {l l' : Ledger} {entered : Option Phase}
    (hm : MovesOn n l l' entered) (hl : l.Unclosed) : l'.Unclosed := by
  cases hm with
  | stays => exact hl
  | closesMaps => exact fun hp => nomatch hp
  | closesReduces => exact fun hp => nomatch hp

theorem Unclosed.set {l : Ledger} (h : l.Unclosed) (id : TaskId) (task : Task)
    (reserved : Std.ExtTreeMap Address TaskId) (heldBack : Std.ExtTreeMap TaskId Time) :
    Unclosed { l with tasks := l.tasks.set id task, reserved, heldBack } := by
  intro hp
  obtain ⟨hparts, hreds⟩ := h hp
  exact ⟨hparts, TaskTable.reduces_set_eq_nil hreds _ _⟩

theorem Ends.unclosed {n : Nat} {l l' : Ledger} {call : Call} {task : Task}
    {taken : Option Output} {entered : Option Phase} (he : Ends n l call task taken l' entered)
    (hl : l.Unclosed) : l'.Unclosed := by
  cases he with
  | keeps => exact hl
  | takesBack => exact hl.set _ _ _ _
  | completes _ hm => exact hm.unclosed (hl.complete _ _ _)

end Ledger

/-! ## 2. The three effects -/

namespace Coordinator

/-- The ledger when a call has ended: if it was watched, its worker is free. -/
def released (c : Coordinator) (call : Call) : Ledger :=
  if call.isWatched then c.ledger.unreserve call.worker call.task else c.ledger

/-- What a step makes of a coordinator, along with the output that it accepts. -/
inductive Effect (c : Coordinator) : Option (TaskId × Output) → Coordinator → Prop
  | idle (monitor : Monitor) (now : Time) (woken : Bool) :
      Effect c none { c with monitor, now, woken }
  | hands (id : TaskId) (task : Task) (worker : Address)
      (hkind : c.ledger.phase.kind = some id.kind) (htask : c.ledger.tasks.get? id = some task)
      (hpending : task.isPending = true) (hfree : c.ledger.reserved[worker]? = none) :
      Effect c none { c with
        ledger := c.ledger.handedOut id task worker (c.now + c.config.dispatchTimeout)
        calls := c.calls ++ [Ledger.callFor c.job c.config c.now id task worker] }
  | ends (n : Nat) (call : Call) (task : Task) (state : CallState) {taken : Option Output}
      {l' : Ledger} {entered : Option Phase}
      (hcall : c.calls[n]? = some call) (hopen : call.isOpen = true) (hstate : state ≠ .watched)
      (htask : c.ledger.tasks.get? call.task = some task)
      (hends : Ledger.Ends c.job.reduceCount (c.released call) call task taken l' entered)
      (hkind : ∀ output, taken = some output → output.kind = call.task.kind)
      (woken : Bool) (log : List Notice) :
      Effect c (taken.map (call.task, ·)) { c with
        ledger := l'
        calls := c.calls.modify n fun call => { call with state }
        published := entered.getD c.published
        woken, log }

/-- What every step relies on: the tasks of all calls exist, each call asks for what its task is
about, and nothing has been dealt out while the job maps. -/
structure Regular (c : Coordinator) : Prop where
  known : ∀ call ∈ c.calls, ∃ task, c.ledger.tasks.get? call.task = some task ∧
    call.request = .ofInput c.job task.input
  unclosed : c.ledger.Unclosed

theorem Regular.released {c : Coordinator} (h : c.Regular) (call : Call) :
    (c.released call).Unclosed := by
  unfold Coordinator.released
  split
  · exact h.unclosed.unreserve _ _
  · exact h.unclosed

theorem released_tasks (c : Coordinator) (call : Call) :
    (c.released call).tasks = c.ledger.tasks := by
  unfold released
  split
  · exact Ledger.unreserve_tasks _ _ _
  · rfl

theorem released_eq (c : Coordinator) (call : Call) :
    ∃ reserved, c.released call = { c.ledger with reserved } := by
  unfold released Ledger.unreserve
  split
  · split
    · exact ⟨_, rfl⟩
    · exact ⟨c.ledger.reserved, rfl⟩
  · exact ⟨c.ledger.reserved, rfl⟩

theorem kind_of_taken {call : Call} {task : Task} {outcome : Outcome}
    (hadmits : call.admits outcome = true) (output : Output)
    (h : Ledger.taken task outcome = some output) : output.kind = call.task.kind := by
  cases outcome with
  | error e => cases h
  | ok found =>
    simp only [Ledger.taken] at h
    split at h
    · cases h
      exact of_decide_eq_true hadmits
    · cases h

theorem accepted?_answer {c : Coordinator} {n : Nat} {call : Call} {task : Task}
    (hcall : c.calls[n]? = some call) (htask : c.ledger.tasks.get? call.task = some task)
    (hopen : call.isOpen = true) {outcome : Outcome} (hadmits : call.admits outcome = true) :
    c.accepted? (.answer n outcome) = (Ledger.taken task outcome).map (call.task, ·) := by
  cases outcome with
  | error e => rfl
  | ok output =>
    have hout : c.output? (.answer n (.ok output)) = some (call, output) := by
      change (c.calls[n]?.filter _).map _ = _
      rw [hcall, Option.filter_some, if_pos (by rw [hopen, hadmits]; rfl)]
      rfl
    rw [accepted?, hout, Option.filter_some]
    by_cases hs : task.status.stage = .dispatched
    · simp only [htask, hs, Ledger.taken, Option.any_some, decide_true, if_true, Option.map_some]
    · simp only [htask, hs, Ledger.taken, Option.any_some, decide_false, Bool.false_eq_true, if_false,
        Option.map_none]

-- A call that is not open, or could not return so, brings no output.
theorem accepted?_answer_eq_none {c : Coordinator} {n : Nat} {outcome : Outcome}
    (h : ∀ call, c.calls[n]? = some call → (call.isOpen && call.admits outcome) = false) :
    c.accepted? (.answer n outcome) = none := by
  cases outcome with
  | error e => rfl
  | ok output =>
    have hnone : (c.calls[n]?.filter fun call => call.isOpen && call.admits (.ok output)) = none := by
      rw [Option.filter_eq_none_iff]
      intro call hcall
      rw [h call hcall]
      exact Bool.false_ne_true
    have hout : c.output? (.answer n (.ok output)) = none := by
      change (c.calls[n]?.filter _).map _ = _
      rw [hnone]
      rfl
    rw [accepted?, hout]
    rfl

theorem assign_effect (c : Coordinator) (kind : Kind) (alive : List Address) :
    Effect c none (c.assign kind alive) := by
  unfold assign
  cases hfound : c.ledger.assign? c.job c.config c.now alive kind with
  | error e => exact .idle c.monitor c.now c.woken
  | ok found =>
    rcases Ledger.assign?_eq_ok hfound with
      rfl | ⟨id, task, worker, hkind, hready, htask, hfree, rfl⟩
    · exact .idle c.monitor c.now c.woken
    · obtain ⟨hid, task', htask', hpending⟩ :=
        TaskTable.mem_pending.1 (List.mem_filter.1 hready).1
      cases htask.symm.trans htask'
      exact .hands id task worker (hid ▸ hkind) htask hpending
        (Ledger.not_reserved_of_mem_free hfree)

theorem answer_effect {c : Coordinator} (h : c.Regular) (n : Nat) (outcome : Outcome) :
    Effect c (c.accepted? (.answer n outcome)) (c.answer n outcome) := by
  have hclosed : (∀ call, c.calls[n]? = some call →
      (call.isOpen && call.admits outcome) = false) →
      Effect c (c.accepted? (.answer n outcome)) c := by
    intro hno
    rw [accepted?_answer_eq_none hno]
    exact .idle c.monitor c.now c.woken
  unfold answer
  cases hcall : c.calls[n]? with
  | none => exact hclosed (by simp [hcall])
  | some call =>
    rw [hcall] at hclosed
    obtain ⟨task, htask, _⟩ := h.known call (List.mem_of_getElem? hcall)
    by_cases hadmits : call.admits outcome = true
    · simp only [hadmits, Bool.not_true, Bool.false_eq_true, if_false]
      cases hstate : call.state with
      | watched =>
        have hopen : call.isOpen = true := by simp [Call.isOpen, hstate]
        have hw : call.isWatched = true := by simp [Call.isWatched, hstate]
        rw [accepted?_answer hcall htask hopen hadmits]
        have hends := Ledger.returned_ends htask c.job h.unclosed hw c.config c.now outcome
        refine .ends n call task (.returned c.now outcome.isOk) hcall hopen CallState.noConfusion
          htask ?_ (kind_of_taken hadmits) _ _
        rw [released, if_pos hw]
        exact hends
      | overdue =>
        have hopen : call.isOpen = true := by simp [Call.isOpen, hstate]
        have hw : call.isWatched = false := by simp [Call.isWatched, hstate]
        rw [accepted?_answer hcall htask hopen hadmits]
        have hends := Ledger.returnedLate_ends htask c.job h.unclosed hw outcome
        refine .ends n call task (.returnedLate c.now) hcall hopen CallState.noConfusion htask ?_
          (kind_of_taken hadmits) _ _
        rw [released, hw]
        exact hends
      | returned => exact hclosed (by rintro _ ⟨⟩; simp [Call.isOpen, hstate])
      | returnedLate => exact hclosed (by rintro _ ⟨⟩; simp [Call.isOpen, hstate])
    · simp only [hadmits, Bool.not_false, if_true]
      exact hclosed (by rintro _ ⟨⟩; simp [hadmits])

theorem expire_effect {c : Coordinator} (h : c.Regular) (n : Nat) :
    Effect c none (c.expire n) := by
  unfold expire
  split
  · rename_i hany
    obtain ⟨call, hcall, hw⟩ := (Option.any_eq_true _ _).1 hany
    obtain ⟨task, htask, _⟩ := h.known call (List.mem_of_getElem? hcall)
    have hopen : call.isOpen = true := by
      simp only [Call.isWatched, decide_eq_true_eq] at hw
      simp [Call.isOpen, hw]
    have hends := Ledger.missed_ends htask c.job hw c.config
    have hreleased : c.released call = c.ledger.unreserve call.worker call.task := if_pos hw
    rw [← hreleased] at hends
    unfold passDeadline
    rw [hcall]
    have he := Effect.ends n call task .overdue hcall hopen CallState.noConfusion htask hends
      (fun _ h => nomatch h) true
    exact he _
  · exact .idle c.monitor c.now c.woken

theorem step_effect {c : Coordinator} (h : c.Regular) (s : Step) :
    Effect c (c.accepted? s) (c.step s) := by
  cases s with
  | dispatch kind alive => exact c.assign_effect kind alive
  | answer n outcome => exact answer_effect h n outcome
  | expire n => exact expire_effect h n
  | probed worker answered => exact .idle _ c.now c.woken
  | tick ms => exact .idle c.monitor _ c.woken
  | attend => exact .idle c.monitor c.now false

/-! ## 3. What every step keeps -/

theorem Effect.job {c c' : Coordinator} {accepted : Option (TaskId × Output)}
    (he : Effect c accepted c') : c'.job = c.job := by
  cases he <;> rfl

theorem Effect.config {c c' : Coordinator} {found : Option (TaskId × Output)}
    (he : Effect c found c') : c'.config = c.config := by
  cases he with
  | idle => rfl
  | hands => rfl
  | ends => rfl

theorem Effect.length_calls {c c' : Coordinator} {found : Option (TaskId × Output)}
    (he : Effect c found c') : c.calls.length ≤ c'.calls.length := by
  cases he with
  | idle => exact Nat.le_refl _
  | hands =>
    rw [List.length_append]
    exact Nat.le_add_right _ _
  | ends => exact Nat.le_of_eq (List.length_modify _ _ _).symm

-- No step removes a task or changes what it is about.
theorem Effect.get?_of_eq_some {c c' : Coordinator} {accepted : Option (TaskId × Output)}
    (he : Effect c accepted c') (h : c.Regular) {id : TaskId} {old : Task}
    (hold : c.ledger.tasks.get? id = some old) :
    ∃ new, c'.ledger.tasks.get? id = some new ∧ new.input = old.input := by
  cases he with
  | idle => exact ⟨old, hold, rfl⟩
  | hands id' task worker _ htask =>
    change ∃ new, (c.ledger.tasks.set id' _).get? id = some new ∧ _
    rw [TaskTable.get?_set htask]
    split
    · rename_i hid
      subst hid
      cases htask.symm.trans hold
      exact ⟨_, rfl, rfl⟩
    · exact ⟨old, hold, rfl⟩
  | ends n call task _ _ _ _ htask hends =>
    rw [← released_tasks c call] at htask hold
    obtain ⟨new, hnew, hinput, _⟩ := hends.get?_of_eq_some (h.released call) htask hold
    exact ⟨new, hnew, hinput⟩

theorem Effect.regular {c c' : Coordinator} {accepted : Option (TaskId × Output)}
    (he : Effect c accepted c') (h : c.Regular) : c'.Regular := by
  have hold : ∀ call : Call, (∃ task, c.ledger.tasks.get? call.task = some task ∧
      call.request = .ofInput c.job task.input) →
      ∃ task, c'.ledger.tasks.get? call.task = some task ∧
        call.request = .ofInput c'.job task.input := by
    rintro call ⟨task, htask, hrequest⟩
    obtain ⟨new, hnew, hinput⟩ := he.get?_of_eq_some h htask
    exact ⟨new, hnew, by rw [he.job, hinput, hrequest]⟩
  cases he with
  | idle => exact ⟨h.known, h.unclosed⟩
  | hands id task worker _ htask =>
    refine ⟨?_, h.unclosed.set _ _ _ _⟩
    intro call hcall
    rcases List.mem_append.1 hcall with hmem | hmem
    · exact hold call (h.known call hmem)
    · cases List.mem_singleton.1 hmem
      exact hold _ ⟨task, htask, rfl⟩
  | ends n call task state _ _ _ _ hends =>
    refine ⟨?_, hends.unclosed (h.released call)⟩
    intro call' hcall'
    obtain ⟨m, hm⟩ := List.getElem?_of_mem hcall'
    change (c.calls.modify n _)[m]? = _ at hm
    rw [List.getElem?_modify] at hm
    obtain ⟨before, hbefore, rfl⟩ := Option.map_eq_some_iff.1 hm
    have hknown := hold before (h.known before (List.mem_of_getElem? hbefore))
    split
    · exact hknown
    · exact hknown

theorem regular_steps {c : Coordinator} (h : c.Regular) (run : List Step) :
    (c.steps run).Regular := by
  induction run generalizing c with
  | nil => exact h
  | cons s run ih => exact ih ((step_effect h s).regular h)

-- What every effect keeps holds after every run, along with the outputs that were accepted.
theorem steps_induct {P : Coordinator → Acceptances → Prop}
    (hstep : ∀ {c c' accepted found}, c.Regular → Effect c found c' → P c accepted →
      P c' (accepted ++ found.toList))
    {c : Coordinator} (hregular : c.Regular) (accepted : Acceptances) (h : P c accepted)
    (run : List Step) : P (c.steps run) (accepted ++ c.accepted run) := by
  induction run generalizing c accepted with
  | nil =>
    change P c (accepted ++ [])
    rw [List.append_nil]
    exact h
  | cons s run ih =>
    have he := step_effect hregular s
    rw [steps_cons, accepted_cons, ← List.append_assoc]
    exact ih (he.regular hregular) _ (hstep hregular he h)

-- What no effect changes is the same after every run.
theorem steps_unchanged {α : Type} (view : Coordinator → α)
    (hview : ∀ {c c' found}, Effect c found c' → view c' = view c) {c : Coordinator}
    (hregular : c.Regular) (run : List Step) : view (c.steps run) = view c := by
  refine steps_induct (P := fun c' _ => view c' = view c) ?_ hregular [] rfl run
  intro _ _ _ _ _ he heq
  exact (hview he).trans heq

theorem job_steps {c : Coordinator} (h : c.Regular) (run : List Step) :
    (c.steps run).job = c.job :=
  steps_unchanged Coordinator.job Effect.job h run

theorem config_steps {c : Coordinator} (hregular : c.Regular) (run : List Step) :
    (c.steps run).config = c.config :=
  steps_unchanged Coordinator.config Effect.config hregular run

theorem length_calls_steps {c : Coordinator} (hregular : c.Regular) (run : List Step) :
    c.calls.length ≤ (c.steps run).calls.length := by
  refine steps_induct (P := fun c' _ => c.calls.length ≤ c'.calls.length) ?_ hregular []
    (Nat.le_refl _) run
  intro _ _ _ _ _ he hle
  exact Nat.le_trans hle he.length_calls

/-! ## 4. Creation -/

-- A new coordinator has made no call, and its ledger has moved on from the splits alone.
theorem create?_eq_ok {job : Job} {workers : List Address} {config : Config} {c : Coordinator}
    (h : create? job workers config = .ok c) :
    c.job = job ∧ c.config = config ∧ c.calls = [] ∧ c.published = c.ledger.phase ∧
      ∃ entered, Ledger.MovesOn job.reduceCount { tasks := .ofSplits job.splits } c.ledger
        entered := by
  have hl : Ledger.Unclosed { tasks := .ofSplits job.splits } := fun _ => ⟨rfl, rfl⟩
  obtain ⟨change, hchange, hm⟩ := Ledger.enterNext_movesOn job.reduceCount_pos hl
  unfold create? at h
  rw [hchange] at h
  cases hf : change.fault with
  | some f =>
    simp only [hf] at h
    cases h
  | none =>
    simp only [hf] at h
    cases h
    exact ⟨rfl, rfl, rfl, rfl, _, hm⟩

theorem monitor_of_create? {job : Job} {workers : List Address} {config : Config}
    {c : Coordinator} (h : create? job workers config = .ok c) : c.monitor = .ofWorkers workers := by
  unfold create? at h
  split at h
  · cases h
  · split at h
    · cases h
    · cases h
      rfl

theorem regular_of_create? {job : Job} {workers : List Address} {config : Config} {c : Coordinator}
    (h : create? job workers config = .ok c) : c.Regular := by
  obtain ⟨_, _, hcalls, _, _, hm⟩ := create?_eq_ok h
  have hl : Ledger.Unclosed { tasks := .ofSplits job.splits } := fun _ => ⟨rfl, rfl⟩
  refine ⟨?_, hm.unclosed hl⟩
  rw [hcalls]
  exact fun _ hmem => nomatch hmem

theorem job_of_create? {job : Job} {workers : List Address} {config : Config} {c : Coordinator}
    (h : create? job workers config = .ok c) (run : List Step) : (c.steps run).job = job :=
  (job_steps (regular_of_create? h) run).trans (create?_eq_ok h).1

end Coordinator
end Foreman
