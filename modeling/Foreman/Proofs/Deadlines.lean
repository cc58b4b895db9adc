import Foreman.Proofs.Completion
import Foreman.Proofs.Histories

/-!
# Deadlines bind

A call says when it was made, and every deadline is counted from there. The call that is watched is the
latest one that its task and its worker have had, so whatever is dispatched or reserved dates from it.
When all deadlines that have come have taken effect, what is still dispatched or reserved has time left
(`deadlines_bind`).
-/

namespace Foreman

/-! ## 1. Lists in which one entry changes -/

-- What holds between every entry and each later one still does when an entry changes.
theorem pairwise_modify {α : Type} {R : α → α → Prop} {f : α → α}
    (hf : ∀ a b, R a b → R (f a) b ∧ R a (f b)) {xs : List α} (h : xs.Pairwise R) (n : Nat) :
    (xs.modify n f).Pairwise R := by
  rw [List.pairwise_iff_getElem] at h ⊢
  intro i j hi hj hij
  rw [List.length_modify] at hi hj
  have hR := h i j hi hj hij
  rw [List.getElem_modify, List.getElem_modify]
  by_cases hni : n = i
  · rw [if_pos hni, if_neg (by omega)]
    exact (hf _ _ hR).1
  · rw [if_neg hni]
    split
    · exact (hf _ _ hR).2
    · exact hR

theorem mem_modify {α : Type} {f : α → α} {xs : List α} {n : Nat} {b : α}
    (h : b ∈ xs.modify n f) : ∃ a ∈ xs, b = a ∨ xs[n]? = some a ∧ b = f a := by
  obtain ⟨i, hi⟩ := List.getElem?_of_mem h
  rw [List.getElem?_modify] at hi
  obtain ⟨a, ha, hb⟩ := Option.map_eq_some_iff.1 hi
  refine ⟨a, List.mem_of_getElem? ha, ?_⟩
  split at hb
  · rename_i hni
    exact .inr ⟨hni ▸ ha, hb.symm⟩
  · exact .inl hb.symm

namespace Ledger

-- The end of a call changes nothing of a task but its status.
theorem Ends.get?_status {n : Nat} {l l' : Ledger} {call : Call} {task : Task} {taken : Option Output}
    {entered : Option Phase} (he : Ends n l call task taken l' entered) (hl : l.Unclosed)
    (htask : l.tasks.get? call.task = some task) {id : TaskId} {old : Task}
    (hold : l.tasks.get? id = some old) : ∃ status, l'.tasks.get? id = some { old with status } := by
  have hset : ∀ status, ∃ status',
      (l.tasks.set call.task { task with status }).get? id = some { old with status := status' } := by
    intro status
    rw [TaskTable.get?_set htask]
    split
    · rename_i hid
      cases htask.symm.trans (hid ▸ hold)
      exact ⟨status, rfl⟩
    · exact ⟨old.status, hold⟩
  cases he with
  | keeps => exact ⟨old.status, hold⟩
  | takesBack => exact hset _
  | @completes output _ _ _ hm =>
    obtain ⟨status, hstatus⟩ := hset (.completed output.result)
    rw [← complete_tasks] at hstatus
    exact ⟨status, hm.get?_of_eq_some (hl.complete call.task task output) hstatus⟩

end Ledger

namespace Coordinator

/-! ## 2. The latest call -/

/-- The call of that number is the latest one of those that agree with it in a part. -/
def Latest {α : Type} (c : Coordinator) (part : Call → α) (n : Nat) (call : Call) : Prop :=
  c.calls[n]? = some call ∧
    ∀ m other, n < m → c.calls[m]? = some other → part other ≠ part call

/-- What the calls record: when each was made and how long it may take, and that a dispatch comes under
a new lease, to a task and to a worker that no watched call is about. -/
structure Recorded (c : Coordinator) : Prop where
  dates : ∀ call ∈ c.calls, call.made ≤ c.now ∧
    call.deadline = call.made + c.config.dispatchTimeout
  newest : c.calls.Pairwise fun a b =>
    a.isWatched = true → b.task ≠ a.task ∧ b.worker ≠ a.worker
  leases : c.calls.Pairwise fun a b => a.task = b.task → a.lease < b.lease
  attempts : ∀ call ∈ c.calls, ∀ task, c.ledger.tasks.get? call.task = some task →
    call.lease ≤ task.attempts

section

variable {c c' : Coordinator}

theorem Recorded.hands (h : c.Recorded) (hl : c.Leased) {id : TaskId} {task : Task}
    {worker : Address} (htask : c.ledger.tasks.get? id = some task) (hpending : task.isPending = true)
    (hfree : c.ledger.reserved[worker]? = none) : (c.hand id task worker).Recorded := by
  have hcalls : (c.hand id task worker).calls =
      c.calls ++ [Ledger.callFor c.job c.config c.now id task worker] := rfl
  have hget := TaskTable.get?_set htask (task.handTo worker (c.now + c.config.dispatchTimeout))
  refine ⟨?_, ?_, ?_, ?_⟩
  · intro call hcall
    rcases List.mem_append.1 hcall with hold | hnew
    · exact h.dates call hold
    · rw [List.mem_singleton.1 hnew]
      exact ⟨Nat.le_refl _, rfl⟩
  · rw [hcalls, List.pairwise_append]
    refine ⟨h.newest, List.pairwise_singleton _ _, ?_⟩
    intro a ha b hb hw
    obtain ⟨n, hn⟩ := List.getElem?_of_mem ha
    rw [List.mem_singleton.1 hb]
    exact ⟨(hl.task_ne htask hpending ⟨hn, hw⟩).symm, (hl.worker_ne hfree ⟨hn, hw⟩).symm⟩
  · rw [hcalls, List.pairwise_append]
    refine ⟨h.leases, List.pairwise_singleton _ _, ?_⟩
    intro a ha b hb hab
    rw [List.mem_singleton.1 hb] at hab ⊢
    have hle := h.attempts a ha task (hab ▸ htask)
    exact Nat.lt_succ_of_le hle
  · intro call hcall found hfound
    change (c.ledger.tasks.set id _).get? call.task = _ at hfound
    rw [hget] at hfound
    rcases List.mem_append.1 hcall with hold | hnew
    · split at hfound
      · rename_i hid
        cases hfound
        exact Nat.le_succ_of_le (h.attempts call hold task (hid ▸ htask))
      · exact h.attempts call hold found hfound
    · rw [List.mem_singleton.1 hnew] at hfound ⊢
      cases (if_pos rfl).symm.trans hfound
      exact Nat.le_refl _

theorem Recorded.ends (h : c.Recorded) (hregular : c.Regular) {n : Nat} {call : Call} {task : Task}
    {state : CallState} {taken : Option Output} {entered : Option Phase} (hstate : state ≠ .watched)
    (htask : c.ledger.tasks.get? call.task = some task)
    (hends : Ledger.Ends c.job.reduceCount (c.released call) call task taken c'.ledger entered)
    (hcalls : c'.calls = c.calls.modify n fun call => { call with state })
    (hconfig : c'.config = c.config) (hnow : c.now ≤ c'.now) : c'.Recorded := by
  refine ⟨?_, ?_, ?_, ?_⟩
  · rw [hcalls, hconfig]
    intro found hfound
    obtain ⟨old, hold, heq⟩ := mem_modify hfound
    have hdates := h.dates old hold
    rcases heq with rfl | ⟨_, rfl⟩
    · exact ⟨Nat.le_trans hdates.1 hnow, hdates.2⟩
    · exact ⟨Nat.le_trans hdates.1 hnow, hdates.2⟩
  · rw [hcalls]
    refine pairwise_modify ?_ h.newest n
    intro a b hab
    exact ⟨fun hw => absurd (of_decide_eq_true hw) hstate, hab⟩
  · rw [hcalls]
    refine pairwise_modify ?_ h.leases n
    exact fun _ _ hab => ⟨hab, hab⟩
  · rw [hcalls]
    intro found hfound new hnew
    obtain ⟨old, hold, heq⟩ := mem_modify hfound
    obtain ⟨before, hbefore, _⟩ := hregular.known old hold
    have hle := h.attempts old hold before hbefore
    have hid : found.task = old.task ∧ found.lease = old.lease := by
      rcases heq with rfl | ⟨_, rfl⟩
      · exact ⟨rfl, rfl⟩
      · exact ⟨rfl, rfl⟩
    rw [← released_tasks c call] at htask hbefore
    rw [hid.1] at hnew
    obtain ⟨status, hstatus⟩ := hends.get?_status (hregular.released call) htask hbefore
    cases hstatus.symm.trans hnew
    rw [hid.2]
    exact hle

theorem Effect.recorded {found : Option (TaskId × Output)} (he : Effect c found c')
    (hnow : c.now ≤ c'.now) (hregular : c.Regular) (hl : c.Leased) (h : c.Recorded) :
    c'.Recorded := by
  cases he with
  | idle =>
    refine ⟨?_, h.newest, h.leases, h.attempts⟩
    intro call hcall
    exact ⟨Nat.le_trans (h.dates call hcall).1 hnow, (h.dates call hcall).2⟩
  | hands id task worker _ htask hpending hfree => exact h.hands hl htask hpending hfree
  | ends n call task state _ _ hstate htask hends =>
    exact h.ends hregular hstate htask hends rfl rfl hnow

theorem recorded_of_create? {job : Job} {workers : List Address} {config : Config}
    (h : create? job workers config = .ok c) : c.Recorded := by
  have hcalls := (create?_eq_ok h).2.2.1
  refine ⟨?_, ?_, ?_, ?_⟩
  · rw [hcalls]
    exact fun _ hmem => nomatch hmem
  · rw [hcalls]
    exact .nil
  · rw [hcalls]
    exact .nil
  · rw [hcalls]
    exact fun _ hmem => nomatch hmem

theorem Recorded.steps (hregular : c.Regular) (hl : c.Leased) (h : c.Recorded) (run : List Step) :
    (c.steps run).Recorded := by
  induction run generalizing c with
  | nil => exact h
  | cons s run ih =>
    have he := step_effect hregular s
    exact ih (he.regular hregular) (he.leased hregular hl)
      (he.recorded (c.now_le_step s) hregular hl h)

theorem recorded_steps {job : Job} {workers : List Address} {config : Config}
    (h : create? job workers config = .ok c) (run : List Step) : (c.steps run).Recorded :=
  (recorded_of_create? h).steps (regular_of_create? h) (leased_of_create? h) run

-- A watched call is the latest one for its task, and the latest one for its worker.
theorem Recorded.latest (h : c.Recorded) {n : Nat} {call : Call} (hw : c.Watched n call) :
    c.Latest Call.task n call ∧ c.Latest Call.worker n call := by
  have hlater : ∀ m other, n < m → c.calls[m]? = some other →
      other.task ≠ call.task ∧ other.worker ≠ call.worker := by
    intro m other hnm hother
    obtain ⟨hn, rfl⟩ := List.getElem?_eq_some_iff.1 hw.1
    obtain ⟨hm, rfl⟩ := List.getElem?_eq_some_iff.1 hother
    exact List.pairwise_iff_getElem.1 h.newest n m hn hm hnm hw.2
  exact ⟨⟨hw.1, fun m other hnm hother => (hlater m other hnm hother).1⟩,
    ⟨hw.1, fun m other hnm hother => (hlater m other hnm hother).2⟩⟩

end

/-! ## 3. Deadlines that have come -/

section

variable {c : Coordinator}

theorem overdueCalls_eq_nil_iff :
    c.overdueCalls = [] ↔ ∀ n call, c.Watched n call → c.now < call.deadline := by
  constructor
  · intro h n call hw
    apply Nat.lt_of_not_le
    intro hdue
    have hmem := mem_overdueCalls_of_watched hw hdue
    rw [h] at hmem
    cases hmem
  · intro h
    rw [List.eq_nil_iff_forall_not_mem]
    intro n hn
    simp only [overdueCalls, List.mem_map, List.mem_filter, Prod.exists] at hn
    obtain ⟨call, _, ⟨hmem, hdue⟩, rfl⟩ := hn
    rw [Bool.and_eq_true_iff] at hdue
    have hlt := h _ call ⟨List.mk_mem_zipIdx_iff_getElem?.1 hmem, hdue.1⟩
    exact absurd (of_decide_eq_true hdue.2) (Nat.not_le_of_lt hlt)

theorem now_elapse (c : Coordinator) (ms : Time) : (c.elapse ms).now = c.now + ms :=
  (foldl_passDeadline { c with now := c.now + ms } _).1

-- However far the clock goes, every deadline on the way takes effect.
theorem overdueCalls_elapse (c : Coordinator) (ms : Time) : (c.elapse ms).overdueCalls = [] := by
  rw [overdueCalls_eq_nil_iff]
  intro n call hw
  obtain ⟨hnot, hwatched⟩ := watched_foldl_passDeadline hw
  rw [now_elapse]
  apply Nat.lt_of_not_le
  exact fun hdue => hnot (mem_overdueCalls_of_watched hwatched hdue)

-- Apart from time, an event is one step, which makes no call that is due at once.
theorem overdueCalls_step (hregular : c.Regular) (hd : 0 < c.config.dispatchTimeout) {s : Step}
    (hs : ∀ ms, s ≠ .tick ms) (h : c.overdueCalls = []) : (c.step s).overdueCalls = [] := by
  rw [overdueCalls_eq_nil_iff] at h ⊢
  have hnow : (c.step s).now = c.now := by
    rw [now_step]
    split
    · exact absurd rfl (hs _)
    · rfl
  have he := step_effect hregular s
  generalize c.accepted? s = found at he
  generalize c.step s = c' at he hnow ⊢
  rw [hnow]
  intro n call hw
  cases he with
  | idle => exact h n call hw
  | hands id task worker =>
    rcases (watched_hand n call).1 hw with hold | ⟨_, rfl⟩
    · exact h n call hold
    · exact Nat.lt_add_of_pos_right hd
  | ends m ended task state _ _ hstate =>
    exact h n call ((watched_modify hstate rfl n call).1 hw).2

theorem overdueCalls_after (hregular : c.Regular) (hd : 0 < c.config.dispatchTimeout)
    (h : c.overdueCalls = []) (history : List Event) : (c.after history).overdueCalls = [] := by
  induction history generalizing c with
  | nil => exact h
  | cons e history ih =>
    have hhandle : (c.handle e).overdueCalls = [] := by
      cases e with
      | elapse ms => exact c.overdueCalls_elapse ms
      | dispatch kind =>
        rw [← steps_stepsOf]
        exact overdueCalls_step hregular hd (s := .dispatch kind c.monitor.alive) nofun h
      | answer n outcome => exact overdueCalls_step hregular hd (s := .answer n outcome) nofun h
      | probed worker answered =>
        exact overdueCalls_step hregular hd (s := .probed worker answered) nofun h
      | attend => exact overdueCalls_step hregular hd (s := .attend) nofun h
    have hsteps := steps_stepsOf c e
    have hregular' := regular_steps hregular (c.stepsOf e)
    have hconfig := config_steps hregular (c.stepsOf e)
    rw [hsteps] at hregular' hconfig
    exact ih hregular' (hconfig ▸ hd) hhandle

end

/-! ## 4. Time that is left -/

/-- What is dispatched or reserved has time left. The deadline of a dispatched task is counted from the
latest dispatch of the task, and the call that reserves a worker is the latest one to that worker. -/
structure InTime (c : Coordinator) (timeout : Time) : Prop where
  dispatched : ∀ id task w d l, c.ledger.tasks.get? id = some task →
    task.status = .dispatched w d l → ∃ n call, c.Latest Call.task n call ∧ call.task = id ∧
      call.worker = w ∧ d = call.made + timeout ∧ c.now < d
  reserved : ∀ w id, c.ledger.reserved[w]? = some id → ∃ n call, c.Latest Call.worker n call ∧
    call.worker = w ∧ call.task = id ∧ call.made ≤ c.now ∧ c.now < call.made + timeout

theorem Recorded.inTime {c : Coordinator} (h : c.Recorded) (hl : c.Leased)
    (hdue : c.overdueCalls = []) : c.InTime c.config.dispatchTimeout := by
  rw [overdueCalls_eq_nil_iff] at hdue
  refine ⟨?_, ?_⟩
  · intro id task w d l htask hs
    have ⟨n, call, hw, hid, hworker, hdeadline, _⟩ := hl.dispatched id task w d l htask hs
    have hdates := h.dates call (List.mem_of_getElem? hw.1)
    have hlt := hdue n call hw
    rw [hdeadline] at hdates hlt
    exact ⟨n, call, (h.latest hw).1, hid, hworker, hdates.2, hlt⟩
  · intro w id hreserved
    have ⟨n, call, hw, hworker, hid⟩ := (hl.reserved w id).1 hreserved
    have hdates := h.dates call (List.mem_of_getElem? hw.1)
    have hlt := hdue n call hw
    rw [hdates.2] at hlt
    exact ⟨n, call, (h.latest hw).2, hworker, hid, hdates.1, hlt⟩

theorem inTime_steps {job : Job} {workers : List Address} {config : Config} {c : Coordinator}
    (h : create? job workers config = .ok c) {run : List Step} (hdue : (c.steps run).overdueCalls = []) :
    (c.steps run).InTime config.dispatchTimeout := by
  have hin := (recorded_steps h run).inTime
    ((leased_of_create? h).steps (regular_of_create? h) run) hdue
  rw [config_steps (regular_of_create? h), (create?_eq_ok h).2.1] at hin
  exact hin

-- Deadlines take effect as the clock reaches them, from the creation on.
theorem overdueCalls_after_of_create? {job : Job} {workers : List Address} {config : Config}
    {c : Coordinator} (h : create? job workers config = .ok c) (hd : 0 < config.dispatchTimeout)
    (history : List Event) : (c.after history).overdueCalls = [] := by
  have hstart : c.overdueCalls = [] := by
    unfold overdueCalls
    rw [(create?_eq_ok h).2.2.1]
    rfl
  exact overdueCalls_after (regular_of_create? h) (by rw [(create?_eq_ok h).2.1]; exact hd) hstart
    history

theorem inTime_after {job : Job} {workers : List Address} {config : Config} {c : Coordinator}
    (h : create? job workers config = .ok c) (hd : 0 < config.dispatchTimeout)
    (history : List Event) : (c.after history).InTime config.dispatchTimeout := by
  have hdue := overdueCalls_after_of_create? h hd history
  obtain ⟨run, hrun⟩ := after_eq_steps c history
  rw [hrun] at hdue ⊢
  exact inTime_steps h hdue

theorem made_of_step {c : Coordinator} (hregular : c.Regular) {s : Step} {n : Nat} {call : Call}
    (hcall : (c.step s).calls[n]? = some call) (hnew : c.calls.length ≤ n) : call.made = c.now := by
  have he := step_effect hregular s
  generalize c.accepted? s = found at he
  generalize c.step s = c' at he hcall
  have hnone := List.getElem?_eq_none hnew
  cases he with
  | idle =>
    cases hnone.symm.trans hcall
  | hands id task worker =>
    rw [List.getElem?_append_right hnew] at hcall
    rw [List.mem_singleton.1 (List.mem_of_getElem? hcall)]
    rfl
  | ends m ended task state =>
    rw [List.getElem?_modify, hnone] at hcall
    cases hcall

/-- A call is recorded with the time at which it is made. When every deadline that has come has taken
effect, what is dispatched or reserved has time left: the deadline of a dispatched task is the time of its
latest dispatch and the timeout after it, and lies ahead; and a worker that is reserved, be its task
completed or not, has been so for less than the timeout. When time passes it comes to this, however
much of it. If the timeout is positive it is so after every history of events, and after every run of the
coordinator on the clock. -/
theorem deadlines_bind {job : Job} {workers : List Address} {config : Config} {c₀ : Coordinator}
    (h : create? job workers config = .ok c₀) (run : List Step) :
    let c := c₀.steps run
    (∀ s n call, (c.step s).calls[n]? = some call → c.calls.length ≤ n → call.made = c.now) ∧
    (c.overdueCalls = [] → c.InTime config.dispatchTimeout) ∧
    (∀ ms, (c.elapse ms).now = c.now + ms ∧ (c.elapse ms).InTime config.dispatchTimeout) ∧
    (0 < config.dispatchTimeout →
      (∀ history : List Event, (c₀.after history).InTime config.dispatchTimeout) ∧
      ∀ {σ : Type} (t : Transport σ) (world : σ) (limit : Time),
        InTime ((Simulation.start t world c₀).runFor limit).2.coordinator
          config.dispatchTimeout) := by
  intro c
  have hregular : c.Regular := regular_steps (regular_of_create? h) run
  refine ⟨?_, inTime_steps h, ?_, ?_⟩
  · exact fun s n call hcall hnew => made_of_step hregular hcall hnew
  · intro ms
    refine ⟨now_elapse c ms, ?_⟩
    have hsteps : c₀.steps (run ++ c.stepsOf (.elapse ms)) = c.elapse ms := by
      rw [steps_append]
      exact steps_stepsOf c (.elapse ms)
    have hdue := overdueCalls_elapse c ms
    rw [← hsteps] at hdue ⊢
    exact inTime_steps h hdue
  · intro hd
    refine ⟨inTime_after h hd, ?_⟩
    intro σ t world limit
    have ⟨history, hhistory⟩ := Simulation.becomes_runFor
      (s := Simulation.start t world c₀) (.refl c₀) limit
    rw [← hhistory]
    exact inTime_after h hd history

/-- A worker took over a task whose first call was overdue. The first call answers late and completes the
task; the worker is reserved still, but not for long. -/
theorem reserved_in_time_after_late_answer :
    let c := pairStart.steps [.dispatch .map [.loopback 1], .tick 12000, .expire 0,
      .dispatch .map [.loopback 2], .answer 0 (.ok (.records [])), .tick 9999]
    c.overdueCalls = [] ∧ c.ledger.reserved[Address.loopback 2]? = some ⟨.map, 0⟩ ∧
      (c.ledger.tasks.get? ⟨.map, 0⟩).map Task.status = some (.completed (.records 0)) ∧
      ∃ n call, c.Latest Call.worker n call ∧ call.worker = .loopback 2 ∧ c.now < call.made + 10000 := by
  have h : create? pairStart.job [.loopback 1, .loopback 2] {} = .ok pairStart := rfl
  intro c
  have hdue : c.overdueCalls = [] := by decide +kernel
  have hreserved : c.ledger.reserved[Address.loopback 2]? = some ⟨.map, 0⟩ := by decide +kernel
  have ⟨n, call, hlatest, hw, _, _, hlt⟩ :=
    ((deadlines_bind h _).2.1 hdue).reserved _ _ hreserved
  exact ⟨hdue, hreserved, by decide +kernel, n, call, hlatest, hw, hlt⟩

end Coordinator
end Foreman
