import Foreman.Proofs.Turns

/-!
# What an answer can touch

An answer is about its own call. After the deadline a failure leaves everything as it was, and an output can
complete the task, which then is held by a newer call; no reservation changes and nothing is held back. Before
the deadline the call still has its worker, and an answer frees that worker and no other
(`answers_touch_their_own`). It finds out by 32 bits of the lease whether its task is still its own
(`Leased.heldUnder_iff_of_watched`).
-/

namespace Foreman

namespace Ledger

/-! ## 1. Ledgers in which a task is completed -/

/-- The worker is free. -/
def freed (l : Ledger) (worker : Address) : Ledger :=
  { l with reserved := l.reserved.erase worker }

/-- An output completes a task, and the phase moves on if that is due. Of records the task keeps how many they
are, of a value its text. All other tasks that there were are as before, and so are the reservations and what is
held back. -/
structure Completes (n : Nat) (l : Ledger) (id : TaskId) (task : Task) (output : Output)
    (l' : Ledger) : Prop where
  moves : ∃ entered, MovesOn n (l.complete id task output) l' entered
  records : ∀ rs, output = .records rs →
    l'.tasks.get? id = some { task with status := .completed (.records rs.length) }
  value : ∀ text, output = .value text →
    l'.tasks.get? id = some { task with status := .completed (.value text) }
  others : ∀ other found, other ≠ id → l.tasks.get? other = some found →
    l'.tasks.get? other = some found
  phase : l.phase.Moves l'.phase
  reserved : l'.reserved = l.reserved
  heldBack : l'.heldBack = l.heldBack

section

variable {n : Nat} {l l' : Ledger} {id : TaskId} {task : Task} {output : Output}

theorem complete_frame (l : Ledger) (id : TaskId) (task : Task) (output : Output) :
    (l.complete id task output).reserved = l.reserved ∧
      (l.complete id task output).heldBack = l.heldBack := by
  cases output with
  | records rs => exact ⟨rfl, rfl⟩
  | value text => exact ⟨rfl, rfl⟩

theorem Completes.get?_self (h : l.Completes n id task output l') :
    l'.tasks.get? id = some { task with status := .completed output.result } := by
  cases output with
  | records rs => exact h.records rs rfl
  | value text => exact h.value text rfl

theorem completes_of_movesOn {entered : Option Phase}
    (hm : MovesOn n (l.complete id task output) l' entered) (hl : l.Unclosed)
    (htask : l.tasks.get? id = some task) : l.Completes n id task output l' := by
  have hget := TaskTable.get?_set htask { task with status := .completed output.result }
  have hmoved : ∀ other found, (l.complete id task output).tasks.get? other = some found →
      l'.tasks.get? other = some found :=
    fun _ _ hfound => hm.get?_of_eq_some (hl.complete id task output) hfound
  rw [complete_tasks] at hmoved
  have hphase := hm.moves
  rw [complete_phase] at hphase
  have hframe := l.complete_frame id task output
  obtain ⟨_, _, _, heq⟩ := hm.frame
  have hself : l'.tasks.get? id = some { task with status := .completed output.result } :=
    hmoved id _ ((hget id).trans (if_pos rfl))
  refine ⟨⟨entered, hm⟩, ?_, ?_, ?_, hphase, ?_, ?_⟩
  · rintro rs rfl
    exact hself
  · rintro text rfl
    exact hself
  · intro other found hne hfound
    exact hmoved other found ((hget other).trans ((if_neg hne).trans hfound))
  · rw [heq]
    exact hframe.1
  · rw [heq]
    exact hframe.2

theorem Takes.completes (ht : Takes n l id task output l') (hl : l.Unclosed)
    (htask : l.tasks.get? id = some task) (hs : task.status.stage = .dispatched) :
    l.Completes n id task output l' := by
  cases ht with
  | counts _ hm => exact completes_of_movesOn hm hl htask
  | ignored hne => exact absurd hs hne

theorem Takes.eq_of_ne (ht : Takes n l id task output l') (hs : task.status.stage ≠ .dispatched) :
    l' = l := by
  cases ht with
  | counts heq => exact absurd heq hs
  | ignored => rfl

-- An output that counts leaves a trace: its task is completed.
theorem Takes.ne_iff (ht : Takes n l id task output l') (hl : l.Unclosed)
    (htask : l.tasks.get? id = some task) : l' ≠ l ↔ task.status.stage = .dispatched := by
  constructor
  · intro hne
    by_cases hs : task.status.stage = .dispatched
    · exact hs
    · exact absurd (ht.eq_of_ne hs) hne
  · intro hs heq
    have hnew := (ht.completes hl htask hs).get?_self
    rw [heq, htask, Option.some.injEq] at hnew
    rw [hnew] at hs
    cases hs

theorem unreserve_eq_freed {worker : Address} (h : l.reserved[worker]? = some id) :
    l.unreserve worker id = l.freed worker :=
  if_pos h

end

end Ledger

namespace Coordinator

/-! ## 2. Answers to a call -/

/-- What the answers to a call, whose task is given, do when they come late. A failure leaves all but the
state of the call. An output completes the task if that is dispatched, which is to the worker of a later call
then, under a newer lease; else the ledger stays as it is. -/
structure LateAnswers (c : Coordinator) (n : Nat) (call : Call) (task : Task) : Prop where
  failure : ∀ e, c.answer n (.error e) = c.setCallState n (.returnedLate c.now)
  newer : ∀ w d l, task.status = .dispatched w d l →
    call.lease < l ∧ ∃ m later, n < m ∧ c.Watched m later ∧
      later.task = call.task ∧ later.worker = w ∧ later.deadline = d ∧ later.lease = l
  changes : ∀ output, output.kind = call.task.kind →
    ((c.answer n (.ok output)).ledger ≠ c.ledger ↔ task.status.stage = .dispatched)
  completes : ∀ output, output.kind = call.task.kind → task.status.stage = .dispatched →
    c.ledger.Completes c.job.reduceCount call.task task output (c.answer n (.ok output)).ledger
  calls : ∀ output, output.kind = call.task.kind →
    (c.answer n (.ok output)).calls = (c.setCallState n (.returnedLate c.now)).calls

/-- What the answers to a call, whose task is given, do when they come in time. The worker is reserved for
the task until then, and is free afterwards. A task that is dispatched is so under the lease of this very
call: a failure takes it back and holds it back for a while, and an output completes it. If it is completed
already, nothing but the worker changes. -/
structure TimelyAnswers (c : Coordinator) (n : Nat) (call : Call) (task : Task) : Prop where
  reserved : c.ledger.reserved[call.worker]? = some call.task
  status : task.status = .dispatched call.worker call.deadline call.lease ∨ task.isFinished = true
  failure : ∀ e, (c.answer n (.error e)).ledger =
    if task.status.stage = .dispatched then
      ((c.ledger.freed call.worker).withdraw call.task task).holdBack call.task
        (c.now + c.config.scheduleInterval)
    else c.ledger.freed call.worker
  ignored : ∀ output, output.kind = call.task.kind → task.isFinished = true →
    (c.answer n (.ok output)).ledger = c.ledger.freed call.worker
  completes : ∀ output, output.kind = call.task.kind → task.isFinished = false →
    (c.ledger.freed call.worker).Completes c.job.reduceCount call.task task output
      (c.answer n (.ok output)).ledger
  calls : ∀ outcome, call.admits outcome = true →
    (c.answer n outcome).calls = (c.setCallState n (.returned c.now outcome.isOk)).calls

section

variable {c : Coordinator} {n : Nat} {call : Call} {task : Task}
  (htask : c.ledger.tasks.get? call.task = some task) (hl : c.Leased)

include htask hl

-- The call under whose lease a task is dispatched is watched, and no call about the task is newer.
theorem Recorded.later (h : c.Recorded) (ho : c.Overdue n call) {w : Address} {d : Time} {l : Nat}
    (hs : task.status = .dispatched w d l) : ∃ m later, n < m ∧ c.Watched m later ∧
      later.task = call.task ∧ later.worker = w ∧ later.deadline = d ∧ later.lease = l := by
  obtain ⟨m, current, hw, hid, hworker, hdeadline, hlease, _⟩ :=
    hl.dispatched call.task task w d l htask hs
  have hne : m ≠ n := by
    rintro rfl
    cases hw.1.symm.trans ho.1
    have hstate := of_decide_eq_true hw.2
    rw [ho.2] at hstate
    cases hstate
  refine ⟨m, current, ?_, hw, hid, hworker, hdeadline, hlease⟩
  rcases Nat.lt_or_gt_of_ne hne with hlt | hlt
  · exact absurd hid.symm ((h.latest hw).1.2 n call hlt ho.1)
  · exact hlt

omit htask hl in
-- Of two calls for one task the later one has the newer lease.
theorem Recorded.lease_lt (h : c.Recorded) {m : Nat} {later : Call} (hcall : c.calls[n]? = some call)
    (hlater : c.calls[m]? = some later) (hlt : n < m) (hid : later.task = call.task) :
    call.lease < later.lease := by
  obtain ⟨hn, rfl⟩ := List.getElem?_eq_some_iff.1 hcall
  obtain ⟨hm, rfl⟩ := List.getElem?_eq_some_iff.1 hlater
  exact List.pairwise_iff_getElem.1 h.leases n m hn hm hlt hid.symm

variable (hregular : c.Regular)

include hregular

theorem lateAnswers (h : c.Recorded) (ho : c.Overdue n call) : c.LateAnswers n call task := by
  have htakes : ∀ output, output.kind = call.task.kind →
      Ledger.Takes c.job.reduceCount c.ledger call.task task output
        (c.answer n (.ok output)).ledger :=
    fun _ hkind => takes_of_overdue htask hregular (decide_eq_true hkind) ho
  refine ⟨answer_error_of_overdue ho, ?_, ?_, ?_, ?_⟩
  · intro w d l hs
    obtain ⟨m, later, hlt, hw, hid, hworker, hdeadline, rfl⟩ := h.later htask hl ho hs
    exact ⟨h.lease_lt ho.1 hw.1 hlt hid, m, later, hlt, hw, hid, hworker, hdeadline, rfl⟩
  · intro output hkind
    exact (htakes output hkind).ne_iff hregular.unclosed htask
  · intro output hkind
    exact (htakes output hkind).completes hregular.unclosed htask
  · intro output hkind
    exact calls_of_overdue ho (decide_eq_true hkind)

omit hregular in
-- The task of a watched call is held under its lease unless it is completed.
theorem Leased.status_of_watched (hw : c.Watched n call) :
    task.status = .dispatched call.worker call.deadline call.lease ∨ task.isFinished = true := by
  obtain ⟨found, hfound, hs⟩ := hl.watched n call hw
  cases htask.symm.trans hfound
  exact hs

omit hregular in
/-- A watched call has the only lease under which its task can be dispatched, so 32 bits of the leases are enough
to tell whether it is. -/
theorem Leased.heldUnder_iff_of_watched (hw : c.Watched n call) : task.heldUnder call.lease = true ↔
    ∃ w d l, task.status = .dispatched w d l ∧ UInt32.ofNat l = UInt32.ofNat call.lease := by
  rw [Task.heldUnder_eq_true_iff]
  constructor
  · rintro ⟨w, d, hs⟩
    exact ⟨w, d, call.lease, hs, rfl⟩
  · rintro ⟨w, d, l, hs, -⟩
    rcases hl.status_of_watched htask hw with hheld | hfinished
    · exact ⟨_, _, hheld⟩
    · rw [Task.isFinished_eq_true_iff, hs] at hfinished
      obtain ⟨_, hcompleted⟩ := hfinished
      cases hcompleted

theorem timelyAnswers (hw : c.Watched n call) : c.TimelyAnswers n call task := by
  have hreserved := (hl.reserved call.worker call.task).2 ⟨n, call, hw, rfl, rfl⟩
  have hfreed := Ledger.unreserve_eq_freed hreserved
  have hfailure := failure_of_watched htask hw
  have htakes : ∀ output, output.kind = call.task.kind →
      Ledger.Takes c.job.reduceCount (c.ledger.unreserve call.worker call.task) call.task task output
        (c.answer n (.ok output)).ledger :=
    fun _ hkind => takes_of_watched htask hregular (decide_eq_true hkind) hw
  simp only [hfreed] at hfailure htakes
  have hstatus := hl.status_of_watched htask hw
  have hcalls : ∀ outcome, call.admits outcome = true →
      (c.answer n outcome).calls = (c.setCallState n (.returned c.now outcome.isOk)).calls :=
    fun _ => calls_of_watched hw
  rcases hstatus with hs | hf
  · have hstage : task.status.stage = .dispatched := by
      rw [hs]
      rfl
    have hheld := (Task.heldUnder_eq_true_iff task call.lease).2 ⟨_, _, hs⟩
    refine ⟨hreserved, .inl hs, ?_, ?_, ?_, hcalls⟩
    · intro e
      rw [hfailure, Ledger.fail, if_pos hheld, if_pos hstage]
    · intro output _ hf
      rw [Ledger.isFinished_of_dispatched hstage] at hf
      cases hf
    · intro output hkind _
      have hunclosed := hregular.unclosed.unreserve call.worker call.task
      rw [hfreed] at hunclosed
      exact (htakes output hkind).completes hunclosed htask hstage
  · have hstage : task.status.stage ≠ .dispatched := by
      intro hstage
      rw [Ledger.isFinished_of_dispatched hstage] at hf
      cases hf
    have hheld : task.heldUnder call.lease = false := Task.not_heldUnder_of_stage hstage
    refine ⟨hreserved, .inr hf, ?_, ?_, ?_, hcalls⟩
    · intro e
      rw [hfailure, Ledger.fail, hheld, if_neg Bool.false_ne_true, if_neg hstage]
    · intro output hkind _
      exact (htakes output hkind).eq_of_ne hstage
    · intro output _ hnot
      rw [hf] at hnot
      cases hnot

end

/-! ## 3. Open calls and the clock -/

theorem lapse?_of_watched {c : Coordinator} {n : Nat} {call : Call} (hw : c.Watched n call) :
    c.lapse? (.expire n) = some (call, c.now) := by
  rw [lapse?, hw.1, Option.filter_some, if_pos hw.2]
  rfl

/-- The deadlines of all calls that are overdue have come. -/
def Due (c : Coordinator) : Prop :=
  ∀ call ∈ c.calls, call.state = .overdue → call.deadline ≤ c.now

section

variable {c c' : Coordinator} (h : c.Due) (hnow : c.now ≤ c'.now)

include h hnow

theorem Due.of_setCallState {n : Nat} {state : CallState}
    (hcalls : c'.calls = (c.setCallState n state).calls)
    (hstate : state = .overdue → ∀ call, c.calls[n]? = some call → call.deadline ≤ c.now) :
    c'.Due := by
  intro call hcall ho
  rw [hcalls] at hcall
  obtain ⟨old, hold, heq⟩ := mem_modify hcall
  rcases heq with rfl | ⟨hn, rfl⟩
  · exact Nat.le_trans (h _ hold ho) hnow
  · exact Nat.le_trans (hstate ho old hn) hnow

theorem Due.turn {s : Step} (ht : c.Turn s c')
    (hs : ∀ e, c.lapse? s = some e → e.1.deadline ≤ e.2) : c'.Due := by
  cases ht with
  | rests _ hcalls =>
    intro call hcall ho
    rw [hcalls] at hcall
    exact Nat.le_trans (h call hcall ho) hnow
  | hands =>
    intro call hcall ho
    rcases List.mem_append.1 hcall with hold | hnew
    · exact h call hold ho
    · rw [List.mem_singleton.1 hnew] at ho
      cases ho
  | fails _ _ _ hcalls => exact h.of_setCallState hnow hcalls nofun
  | failsLate _ _ hcalls => exact h.of_setCallState hnow hcalls nofun
  | succeeds _ _ _ hcalls => exact h.of_setCallState hnow hcalls nofun
  | succeedsLate _ _ _ hcalls => exact h.of_setCallState hnow hcalls nofun
  | @lapses n call _ _ hw _ _ hcalls =>
    refine h.of_setCallState hnow hcalls ?_
    intro _ found hfound
    cases hw.1.symm.trans hfound
    exact hs (call, c.now) (lapse?_of_watched hw)

end

theorem Due.steps {c : Coordinator} (hregular : c.Regular) (h : c.Due) {run : List Step}
    (htimely : c.Timely run) : (c.steps run).Due := by
  induction run generalizing c with
  | nil => exact h
  | cons s run ih =>
    rw [timely_cons] at htimely
    have hdue := h.turn (c.now_le_step s) (step_turn hregular s) htimely.1
    exact ih ((step_effect hregular s).regular hregular) hdue htimely.2

theorem due_after {job : Job} {workers : List Address} {config : Config} {c : Coordinator}
    (h : create? job workers config = .ok c) (history : List Event) : (c.after history).Due := by
  have hstart : c.Due := by
    intro call hcall
    rw [(create?_eq_ok h).2.2.1] at hcall
    cases hcall
  obtain ⟨run, htimely, hrun⟩ := timely_after c history
  rw [hrun]
  exact hstart.steps (regular_of_create? h) htimely

-- In a history a call that is open is overdue once its deadline has come, and not before.
theorem open_after {job : Job} {workers : List Address} {config : Config} {c : Coordinator}
    (h : create? job workers config = .ok c) (hd : 0 < config.dispatchTimeout)
    (history : List Event) {n : Nat} {call : Call} (hcall : (c.after history).calls[n]? = some call)
    (hopen : call.isOpen = true) :
    if call.deadline ≤ (c.after history).now then (c.after history).Overdue n call
    else (c.after history).Watched n call := by
  have hdue := overdueCalls_eq_nil_iff.1 (overdueCalls_after_of_create? h hd history) n call
  unfold Call.isOpen at hopen
  split at hopen
  · rename_i hstate
    have hw : (c.after history).Watched n call := ⟨hcall, decide_eq_true hstate⟩
    rw [if_neg (Nat.not_le_of_lt (hdue hw))]
    exact hw
  · rename_i hstate
    rw [if_pos (due_after h history call (List.mem_of_getElem? hcall) hstate)]
    exact ⟨hcall, hstate⟩
  · cases hopen
  · cases hopen

/-! ## 4. Answers touch what is theirs -/

/-- In every state the answers to an overdue call are late, and those to a watched call are timely. When
deadlines take effect as they come, an open call is overdue from its deadline on, and watched before. -/
theorem answers_touch_their_own {job : Job} {workers : List Address} {config : Config}
    {c₀ : Coordinator} (h : create? job workers config = .ok c₀) (run : List Step) :
    let c := c₀.steps run
    (∀ n call, c.Overdue n call → ∃ task, c.ledger.tasks.get? call.task = some task ∧
      c.LateAnswers n call task) ∧
    (∀ n call, c.Watched n call → ∃ task, c.ledger.tasks.get? call.task = some task ∧
      c.TimelyAnswers n call task) ∧
    (0 < config.dispatchTimeout → ∀ (history : List Event) (n : Nat) (call : Call),
      (c₀.after history).calls[n]? = some call → call.isOpen = true →
      if call.deadline ≤ (c₀.after history).now then (c₀.after history).Overdue n call
      else (c₀.after history).Watched n call) := by
  intro c
  have hregular : c.Regular := regular_steps (regular_of_create? h) run
  have hl : c.Leased := (leased_of_create? h).steps (regular_of_create? h) run
  refine ⟨?_, ?_, ?_⟩
  · intro n call ho
    obtain ⟨task, htask, _⟩ := hregular.known call (List.mem_of_getElem? ho.1)
    exact ⟨task, htask, lateAnswers htask hl hregular (recorded_steps h run) ho⟩
  · intro n call hw
    obtain ⟨task, htask, _⟩ := hregular.known call (List.mem_of_getElem? hw.1)
    exact ⟨task, htask, timelyAnswers htask hl hregular hw⟩
  · exact fun hd history n call hcall hopen => open_after h hd history hcall hopen

/-- A worker has the task again whose first call to it is overdue. Whether the first call fails or brings an
output, the worker stays reserved for the second one. -/
theorem reserved_after_answers_to_first_call :
    let c := pairStart.steps [.dispatch .map [.loopback 1], .tick 10000, .expire 0,
      .dispatch .map [.loopback 1]]
    c.ledger.reserved[Address.loopback 1]? = some ⟨.map, 0⟩ ∧
      (c.answer 0 (.error (.task (.unknownFunction "word_count")))).ledger = c.ledger ∧
      (c.answer 0 (.ok (.records []))).ledger.reserved = c.ledger.reserved := by
  have h : create? pairStart.job [.loopback 1, .loopback 2] {} = .ok pairStart := rfl
  intro c
  have ho : c.Overdue 0 (.mk ⟨.map, 0⟩ (.loopback 1) 1 (.map "a" "word_count") 0 10000 .overdue) :=
    ⟨rfl, rfl⟩
  have ⟨task, htask, hlate⟩ := (answers_touch_their_own h _).1 0 _ ho
  have hstage : task.status.stage = .dispatched := by
    cases htask.symm.trans (show c.ledger.tasks.get? ⟨.map, 0⟩ = some _ from rfl)
    rfl
  refine ⟨by decide +kernel, ?_, ?_⟩
  · rw [hlate.failure]
    rfl
  · exact (hlate.completes (.records []) rfl hstage).reserved

end Coordinator
end Foreman
