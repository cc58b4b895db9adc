import Foreman.Proofs.Answers

/-!
# What becomes of a task

A step leaves a task as it was, or hands it out, or takes it back, or completes it, or the task is new
(`Fate`). From that it follows which tasks are held back: those whose latest call failed in time, as long as
they are pending (`Holds`).
-/

namespace Foreman

namespace TaskTable

/-! ## 1. Pending tasks -/

/-- The task is there and pending. -/
def IsPending (t : TaskTable) (id : TaskId) : Prop :=
  ∃ task, t.get? id = some task ∧ task.isPending = true

theorem isPending_iff {t : TaskTable} {id : TaskId} {task : Task} (h : t.get? id = some task) :
    t.IsPending id ↔ task.isPending = true := by
  constructor
  · intro ⟨found, hfound, hp⟩
    cases h.symm.trans hfound
    exact hp
  · intro hp
    exact ⟨task, h, hp⟩

theorem isPending_congr {t t' : TaskTable} {id : TaskId} (h : t'.get? id = t.get? id) :
    t'.IsPending id ↔ t.IsPending id := by
  unfold IsPending
  rw [h]

theorem isPending_set_of_ne {t : TaskTable} {id other : TaskId} (h : other ≠ id) (task : Task) :
    (t.set id task).IsPending other ↔ t.IsPending other :=
  isPending_congr (get?_set_of_ne t (Ne.symm h) task)

end TaskTable

namespace Coordinator

/-! ## 2. Failures -/

/-- The latest call for the task failed in time, at the given moment. -/
def FailedLast (c : Coordinator) (id : TaskId) (time : Time) : Prop :=
  ∃ n call, c.Latest Call.task n call ∧ call.task = id ∧ call.state = .returned time false

section

variable {c c' : Coordinator}

theorem latest_unique {α : Type} {part : Call → α} {n m : Nat} {a b : Call}
    (ha : c.Latest part n a) (hb : c.Latest part m b) (hab : part a = part b) : n = m := by
  rcases Nat.lt_trichotomy n m with hlt | heq | hlt
  · exact absurd hab.symm (ha.2 m b hlt hb.1)
  · exact heq
  · exact absurd hab (hb.2 n a hlt ha.1)

-- A call that differs in the part changes nothing.
theorem latest_append {α : Type} {part : Call → α} {made found : Call} {n : Nat}
    (hcalls : c'.calls = c.calls ++ [made]) (hpart : part made ≠ part found) :
    c'.Latest part n found ↔ c.Latest part n found := by
  unfold Latest
  rw [hcalls]
  constructor
  · intro ⟨hfound, hlater⟩
    have hlt : n < c.calls.length := by
      apply Nat.lt_of_not_le
      intro hle
      rw [List.getElem?_append_right hle] at hfound
      rw [List.mem_singleton.1 (List.mem_of_getElem? hfound)] at hpart
      exact hpart rfl
    rw [List.getElem?_append_left hlt] at hfound
    refine ⟨hfound, ?_⟩
    intro m other hm hother
    apply hlater m other hm
    rw [List.getElem?_append_left (List.getElem?_eq_some_iff.1 hother).1]
    exact hother
  · intro ⟨hfound, hlater⟩
    have hn := (List.getElem?_eq_some_iff.1 hfound).1
    refine ⟨(List.getElem?_append_left hn).trans hfound, ?_⟩
    intro m other hm hother
    by_cases hlt : m < c.calls.length
    · rw [List.getElem?_append_left hlt] at hother
      exact hlater m other hm hother
    · rw [List.getElem?_append_right (Nat.le_of_not_lt hlt)] at hother
      rw [List.mem_singleton.1 (List.mem_of_getElem? hother)]
      exact hpart

theorem latest_setCallState {α : Type} {part : Call → α} {n m : Nat} {state : CallState}
    (hcalls : c'.calls = (c.setCallState n state).calls)
    (hpart : ∀ call : Call, part { call with state } = part call) (found : Call) :
    c'.Latest part m found ↔
      ∃ old, c.Latest part m old ∧ found = if n = m then { old with state } else old := by
  have hget : ∀ k, c'.calls[k]? =
      c.calls[k]?.map fun call => if n = k then { call with state } else call := by
    intro k
    rw [hcalls]
    show (c.calls.modify n _)[k]? = _
    rw [List.getElem?_modify]
    rfl
  have hkeep : ∀ k call, part (if n = k then { call with state } else call) = part call := by
    intro k call
    split
    · exact hpart call
    · rfl
  constructor
  · intro ⟨hfound, hlater⟩
    rw [hget] at hfound
    obtain ⟨old, hold, rfl⟩ := Option.map_eq_some_iff.1 hfound
    refine ⟨old, ⟨hold, ?_⟩, rfl⟩
    intro k other hk hother
    have hne := hlater k _ hk ((hget k).trans (congrArg _ hother))
    rw [hkeep, hkeep] at hne
    exact hne
  · rintro ⟨old, ⟨hold, hlater⟩, rfl⟩
    refine ⟨(hget m).trans (congrArg _ hold), ?_⟩
    intro k other hk hother
    rw [hget] at hother
    obtain ⟨before, hbefore, rfl⟩ := Option.map_eq_some_iff.1 hother
    rw [hkeep, hkeep]
    exact hlater k before hk hbefore

theorem failedLast_append {made : Call} (hcalls : c'.calls = c.calls ++ [made]) {id : TaskId}
    (hid : made.task ≠ id) (time : Time) : c'.FailedLast id time ↔ c.FailedLast id time := by
  unfold FailedLast
  constructor
  · rintro ⟨n, call, hlatest, rfl, hstate⟩
    exact ⟨n, call, (latest_append hcalls hid).1 hlatest, rfl, hstate⟩
  · rintro ⟨n, call, hlatest, rfl, hstate⟩
    exact ⟨n, call, (latest_append hcalls hid).2 hlatest, rfl, hstate⟩

-- An open call that ends is one that has failed if it ends so and is the latest one for its task.
theorem failedLast_setCallState {n : Nat} {call : Call} {state : CallState}
    (hcall : c.calls[n]? = some call) (hopen : ∀ t, call.state ≠ .returned t false)
    (hcalls : c'.calls = (c.setCallState n state).calls) (id : TaskId) (time : Time) :
    c'.FailedLast id time ↔ c.FailedLast id time ∨
      c.Latest Call.task n call ∧ call.task = id ∧ state = .returned time false := by
  have hlatest : ∀ m found, c'.Latest Call.task m found ↔
      ∃ old, c.Latest Call.task m old ∧ found = if n = m then { old with state } else old :=
    fun _ found => latest_setCallState hcalls (fun _ => rfl) found
  constructor
  · intro ⟨m, found, hfound, hid, hstate⟩
    obtain ⟨old, hold, rfl⟩ := (hlatest m found).1 hfound
    by_cases hm : n = m
    · rw [if_pos hm] at hid hstate
      subst hm
      cases hcall.symm.trans hold.1
      exact .inr ⟨hold, hid, hstate⟩
    · rw [if_neg hm] at hid hstate
      exact .inl ⟨m, old, hold, hid, hstate⟩
  · rintro (⟨m, old, hold, hid, hstate⟩ | ⟨hold, hid, hstate⟩)
    · have hm : n ≠ m := by
        rintro rfl
        cases hcall.symm.trans hold.1
        exact hopen time hstate
      exact ⟨m, old, (hlatest m old).2 ⟨old, hold, (if_neg hm).symm⟩, hid, hstate⟩
    · exact ⟨n, { call with state }, (hlatest n _).2 ⟨call, hold, (if_pos rfl).symm⟩, hid, hstate⟩

-- A call that ends otherwise leaves it open which tasks have failed last.
theorem failedLast_same {n : Nat} {call : Call} {state : CallState}
    (hcall : c.calls[n]? = some call) (hopen : ∀ t, call.state ≠ .returned t false)
    (hcalls : c'.calls = (c.setCallState n state).calls) (hstate : ∀ t, state ≠ .returned t false)
    (id : TaskId) (time : Time) : c'.FailedLast id time ↔ c.FailedLast id time := by
  rw [failedLast_setCallState hcall hopen hcalls]
  exact or_iff_left fun h => hstate time h.2.2

theorem Watched.state_ne {n : Nat} {call : Call} (hw : c.Watched n call) (time : Time) :
    call.state ≠ .returned time false := by
  rw [of_decide_eq_true hw.2]
  exact CallState.noConfusion

theorem Overdue.state_ne {n : Nat} {call : Call} (ho : c.Overdue n call) (time : Time) :
    call.state ≠ .returned time false := by
  rw [ho.2]
  exact CallState.noConfusion

-- A task whose call is watched has not failed last.
theorem Recorded.not_failedLast (h : c.Recorded) {n : Nat} {call : Call} (hw : c.Watched n call)
    (time : Time) : ¬ c.FailedLast call.task time := by
  intro ⟨m, found, hfound, hid, hstate⟩
  have hm := latest_unique hfound (h.latest hw).1 hid
  subst hm
  cases hfound.1.symm.trans hw.1
  exact hw.state_ne time hstate

theorem failedLast_congr (hcalls : c'.calls = c.calls) (id : TaskId) (time : Time) :
    c'.FailedLast id time ↔ c.FailedLast id time := by
  unfold FailedLast Latest
  rw [hcalls]

-- The end of a call changes nothing of any call but its state.
theorem mem_calls_setCallState {n : Nat} {state : CallState}
    (hcalls : c'.calls = (c.setCallState n state).calls) {call : Call} (hcall : call ∈ c'.calls) :
    ∃ old ∈ c.calls, old.task = call.task ∧ old.made = call.made := by
  rw [hcalls] at hcall
  obtain ⟨old, hold, heq⟩ := mem_modify hcall
  rcases heq with rfl | ⟨_, rfl⟩
  · exact ⟨_, hold, rfl, rfl⟩
  · exact ⟨_, hold, rfl, rfl⟩

end

/-! ## 3. What becomes of a task -/

/-- What a step makes of a task. -/
inductive Fate (c : Coordinator) (s : Step) (c' : Coordinator) (id : TaskId) : Prop
  /-- It is as it was. -/
  | stays (hpending : c'.ledger.tasks.IsPending id ↔ c.ledger.tasks.IsPending id)
      (hheld : c'.ledger.heldBack[id]? = c.ledger.heldBack[id]?)
      (hfailed : ∀ time, c'.FailedLast id time ↔ c.FailedLast id time)
  /-- It is dispatched or completed afterwards. -/
  | busy (hpending : ¬ c'.ledger.tasks.IsPending id) (hheld : c'.ledger.heldBack[id]? = none)
  /-- It is new, and no call has been about it. -/
  | begins (hheld : c'.ledger.heldBack[id]? = none) (hcalls : ∀ call ∈ c'.calls, call.task ≠ id)
  /-- Its call has failed in time, and it is held back. -/
  | fails (hpending : c'.ledger.tasks.IsPending id)
      (hheld : c'.ledger.heldBack[id]? = some (c.now + c.config.scheduleInterval))
      (hfailed : ∀ time, c'.FailedLast id time ↔ time = c.now)
  /-- The deadline of its call has taken effect. -/
  | lapses {n : Nat} {call : Call} (hw : c.Watched n call) (hid : call.task = id)
      (hstep : s = .expire n) (hheld : c'.ledger.heldBack[id]? = none)
      (hfailed : ∀ time, ¬ c'.FailedLast id time)

/-- Only pending tasks are held back. -/
def HoldsPending (c : Coordinator) : Prop :=
  ∀ id, ¬ c.ledger.tasks.IsPending id → c.ledger.heldBack[id]? = none

section

variable {c c' : Coordinator} {s : Step}

theorem fate_of_dispatch {id other : TaskId} {task : Task} {worker : Address}
    (htask : c.ledger.tasks.get? id = some task) :
    c.Fate s (c.hand id task worker) other := by
  by_cases hid : other = id
  · subst hid
    refine .busy ?_ Std.ExtTreeMap.getElem?_erase_self
    rw [TaskTable.isPending_iff (get?_hand htask)]
    exact Bool.false_ne_true
  · refine .stays (TaskTable.isPending_set_of_ne hid _) ?_ (failedLast_append rfl (Ne.symm hid))
    show (c.ledger.heldBack.erase id)[other]? = _
    rw [Std.ExtTreeMap.getElem?_erase, if_neg (mt Std.LawfulEqCmp.compare_eq_iff_eq.1 (Ne.symm hid))]

-- The end of a call says nothing of the tasks that it is not about.
theorem fate_of_other {n : Nat} {call : Call} {state : CallState} (hw : c.Watched n call)
    (hcalls : c'.calls = (c.setCallState n state).calls) {id : TaskId} (hid : id ≠ call.task)
    (hpending : c'.ledger.tasks.IsPending id ↔ c.ledger.tasks.IsPending id)
    (hback : c'.ledger.heldBack[id]? = c.ledger.heldBack[id]?) : c.Fate s c' id := by
  refine .stays hpending hback ?_
  intro time
  rw [failedLast_setCallState hw.1 hw.state_ne hcalls]
  exact or_iff_left fun h => hid h.2.1.symm

theorem Leased.not_pending {n : Nat} {call : Call} {task : Task} (hl : c.Leased)
    (hw : c.Watched n call) (htask : c.ledger.tasks.get? call.task = some task) :
    ¬ c.ledger.tasks.IsPending call.task := by
  rw [TaskTable.isPending_iff htask, Task.isPending_eq_true_iff]
  intro hp
  rcases hl.status_of_watched htask hw with hs | hf
  · rw [hp] at hs
    cases hs
  · rw [Task.isFinished, hp] at hf
    cases hf

variable (hheld : c.HoldsPending)

include hheld

section

variable {n : Nat} {call : Call} {task : Task} (hw : c.Watched n call)
  (htask : c.ledger.tasks.get? call.task = some task) (hl : c.Leased)

include hw htask hl

-- A call that does not hold its task any more changes no task at all.
theorem fate_of_unheld {state : CallState}
    (hledger : c'.ledger = c.ledger.unreserve call.worker call.task)
    (hcalls : c'.calls = (c.setCallState n state).calls) (id : TaskId) : c.Fate s c' id := by
  have htasks : c'.ledger.tasks = c.ledger.tasks := by
    rw [hledger, Ledger.unreserve_tasks]
  have hback : c'.ledger.heldBack = c.ledger.heldBack := by
    rw [hledger, Ledger.unreserve_heldBack]
  by_cases hid : id = call.task
  · subst hid
    have hpending := hl.not_pending hw htask
    refine .busy ?_ ?_
    · rw [htasks]
      exact hpending
    · rw [hback]
      exact hheld _ hpending
  · refine fate_of_other hw hcalls hid ?_ ?_
    · rw [htasks]
    · rw [hback]

variable (hr : c.Recorded)

include hr

theorem fate_of_failure
    (hledger : c'.ledger = (c.ledger.unreserve call.worker call.task).fail call task
      (c.now + c.config.scheduleInterval))
    (hcalls : c'.calls = (c.setCallState n (.returned c.now false)).calls) (id : TaskId) :
    c.Fate s c' id := by
  unfold Ledger.fail at hledger
  cases hcurrent : task.heldUnder call.lease with
  | false =>
    rw [hcurrent, if_neg Bool.false_ne_true] at hledger
    exact fate_of_unheld hheld hw htask hl hledger hcalls id
  | true =>
    rw [hcurrent, if_pos rfl] at hledger
    have htasks : c'.ledger.tasks = c.ledger.tasks.set call.task { task with status := .pending } := by
      rw [hledger, ← Ledger.unreserve_tasks c.ledger call.task call.worker]
      rfl
    have hback : c'.ledger.heldBack =
        c.ledger.heldBack.insert call.task (c.now + c.config.scheduleInterval) := by
      rw [hledger, ← Ledger.unreserve_heldBack c.ledger call.task call.worker]
      rfl
    by_cases hid : id = call.task
    · subst hid
      refine .fails ?_ ?_ ?_
      · rw [htasks, TaskTable.isPending_iff (TaskTable.get?_set_self htask _)]
        rfl
      · rw [hback, Std.ExtTreeMap.getElem?_insert_self]
      · intro time
        rw [failedLast_setCallState hw.1 hw.state_ne hcalls,
          or_iff_right (hr.not_failedLast hw time)]
        constructor
        · intro ⟨_, _, hstate⟩
          cases hstate
          rfl
        · rintro rfl
          exact ⟨(hr.latest hw).1, rfl, rfl⟩
    · refine fate_of_other hw hcalls hid ?_ ?_
      · rw [htasks]
        exact TaskTable.isPending_set_of_ne hid _
      · rw [hback, Std.ExtTreeMap.getElem?_insert,
          if_neg (mt Std.LawfulEqCmp.compare_eq_iff_eq.1 (Ne.symm hid))]

theorem fate_of_lapse
    (hledger : c'.ledger = (c.ledger.unreserve call.worker call.task).lapse call task)
    (hcalls : c'.calls = (c.setCallState n .overdue).calls) (id : TaskId) :
    c.Fate (.expire n) c' id := by
  unfold Ledger.lapse at hledger
  cases hcurrent : task.heldUnder call.lease with
  | false =>
    rw [hcurrent, if_neg Bool.false_ne_true] at hledger
    exact fate_of_unheld hheld hw htask hl hledger hcalls id
  | true =>
    rw [hcurrent, if_pos rfl] at hledger
    have htasks : c'.ledger.tasks = c.ledger.tasks.set call.task { task with status := .pending } := by
      rw [hledger, ← Ledger.unreserve_tasks c.ledger call.task call.worker]
      rfl
    have hback : c'.ledger.heldBack = c.ledger.heldBack := by
      rw [hledger, ← Ledger.unreserve_heldBack c.ledger call.task call.worker]
      rfl
    by_cases hid : id = call.task
    · subst hid
      refine .lapses hw rfl rfl ?_ ?_
      · rw [hback]
        exact hheld _ (hl.not_pending hw htask)
      · intro time
        rw [failedLast_same hw.1 hw.state_ne hcalls (fun _ => CallState.noConfusion)]
        exact hr.not_failedLast hw time
    · refine fate_of_other hw hcalls hid ?_ ?_
      · rw [htasks]
        exact TaskTable.isPending_set_of_ne hid _
      · rw [hback]

end

variable (hregular : c.Regular)

include hregular

-- An output that counts completes its task, and the tasks that come with the next phase are new.
theorem fate_of_takes {l : Ledger} {id : TaskId} {task : Task} {output : Output} {n : Nat}
    {state : CallState} (htasks : l.tasks = c.ledger.tasks) (hl : l.Unclosed)
    (hback : l.heldBack = c.ledger.heldBack) (htask : l.tasks.get? id = some task)
    (htakes : Ledger.Takes c.job.reduceCount l id task output c'.ledger)
    (hcalls : c'.calls = (c.setCallState n state).calls)
    (hfailed : ∀ other time, c'.FailedLast other time ↔ c.FailedLast other time) (other : TaskId) :
    c.Fate s c' other := by
  by_cases hs : task.status.stage = .dispatched
  · have hcompletes := htakes.completes hl htask hs
    have hsame : c'.ledger.heldBack = c.ledger.heldBack := hcompletes.heldBack.trans hback
    by_cases hid : other = id
    · subst hid
      refine .busy ?_ ?_
      · rw [TaskTable.isPending_iff hcompletes.get?_self]
        exact Bool.false_ne_true
      · rw [hsame]
        apply hheld
        rw [← htasks, TaskTable.isPending_iff htask, Task.isPending, hs]
        exact Bool.false_ne_true
    · cases hother : l.tasks.get? other with
      | some found =>
        have hget := (hcompletes.others other found hid hother).trans hother.symm
        rw [htasks] at hget
        exact .stays (TaskTable.isPending_congr hget) (by rw [hsame]) (hfailed other)
      | none =>
        rw [htasks] at hother
        refine .begins ?_ ?_
        · rw [hsame]
          apply hheld
          rintro ⟨found, hfound, _⟩
          rw [hother] at hfound
          cases hfound
        · intro call hcall hid
          obtain ⟨old, hold, htask, _⟩ := mem_calls_setCallState hcalls hcall
          obtain ⟨found, hfound, _⟩ := hregular.known old hold
          rw [htask, hid, hother] at hfound
          cases hfound
  · have heq := htakes.eq_of_ne hs
    rw [← heq] at htasks hback
    refine .stays ?_ ?_ (hfailed other)
    · rw [htasks]
    · rw [hback]

theorem Turn.fate (hl : c.Leased) (hr : c.Recorded) (ht : c.Turn s c') (id : TaskId) :
    c.Fate s c' id := by
  cases ht with
  | rests hledger hcalls =>
    refine .stays ?_ ?_ (failedLast_congr hcalls id)
    · rw [hledger]
    · rw [hledger]
  | hands _ htask => exact fate_of_dispatch htask
  | fails hw htask hledger hcalls => exact fate_of_failure hheld hw htask hl hr hledger hcalls id
  | failsLate ho hledger hcalls =>
    refine .stays ?_ ?_ ?_
    · rw [hledger]
    · rw [hledger]
    · exact failedLast_same ho.1 ho.state_ne hcalls (fun _ => CallState.noConfusion) id
  | succeeds hw htask htakes hcalls =>
    refine fate_of_takes hheld hregular (Ledger.unreserve_tasks _ _ _)
      (hregular.unclosed.unreserve _ _) (Ledger.unreserve_heldBack _ _ _) ?_ htakes hcalls ?_ id
    · rw [Ledger.unreserve_tasks]
      exact htask
    · refine failedLast_same hw.1 hw.state_ne hcalls ?_
      intro _ hstate
      cases hstate
  | succeedsLate ho htask htakes hcalls =>
    refine fate_of_takes hheld hregular rfl hregular.unclosed rfl htask htakes hcalls ?_ id
    exact failedLast_same ho.1 ho.state_ne hcalls fun _ => CallState.noConfusion
  | lapses hw htask hledger hcalls => exact fate_of_lapse hheld hw htask hl hr hledger hcalls id

end

/-! ## 4. What is held back -/

/-- The task is held back if it is pending and its latest call failed in time, until one interval after
the failure. -/
def Holds (c : Coordinator) (id : TaskId) : Prop :=
  ∀ t, c.ledger.heldBack[id]? = some t ↔ c.ledger.tasks.IsPending id ∧
    ∃ time, c.FailedLast id time ∧ t = time + c.config.scheduleInterval

section

variable {c c' : Coordinator} {id : TaskId}

theorem holds_of_none (hheld : c.ledger.heldBack[id]? = none)
    (hno : c.ledger.tasks.IsPending id → ∀ time, ¬ c.FailedLast id time) : c.Holds id := by
  intro t
  rw [hheld]
  refine iff_of_false (fun h => nomatch h) ?_
  intro ⟨hpending, time, hfailed, _⟩
  exact hno hpending time hfailed

theorem Holds.eq_none (h : c.Holds id) (hno : ∀ time, ¬ c.FailedLast id time) :
    c.ledger.heldBack[id]? = none := by
  cases hheld : c.ledger.heldBack[id]? with
  | none => rfl
  | some t =>
    obtain ⟨_, time, hfailed, _⟩ := (h t).1 hheld
    exact absurd hfailed (hno time)

theorem holdsPending (h : ∀ id, c.Holds id) : c.HoldsPending := by
  intro id hpending
  cases hheld : c.ledger.heldBack[id]? with
  | none => rfl
  | some t => exact absurd ((h id t).1 hheld).1 hpending

theorem Fate.holds {s : Step} (hf : c.Fate s c' id) (hconfig : c'.config = c.config)
    (h : c.Holds id) : c'.Holds id := by
  cases hf with
  | stays hpending hheld hfailed =>
    intro t
    simp only [hpending, hheld, hfailed, hconfig]
    exact h t
  | busy hpending hheld => exact holds_of_none hheld fun hp => absurd hp hpending
  | begins hheld hcalls =>
    refine holds_of_none hheld ?_
    intro _ time ⟨n, call, hlatest, hid, _⟩
    exact hcalls call (List.mem_of_getElem? hlatest.1) hid
  | fails hpending hheld hfailed =>
    intro t
    simp only [hheld, hfailed, hconfig, exists_eq_left, Option.some.injEq, eq_comm (a := t)]
    exact (and_iff_right hpending).symm
  | lapses _ _ _ hheld hfailed => exact holds_of_none hheld fun _ => hfailed

end

/-- The books of a coordinator, and what they say of the tasks that are held back. -/
structure Steady (c : Coordinator) : Prop where
  regular : c.Regular
  leased : c.Leased
  recorded : c.Recorded
  holds : ∀ id, c.Holds id

section

variable {c : Coordinator}

theorem Steady.fate (h : c.Steady) (s : Step) (id : TaskId) : c.Fate s (c.step s) id :=
  (step_turn h.regular s).fate (holdsPending h.holds) h.regular h.leased h.recorded id

theorem Steady.step (h : c.Steady) (s : Step) : (c.step s).Steady := by
  have he := step_effect h.regular s
  exact ⟨he.regular h.regular, he.leased h.regular h.leased,
    he.recorded (c.now_le_step s) h.regular h.leased h.recorded,
    fun id => (h.fate s id).holds he.config (h.holds id)⟩

theorem Steady.steps (h : c.Steady) (run : List Step) : (c.steps run).Steady := by
  induction run generalizing c with
  | nil => exact h
  | cons s run ih => exact ih (h.step s)

theorem steady_of_create? {job : Job} {workers : List Address} {config : Config}
    (h : create? job workers config = .ok c) : c.Steady := by
  obtain ⟨_, _, hcalls, _, _, hm⟩ := create?_eq_ok h
  obtain ⟨_, _, _, heq⟩ := hm.frame
  refine ⟨regular_of_create? h, leased_of_create? h, recorded_of_create? h, ?_⟩
  intro id
  apply holds_of_none
  · rw [heq]
    exact Std.ExtTreeMap.getElem?_empty
  · intro _ time ⟨n, call, hlatest, _⟩
    have hcall := hlatest.1
    rw [hcalls] at hcall
    cases hcall

end

end Coordinator
end Foreman
