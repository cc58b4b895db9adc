import Foreman.Proofs.Mirror
import Foreman.Proofs.Reservations

/-!
# Every job can be completed

Whatever has happened to a coordinator, its job can still be done (`no_dead_end`). Once enough time has
passed, no call is watched and no task is held back. Then a worker that answers a probe can be given one
task after the other, and every answer completes one more task.
-/

namespace Foreman

/-! ## 1. Workers that are known -/

namespace Monitor

theorem mem_foldl_insert (workers : List Address) (es : Std.ExtTreeMap Address Endpoint)
    (worker : Address) :
    worker ∈ workers.foldl (fun es w => es.insert w {}) es ↔ worker ∈ workers ∨ worker ∈ es := by
  induction workers generalizing es with
  | nil => exact (or_iff_right List.not_mem_nil).symm
  | cons first workers ih =>
    rw [List.foldl_cons, ih, Std.ExtTreeMap.mem_insert, Std.LawfulEqCmp.compare_eq_iff_eq,
      List.mem_cons, or_assoc, or_left_comm, eq_comm]

theorem mem_workers_ofWorkers (workers : List Address) (worker : Address) :
    worker ∈ (ofWorkers workers).workers ↔ worker ∈ workers := by
  unfold Monitor.workers ofWorkers
  rw [Std.ExtTreeMap.mem_keys, mem_foldl_insert]
  exact or_iff_left Std.ExtTreeMap.not_mem_empty

theorem mem_workers_note (m : Monitor) (now : Time) (probed : Address) (answered : Bool)
    (worker : Address) :
    worker ∈ (m.note now probed answered).workers ↔ worker = probed ∨ worker ∈ m.workers := by
  unfold Monitor.workers note
  rw [Std.ExtTreeMap.mem_keys, Std.ExtTreeMap.mem_keys, Std.ExtTreeMap.mem_insert,
    Std.LawfulEqCmp.compare_eq_iff_eq, eq_comm]

theorem mem_alive_note (m : Monitor) (now : Time) (worker : Address) :
    worker ∈ (m.note now worker true).alive := by
  have hget := m.endpoint_note_self now worker true
  rw [← Std.ExtTreeMap.mem_toList_iff_getElem?_eq_some] at hget
  exact List.mem_map.2 ⟨_, List.mem_filter.2 ⟨hget, rfl⟩, rfl⟩

end Monitor

theorem Coordinator.mem_workers_steps {c : Coordinator} {worker : Address}
    (h : worker ∈ c.monitor.workers) (run : List Step) : worker ∈ (c.steps run).monitor.workers := by
  induction run generalizing c with
  | nil => exact h
  | cons s run ih =>
    apply ih
    rw [monitor_step]
    cases s with
    | probed other answered => exact (Monitor.mem_workers_note _ _ _ _ _).2 (.inr h)
    | _ => exact h

/-! ## 2. Tasks that are held back -/

namespace Ledger

-- Only a failed dispatch holds a task back.
theorem heldBack_missed (l : Ledger) (config : Config) (call : Call) :
    (l.missed config call).ledger.heldBack = l.heldBack := by
  have hu := l.unreserve_heldBack call.task call.worker
  unfold missed takeBack
  dsimp only
  split
  · exact hu
  · exact hu
  · exact hu

theorem isHeldBack_congr {l l' : Ledger} (h : l'.heldBack = l.heldBack) (now : Time) (id : TaskId) :
    l'.isHeldBack now id = l.isHeldBack now id := by
  unfold isHeldBack
  rw [h]

theorem isHeldBack_handedOut {l : Ledger} {now : Time} (h : ∀ id, l.isHeldBack now id = false)
    (id : TaskId) (task : Task) (worker : Address) (deadline : Time) (other : TaskId) :
    (l.handedOut id task worker deadline).isHeldBack now other = false := by
  show ((l.heldBack.erase id)[other]?.any (now < ·)) = false
  rw [Std.ExtTreeMap.getElem?_erase]
  split
  · rfl
  · exact h other

end Ledger

namespace Coordinator

/-! ## 3. What helps -/

/-- The events that help a job on: time passes, a worker that is known answers a probe, a task of the
phase is dispatched, and a call from a number on is answered in time. -/
inductive Helps (base : Nat) (reply : Request → Output) (c : Coordinator) : Event → Prop
  | waits (ms : Time) : Helps base reply c (.elapse ms)
  | probes {worker : Address} (h : worker ∈ c.monitor.workers) :
      Helps base reply c (.probed worker true)
  | dispatches {kind : Kind} (h : c.phase.kind = some kind) : Helps base reply c (.dispatch kind)
  | answers {n : Nat} {call : Call} (hmade : base ≤ n) (hcall : c.Watched n call)
      (hnow : c.now < call.deadline) : Helps base reply c (.answer n (.ok (reply call.request)))

/-- Events that help lead from one coordinator to the other. -/
inductive Leads (base : Nat) (reply : Request → Output) : Coordinator → Coordinator → Prop
  | refl (c : Coordinator) : Leads base reply c c
  | cons {c c' : Coordinator} {e : Event} (h : Helps base reply c e)
      (rest : Leads base reply (c.handle e) c') : Leads base reply c c'

section

variable {base : Nat} {reply : Request → Output}

theorem Leads.trans {c₁ c₂ c₃ : Coordinator} (h : Leads base reply c₁ c₂)
    (h' : Leads base reply c₂ c₃) : Leads base reply c₁ c₃ := by
  induction h with
  | refl => exact h'
  | cons he _ ih => exact .cons he (ih h')

-- What helps is made of steps like everything else.
theorem Leads.steps {c c' : Coordinator} (h : Leads base reply c c') : ∃ run, c.steps run = c' := by
  induction h with
  | refl c => exact ⟨[], rfl⟩
  | @cons c _ e _ _ ih =>
    have ⟨run, hrun⟩ := ih
    refine ⟨c.stepsOf e ++ run, ?_⟩
    rw [steps_append, steps_stepsOf, hrun]

theorem Leads.keeps {c c' : Coordinator} (h : Leads base reply c c') (hregular : c.Regular) :
    c'.job = c.job ∧ c'.config = c.config ∧ c.calls.length ≤ c'.calls.length := by
  have ⟨run, hrun⟩ := h.steps
  rw [← hrun]
  exact ⟨job_steps hregular run, config_steps hregular run, length_calls_steps hregular run⟩

end

/-! ## 4. When enough time has passed -/

section

variable (c : Coordinator) (ns : List Nat)

theorem foldl_passDeadline :
    (ns.foldl passDeadline c).now = c.now ∧ (ns.foldl passDeadline c).monitor = c.monitor ∧
      (ns.foldl passDeadline c).ledger.heldBack = c.ledger.heldBack := by
  refine List.foldlRecOn (motive := fun c' => c'.now = c.now ∧ c'.monitor = c.monitor ∧
    c'.ledger.heldBack = c.ledger.heldBack) ns passDeadline ⟨rfl, rfl, rfl⟩ ?_
  intro c' ⟨hnow, hmonitor, hheld⟩ n _
  unfold passDeadline
  split
  · exact ⟨hnow, hmonitor, hheld⟩
  · exact ⟨hnow, hmonitor, (Ledger.heldBack_missed _ _ _).trans hheld⟩

variable {c ns}

theorem watched_foldl_passDeadline {m : Nat} {call : Call}
    (h : (ns.foldl passDeadline c).Watched m call) : m ∉ ns ∧ c.Watched m call := by
  induction ns generalizing c with
  | nil => exact ⟨List.not_mem_nil, h⟩
  | cons n ns ih =>
    have ⟨hns, hpassed⟩ := ih h
    have ⟨hn, hw⟩ := (watched_modify CallState.noConfusion (calls_passDeadline c n) m call).1 hpassed
    exact ⟨List.not_mem_cons_of_ne_of_not_mem hn hns, hw⟩

theorem mem_overdueCalls_of_watched {n : Nat} {call : Call} (hw : c.Watched n call)
    (hdue : call.deadline ≤ c.now) : n ∈ c.overdueCalls := by
  have hmem := List.mk_mem_zipIdx_iff_getElem?.2 hw.1
  refine List.mem_map.2 ⟨(call, n), List.mem_filter.2 ⟨hmem, ?_⟩, rfl⟩
  exact Bool.and_eq_true_iff.2 ⟨hw.2, decide_eq_true hdue⟩

theorem not_watched_elapse {ms : Time} (h : ∀ call ∈ c.calls, call.deadline ≤ c.now + ms) (n : Nat)
    (call : Call) : ¬ (c.elapse ms).Watched n call := by
  intro hw
  have ⟨hnot, hwatched⟩ := watched_foldl_passDeadline hw
  exact hnot (mem_overdueCalls_of_watched hwatched (h call (List.mem_of_getElem? hwatched.1)))

end

/-- The books balance, no call is watched, no task is held back, and some worker is alive. -/
structure Rested (c : Coordinator) (accepted : Acceptances) : Prop where
  sound : c.Sound accepted
  leased : c.Leased
  unwatched : ∀ n call, ¬ c.Watched n call
  unheld : ∀ id, c.ledger.isHeldBack c.now id = false
  alive : c.monitor.alive ≠ []

-- All deadlines and all delays have an end: the latest ones together are more than enough.
theorem exists_later (c : Coordinator) : ∃ ms, (∀ call ∈ c.calls, call.deadline ≤ c.now + ms) ∧
    ∀ id, c.ledger.isHeldBack (c.now + ms) id = false := by
  let deadlines : List Nat := c.calls.map Call.deadline
  let delays : List Nat := c.ledger.heldBack.toList.map Prod.snd
  refine ⟨deadlines.max?.getD 0 + delays.max?.getD 0, ?_, ?_⟩
  · intro call hcall
    have hle : call.deadline ≤ deadlines.max?.getD 0 :=
      List.le_max?_getD_of_mem (List.mem_map_of_mem hcall)
    exact Nat.le_trans hle (Nat.le_trans (Nat.le_add_right _ _) (Nat.le_add_left _ _))
  · intro id
    unfold Ledger.isHeldBack
    rw [Bool.eq_false_iff, ne_eq, Option.any_eq_true]
    intro ⟨time, hget, hlt⟩
    have hmem := Std.ExtTreeMap.mem_toList_iff_getElem?_eq_some.2 hget
    have hle : time ≤ delays.max?.getD 0 :=
      List.le_max?_getD_of_mem (List.mem_map_of_mem (f := Prod.snd) hmem)
    have hlater : time ≤ c.now + (deadlines.max?.getD 0 + delays.max?.getD 0) :=
      Nat.le_trans hle (Nat.le_trans (Nat.le_add_left _ _) (Nat.le_add_left _ _))
    exact absurd (of_decide_eq_true hlt) (Nat.not_lt_of_le hlater)

-- When that much time has passed, a worker that is known answers a probe.
theorem rested_of_known {c : Coordinator} {accepted : Acceptances} (h : c.Sound accepted)
    (hl : c.Leased) {worker : Address} (hw : worker ∈ c.monitor.workers) (base : Nat)
    (reply : Request → Output) :
    ∃ c' accepted', Leads base reply c c' ∧ c'.Rested accepted' := by
  have ⟨ms, hdeadlines, hdelays⟩ := c.exists_later
  have ⟨hnow, hmonitor, hheld⟩ := foldl_passDeadline { c with now := c.now + ms }
    (overdueCalls { c with now := c.now + ms })
  have hs := h.steps (c.stepsOf (.elapse ms) ++ [.probed worker true])
  have hl' := hl.steps h.regular (c.stepsOf (.elapse ms) ++ [.probed worker true])
  rw [steps_append, steps_stepsOf] at hs hl'
  have hknown : worker ∈ (c.elapse ms).monitor.workers := by
    unfold elapse
    rw [hmonitor]
    exact hw
  refine ⟨(c.elapse ms).probed worker true, _, .cons (.waits ms) (.cons (.probes hknown) (.refl _)),
    hs, hl', ?_, ?_, ?_⟩
  · exact fun n call => not_watched_elapse hdeadlines n call
  · intro id
    show (c.elapse ms).ledger.isHeldBack (c.elapse ms).now id = false
    unfold elapse
    rw [hnow, Ledger.isHeldBack_congr hheld]
    exact hdelays id
  · exact List.ne_nil_of_mem (Monitor.mem_alive_note _ _ worker)

/-! ## 5. One more task -/

section

variable {c : Coordinator} {accepted : Acceptances} (h : c.Rested accepted)

include h

theorem Rested.free_eq (workers : List Address) : c.ledger.free workers = workers := by
  apply List.filter_eq_self.2
  intro worker _
  rw [Std.ExtTreeMap.contains_eq_isSome_getElem?, Bool.not_eq_true', Option.isSome_eq_false_iff,
    Option.isNone_iff_eq_none, Option.eq_none_iff_forall_ne_some]
  intro id hid
  have ⟨n, call, hw, _⟩ := (h.leased.reserved worker id).1 hid
  exact h.unwatched n call hw

-- A task that is not completed is not dispatched either, as no call is watched.
theorem Rested.ready_ne_nil {kind : Kind} (hu : c.Unfinished kind) : c.ledger.ready c.now kind ≠ [] := by
  have ⟨i, task, htask, hf⟩ := hu
  have hpending : task.isPending = true := by
    cases hs : task.status with
    | pending => exact (Task.isPending_eq_true_iff task).2 hs
    | dispatched w d l =>
      have ⟨n, call, hw, _⟩ := h.leased.dispatched _ task w d l htask hs
      exact absurd hw (h.unwatched n call)
    | completed r =>
      rw [(Task.isFinished_eq_true_iff task).2 ⟨r, hs⟩] at hf
      cases hf
  apply List.ne_nil_of_mem (a := ⟨kind, i⟩)
  refine List.mem_filter.2 ⟨TaskTable.mem_pending.2 ⟨rfl, task, htask, hpending⟩, ?_⟩
  rw [h.unheld]
  rfl

/-- A coordinator after the dispatch of a task to a worker. -/
def hand (c : Coordinator) (id : TaskId) (task : Task) (worker : Address) : Coordinator :=
  { c with
    ledger := c.ledger.handedOut id task worker (c.now + c.config.dispatchTimeout)
    calls := c.calls ++ [Ledger.callFor c.job c.config c.now id task worker] }

theorem Rested.dispatch_eq {kind : Kind} (hkind : c.phase.kind = some kind) (hu : c.Unfinished kind) :
    ∃ id task worker, c.ledger.tasks.get? id = some task ∧
      c.handle (.dispatch kind) = c.hand id task worker ∧ Effect c none (c.hand id task worker) := by
  rcases c.ledger.assign?_cases c.job c.config c.now c.monitor.alive kind with
    ⟨hnone, _⟩ | ⟨id, task, _, _, htask, hassign⟩
  · exact absurd (hnone hkind) (h.ready_ne_nil hu)
  · rw [h.free_eq] at hassign
    have ⟨worker, hworker⟩ := Ledger.preferred_eq_some h.alive task.lastWorker
    rw [hworker] at hassign
    have hhand : c.assign kind c.monitor.alive = c.hand id task worker := by
      unfold assign
      rw [hassign]
      rfl
    refine ⟨id, task, worker, htask, ?_, ?_⟩
    · rw [← steps_stepsOf]
      exact hhand
    · rw [← hhand]
      exact c.assign_effect kind c.monitor.alive

end

theorem answer_of_watched {c : Coordinator} {n : Nat} {call : Call} (hw : c.Watched n call)
    {outcome : Outcome} (hadmits : call.admits outcome = true) :
    c.answer n outcome = (c.setCallState n (.returned c.now outcome.isOk)).applyReturn outcome
      (c.ledger.returned c.job c.config c.now call outcome) := by
  have hstate : call.state = .watched := of_decide_eq_true hw.2
  unfold answer
  rw [hw.1]
  dsimp only
  rw [hadmits, hstate]
  rfl

section

variable {c : Coordinator} {id : TaskId} {task : Task} {worker : Address}

theorem watched_hand (m : Nat) (found : Call) :
    (c.hand id task worker).Watched m found ↔ c.Watched m found ∨
      m = c.calls.length ∧ found = Ledger.callFor c.job c.config c.now id task worker :=
  watched_append rfl rfl m found

theorem watched_hand_self (c : Coordinator) (id : TaskId) (task : Task) (worker : Address) :
    (c.hand id task worker).Watched c.calls.length
      (Ledger.callFor c.job c.config c.now id task worker) :=
  (watched_hand _ _).2 (.inr ⟨rfl, rfl⟩)

variable (htask : c.ledger.tasks.get? id = some task)

include htask

theorem get?_hand : (c.hand id task worker).ledger.tasks.get? id =
    some (task.handTo worker (c.now + c.config.dispatchTimeout)) :=
  (TaskTable.get?_set htask _ id).trans (if_pos rfl)

-- The only call that is watched after a dispatch is the one that it has made, and when that is answered
-- in time, its task is completed.
theorem Rested.answer {accepted : Acceptances} (h : c.Rested accepted)
    (heffect : Effect c none (c.hand id task worker)) {output : Output}
    (hkind : output.kind = id.kind) :
    ((c.hand id task worker).answer c.calls.length (.ok output)).Rested
      (accepted ++ [(id, output)]) := by
  have hw := c.watched_hand_self id task worker
  have hadmits : (Ledger.callFor c.job c.config c.now id task worker).admits (.ok output) = true :=
    decide_eq_true hkind
  have hregular := heffect.regular h.sound.regular
  have hanswer := step_effect hregular (.answer c.calls.length (.ok output))
  rw [accepted?_answer hw.1 (get?_hand htask) rfl hadmits] at hanswer
  have heq := answer_of_watched hw hadmits
  refine ⟨?_, hanswer.leased hregular (heffect.leased h.sound.regular h.leased), ?_, ?_, ?_⟩
  · have hs := hanswer.sound (heffect.sound h.sound)
    change Sound _ (accepted ++ [] ++ [(id, output)]) at hs
    rw [List.append_nil] at hs
    exact hs
  · intro m found hfound
    rw [heq] at hfound
    have ⟨hne, hold⟩ := (watched_modify CallState.noConfusion rfl m found).1 hfound
    rcases (watched_hand m found).1 hold with hold | ⟨hm, _⟩
    · exact h.unwatched m found hold
    · exact hne hm
  · intro other
    rw [heq]
    have hends := Ledger.returned_ends (get?_hand htask) c.job hregular.unclosed hw.2 c.config c.now
      (.ok output)
    have ⟨_, _, _, _, hledger, hkept⟩ := hends.frame
    have hheld := (congrArg Ledger.heldBack hledger).trans (hkept rfl)
    rw [Ledger.unreserve_heldBack] at hheld
    exact (Ledger.isHeldBack_congr hheld c.now other).trans
      (Ledger.isHeldBack_handedOut h.unheld id task worker _ other)
  · rw [heq]
    exact h.alive

end

/-! ## 6. No dead end -/

section

variable {c : Coordinator} {accepted : Acceptances}

-- Every task is completed once at most, so there are no more outputs accepted than there are tasks.
theorem Sound.length_le (h : c.Sound accepted) :
    accepted.length ≤ c.job.splits.length + c.job.reduceCount := by
  have hids : accepted.map Prod.fst ⊆ (List.range c.job.splits.length).map (TaskId.mk .map) ++
      (List.range c.job.reduceCount).map (TaskId.mk .reduce) := by
    intro id hid
    have ⟨task, htask, _⟩ := (h.mem_ids_iff id).1 hid
    have hsome : (c.ledger.tasks.get? id).isSome = true := by rw [htask]; rfl
    obtain ⟨kind, i⟩ := id
    cases kind with
    | map =>
      apply List.mem_append_left
      exact List.mem_map_of_mem (List.mem_range.2 ((h.map_isSome i).1 hsome))
    | reduce =>
      apply List.mem_append_right
      exact List.mem_map_of_mem (List.mem_range.2 ((h.reduce_isSome i).1 hsome).2)
  have hle := h.balanced.once.length_le_of_subset hids
  rw [List.length_append, List.length_map, List.length_map, List.length_map, List.length_range,
    List.length_range] at hle
  exact hle

theorem Sound.unfinished_of_ne_done (h : c.Sound accepted)
    (hn : c.job.reduceCount ≤ Assembly.maxPartitions) (hp : c.phase ≠ .done) :
    ∃ kind, c.phase.kind = some kind ∧ c.Unfinished kind := by
  cases hphase : c.phase with
  | mapping =>
    exact ⟨.map, rfl, (h.phase_eq_mapping_iff.1 hphase).resolve_right (Nat.not_lt_of_le hn)⟩
  | reducing => exact ⟨.reduce, rfl, (h.phase_eq_reducing_iff.1 hphase).2⟩
  | done => exact absurd hphase hp

variable {base : Nat} {reply : Request → Output} (hreply : ∀ r, (reply r).kind = r.kind)

include hreply

-- A task is dispatched, its call is answered, and the coordinator is as rested as before.
theorem Rested.round (h : c.Rested accepted) (hn : c.job.reduceCount ≤ Assembly.maxPartitions)
    (hd : 0 < c.config.dispatchTimeout) (hbase : base ≤ c.calls.length) (hp : c.phase ≠ .done) :
    ∃ c' e, Leads base reply c c' ∧ c'.Rested (accepted ++ [e]) := by
  have ⟨kind, hkind, hu⟩ := h.sound.unfinished_of_ne_done hn hp
  have ⟨id, task, worker, htask, hhand, heffect⟩ := h.dispatch_eq hkind hu
  have hout := (hreply (.ofInput c.job task.input)).trans (h.sound.kind_of_request htask)
  refine ⟨_, _, ?_, h.answer htask heffect hout⟩
  apply Leads.cons (.dispatches hkind)
  rw [hhand]
  have hlate : c.now < c.now + c.config.dispatchTimeout := Nat.lt_add_of_pos_right hd
  exact .cons (.answers hbase (c.watched_hand_self id task worker) hlate) (.refl _)

theorem Rested.leads_to_done {c : Coordinator} {accepted : Acceptances} (h : c.Rested accepted)
    (hn : c.job.reduceCount ≤ Assembly.maxPartitions) (hd : 0 < c.config.dispatchTimeout)
    (hbase : base ≤ c.calls.length) : ∃ c', Leads base reply c c' ∧ c'.phase = .done := by
  by_cases hp : c.phase = .done
  · exact ⟨c, .refl c, hp⟩
  · have ⟨c', e, hleads, h'⟩ := h.round hreply hn hd hbase hp
    have ⟨hjob, hconfig, hcalls⟩ := hleads.keeps h.sound.regular
    have hlt : accepted.length < c.job.splits.length + c.job.reduceCount := by
      have hle := h'.sound.length_le
      rw [hjob, List.length_append, List.length_singleton] at hle
      omega
    rw [← hjob] at hn
    rw [← hconfig] at hd
    have ⟨c'', hrest, hdone⟩ := h'.leads_to_done hn hd (Nat.le_trans hbase hcalls)
    exact ⟨c'', hleads.trans hrest, hdone⟩
-- Every round completes one of the tasks that are left.
termination_by c.job.splits.length + c.job.reduceCount - accepted.length
decreasing_by
  rw [hjob, List.length_append, List.length_singleton]
  omega

end

-- A job whose partitions cannot be addressed never leaves its map phase.
theorem phase_after_of_lt {job : Job} {workers : List Address} {config : Config} {c₀ : Coordinator}
    (h : create? job workers config = .ok c₀) (hn : Assembly.maxPartitions < job.reduceCount)
    (run : List Step) (more : List Event) : ((c₀.steps run).after more).phase = .mapping := by
  have ⟨rest, hrest⟩ := after_eq_steps (c₀.steps run) more
  rw [hrest, ← steps_append]
  apply (sound_steps h (run ++ rest)).phase_eq_mapping_iff.2
  rw [job_of_create? h]
  exact .inr hn

/-- Whatever has happened to a coordinator, its job can still be done: time passes, a worker that is known
answers a probe, tasks of the phase are dispatched, and the calls that this makes are answered in time, with
whatever outputs. There has to be such a worker and time to answer. Only with more partitions than can be
addressed the job cannot be done, whatever happens. -/
theorem no_dead_end {job : Job} {workers : List Address} {config : Config} {c₀ : Coordinator}
    (h : create? job workers config = .ok c₀) (hd : 0 < config.dispatchTimeout) (run : List Step)
    {worker : Address} (hw : worker ∈ workers ∨ worker ∈ (c₀.steps run).monitor.workers)
    {reply : Request → Output} (hreply : ∀ r, (reply r).kind = r.kind) :
    let c := c₀.steps run
    (job.reduceCount ≤ Assembly.maxPartitions →
      ∃ c', Leads c.calls.length reply c c' ∧ c'.phase = .done ∧
        ∃ results, c'.results? = some results) ∧
    (Assembly.maxPartitions < job.reduceCount →
      ∀ more : List Event, (c.after more).phase = .mapping) := by
  intro c
  refine ⟨?_, fun hn more => phase_after_of_lt h hn run more⟩
  intro hn
  have hregular := regular_of_create? h
  have hs : c.Sound (c₀.accepted run) := sound_steps h run
  have hl : c.Leased := (leased_of_create? h).steps hregular run
  have hknown : worker ∈ c.monitor.workers := by
    rcases hw with hgiven | hknown
    · apply mem_workers_steps
      rw [monitor_of_create? h]
      exact (Monitor.mem_workers_ofWorkers workers worker).2 hgiven
    · exact hknown
  have ⟨c₁, accepted, hrests, hrested⟩ := rested_of_known hs hl hknown c.calls.length reply
  have ⟨hjob, hconfig, hcalls⟩ := hrests.keeps hs.regular
  rw [← job_of_create? h run, ← hjob] at hn
  rw [← (create?_eq_ok h).2.1, ← config_steps hregular run, ← hconfig] at hd
  have ⟨c₂, hleads, hdone⟩ := hrested.leads_to_done hreply hn hd hcalls
  have ⟨rest, hrest⟩ := hleads.steps
  have hs₂ := hrested.sound.steps rest
  rw [hrest] at hs₂
  exact ⟨c₂, hrests.trans hleads, hdone, _, hs₂.results?_of_done hdone⟩

/-- The least that a worker can answer. -/
def emptyReply : Request → Output
  | .map .. => .records []
  | .reduce .. => .value ""

/-- One attempt at the reduce task is overdue and another is open, and the job can still be done. -/
theorem done_after_lost_calls :
    ∃ c', Leads 5 emptyReply (pairStart.steps pairRun) c' ∧ c'.phase = .done := by
  have h : create? pairStart.job [.loopback 1, .loopback 2] {} = .ok pairStart := rfl
  have hknown : Address.loopback 2 ∈ [Address.loopback 1, .loopback 2] := by decide
  have hreply : ∀ r, (emptyReply r).kind = r.kind := by
    intro r
    cases r with
    | map => rfl
    | reduce => rfl
  have ⟨c', hleads, hdone, _⟩ :=
    (no_dead_end h (by decide) pairRun (.inl hknown) hreply).1 (by decide)
  exact ⟨c', hleads, hdone⟩

/-- With more partitions than can be addressed no continuation leads to a job that is done, although a
worker is known and has time to answer. -/
theorem never_done_with_too_many_partitions :
    ∃ c₀, create? ⟨["s"], "word_count", "sum", 9223372036854775808, by decide⟩ [.loopback 1] {} =
        .ok c₀ ∧
      Address.loopback 1 ∈ c₀.monitor.workers ∧ 0 < c₀.config.dispatchTimeout ∧
      ∀ more : List Event, (c₀.after more).phase ≠ .done := by
  have ⟨c₀, h⟩ : ∃ c₀, create? ⟨["s"], "word_count", "sum", 9223372036854775808, by decide⟩
      [.loopback 1] {} = .ok c₀ := ⟨_, rfl⟩
  refine ⟨c₀, h, ?_, ?_, ?_⟩
  · rw [monitor_of_create? h, Monitor.mem_workers_ofWorkers]
    exact List.mem_cons_self
  · rw [(create?_eq_ok h).2.1]
    decide
  · intro more hdone
    have hmapping := phase_after_of_lt h (by decide) [] more
    cases hmapping.symm.trans hdone

end Coordinator
end Foreman
