import Foreman.Proofs.Fates

/-!
# Retries are paced

A dispatch passes a task over as held back just as long as its latest call failed in time and less than one
scheduling interval ago. Every other task waits for nothing but its turn. A task comes back only when its
call has failed or its deadline has come, so between two dispatches of it there is the interval or the
timeout at least, whichever is shorter (`retries_are_paced`).
-/

namespace Foreman

/-! ## 1. Moments that keep apart -/

theorem length_mul_le_of_apart {gap first span : Nat} {times : List Nat}
    (h : (first :: times).Pairwise fun a b => a + gap ≤ b) (hspan : ∀ t ∈ times, t ≤ first + span) :
    times.length * gap ≤ span := by
  induction times generalizing first span with
  | nil =>
    rw [List.length_nil, Nat.zero_mul]
    exact Nat.zero_le span
  | cons second times ih =>
    obtain ⟨hfirst, hrest⟩ := List.pairwise_cons.1 h
    have hnext : first + gap ≤ second := hfirst second List.mem_cons_self
    have hlast := hspan second List.mem_cons_self
    -- The moments after the second one lie in what is left of the span.
    have hleft : ∀ t ∈ times, t ≤ second + (first + span - second) := by
      intro t ht
      have hle := hspan t (List.mem_cons_of_mem second ht)
      omega
    have hle := ih hrest hleft
    rw [List.length_cons, Nat.succ_mul]
    omega

theorem countP_modify {α : Type} {p : α → Bool} {f : α → α} (hp : ∀ a, p (f a) = p a) (xs : List α)
    (n : Nat) : (xs.modify n f).countP p = xs.countP p := by
  induction xs generalizing n with
  | nil => rw [List.modify_nil]
  | cons x xs ih =>
    cases n with
    | zero => rw [List.modify_zero_cons, List.countP_cons, List.countP_cons, hp]
    | succ n => rw [List.modify_succ_cons, List.countP_cons, List.countP_cons, ih]

/-! ## 2. Tasks that are ready -/

namespace Ledger

theorem isHeldBack_iff (l : Ledger) (now : Time) (id : TaskId) :
    l.isHeldBack now id = true ↔ ∃ t, l.heldBack[id]? = some t ∧ now < t := by
  unfold isHeldBack
  rw [Option.any_eq_true]
  simp only [decide_eq_true_eq]

theorem mem_ready {l : Ledger} {now : Time} {kind : Kind} {id : TaskId} :
    id ∈ l.ready now kind ↔ id ∈ l.tasks.pending kind ∧
      ¬ ∃ t, l.heldBack[id]? = some t ∧ now < t := by
  unfold ready
  rw [List.mem_filter, Bool.not_eq_true', ← isHeldBack_iff, Bool.not_eq_true]

-- What a dispatch hands out is the first task that is ready.
theorem head?_ready_of_assign? {l l' : Ledger} {job : Job} {config : Config} {now : Time}
    {alive : List Address} {kind : Kind} {call : Call}
    (h : l.assign? job config now alive kind = .ok (some (call, l'))) :
    (l.ready now kind).head? = some call.task := by
  unfold assign? at h
  split at h
  · cases h
  · split at h
    · cases h
    · rename_i id hid
      split at h
      · cases h
      · split at h
        · cases h
        · simp only at h
          split at h
          · cases h
          · cases h
            exact hid

end Ledger

namespace Coordinator

/-! ## 3. The pause between two dispatches -/

/-- Calls for one task are made a gap apart at least, and a pending task will not be dispatched before a gap
has passed since its calls were made. -/
structure Paced (c : Coordinator) (gap : Time) : Prop where
  order : c.calls.Pairwise fun a b => a.made ≤ b.made
  apart : c.calls.Pairwise fun a b => a.task = b.task → a.made + gap ≤ b.made
  pause : ∀ call ∈ c.calls, c.ledger.tasks.IsPending call.task → call.made + gap ≤ c.now ∨
    ∃ t, c.ledger.heldBack[call.task]? = some t ∧ call.made + gap ≤ t

section

variable {c c' : Coordinator} {gap : Time}

-- A step makes a call for a task that is ready, or it makes none.
theorem Turn.calls_cases {s : Step} (ht : c.Turn s c') :
    c'.calls = c.calls ∨ (∃ n state, c'.calls = (c.setCallState n state).calls) ∨
      ∃ kind id task worker, id ∈ c.ledger.ready c.now kind ∧ c.ledger.tasks.get? id = some task ∧
        c' = c.hand id task worker := by
  cases ht with
  | rests _ hcalls => exact .inl hcalls
  | hands hready htask => exact .inr (.inr ⟨_, _, _, _, hready, htask, rfl⟩)
  | fails _ _ _ hcalls => exact .inr (.inl ⟨_, _, hcalls⟩)
  | failsLate _ _ hcalls => exact .inr (.inl ⟨_, _, hcalls⟩)
  | succeeds _ _ _ hcalls => exact .inr (.inl ⟨_, _, hcalls⟩)
  | succeedsLate _ _ _ hcalls => exact .inr (.inl ⟨_, _, hcalls⟩)
  | lapses _ _ _ hcalls => exact .inr (.inl ⟨_, _, hcalls⟩)

-- When a task is ready, the pause after each of its calls is over.
theorem Paced.le_now (h : c.Paced gap) {kind : Kind} {id : TaskId}
    (hready : id ∈ c.ledger.ready c.now kind) {call : Call} (hcall : call ∈ c.calls)
    (hid : call.task = id) : call.made + gap ≤ c.now := by
  obtain ⟨hpending, hnot⟩ := Ledger.mem_ready.1 hready
  have hwait := h.pause call hcall
  rw [hid] at hwait
  rcases hwait (TaskTable.mem_pending.1 hpending).2 with hle | ⟨t, hheld, hle⟩
  · exact hle
  · refine Nat.le_trans hle (Nat.le_of_not_lt ?_)
    exact fun hlt => hnot ⟨t, hheld, hlt⟩

theorem Paced.order_step {s : Step} (h : c.Paced gap) (hr : c.Recorded) (ht : c.Turn s c') :
    (c'.calls.Pairwise fun a b => a.made ≤ b.made) ∧
      c'.calls.Pairwise fun a b => a.task = b.task → a.made + gap ≤ b.made := by
  rcases ht.calls_cases with hcalls | ⟨n, state, hcalls⟩ | ⟨kind, id, task, worker, hready, _, rfl⟩
  · rw [hcalls]
    exact ⟨h.order, h.apart⟩
  · rw [hcalls]
    constructor
    · refine pairwise_modify ?_ h.order n
      exact fun _ _ hab => ⟨hab, hab⟩
    · refine pairwise_modify ?_ h.apart n
      exact fun _ _ hab => ⟨hab, hab⟩
  · show (c.calls ++ [_]).Pairwise _ ∧ (c.calls ++ [_]).Pairwise _
    rw [List.pairwise_append, List.pairwise_append]
    refine ⟨⟨h.order, List.pairwise_singleton _ _, ?_⟩, h.apart, List.pairwise_singleton _ _, ?_⟩
    · intro a ha b hb
      rw [List.mem_singleton.1 hb]
      exact (hr.dates a ha).1
    · intro a ha b hb hab
      rw [List.mem_singleton.1 hb] at hab ⊢
      exact h.le_now hready ha hab

-- The watched call of a task is the last one that was made for it.
theorem Paced.made_le (h : c.Paced gap) (hr : c.Recorded) {n : Nat} {last call : Call}
    (hw : c.Watched n last) (hcall : call ∈ c.calls) (hid : call.task = last.task) :
    call.made ≤ last.made := by
  obtain ⟨m, hm⟩ := List.getElem?_of_mem hcall
  obtain ⟨hlen, rfl⟩ := List.getElem?_eq_some_iff.1 hm
  obtain ⟨hlen', hlast⟩ := List.getElem?_eq_some_iff.1 hw.1
  rcases Nat.lt_trichotomy m n with hlt | rfl | hlt
  · have hle := List.pairwise_iff_getElem.1 h.order m n hlen hlen' hlt
    rw [hlast] at hle
    exact hle
  · rw [hlast]
  · exact absurd hid ((hr.latest hw).1.2 m _ hlt hm)

-- A call that is made now has its task dispatched, so the calls for pending tasks are old.
theorem Turn.exists_old {s : Step} (ht : c.Turn s c') {call : Call} (hcall : call ∈ c'.calls)
    (hpending : c'.ledger.tasks.IsPending call.task) :
    ∃ old ∈ c.calls, old.task = call.task ∧ old.made = call.made := by
  rcases ht.calls_cases with hcalls | ⟨n, state, hcalls⟩ | ⟨_, id, task, worker, _, htask, rfl⟩
  · rw [hcalls] at hcall
    exact ⟨call, hcall, rfl, rfl⟩
  · exact mem_calls_setCallState hcalls hcall
  · rcases List.mem_append.1 hcall with hmem | hmem
    · exact ⟨call, hmem, rfl, rfl⟩
    · rw [List.mem_singleton.1 hmem] at hpending
      exact absurd ((TaskTable.isPending_iff (get?_hand htask)).1 hpending) Bool.false_ne_true

theorem Paced.step (h : c.Paced gap) (hs : c.Steady) {s : Step}
    (hinterval : gap ≤ c.config.scheduleInterval) (htimeout : gap ≤ c.config.dispatchTimeout)
    (htimely : ∀ e, c.lapse? s = some e → e.1.deadline ≤ e.2) : (c.step s).Paced gap := by
  have ht := step_turn hs.regular s
  obtain ⟨horder, hapart⟩ := h.order_step hs.recorded ht
  refine ⟨horder, hapart, ?_⟩
  intro call hcall hpending
  have hnow := c.now_le_step s
  obtain ⟨old, hmem, hid, hmade⟩ := ht.exists_old hcall hpending
  have hdate := (hs.recorded.dates old hmem).1
  have hpause := h.pause old hmem
  rw [hid, hmade] at hpause
  rw [hmade] at hdate
  cases hs.fate s call.task with
  | stays hsame hheld _ =>
    rw [hheld]
    rcases hpause (hsame.1 hpending) with hle | hle
    · exact .inl (Nat.le_trans hle hnow)
    · exact .inr hle
  | busy hnot => exact absurd hpending hnot
  | begins _ hnone => exact absurd rfl (hnone call hcall)
  | fails _ hheld _ => exact .inr ⟨_, hheld, Nat.add_le_add hdate hinterval⟩
  | @lapses n last hw hlast hstep =>
    have hmade' := h.made_le hs.recorded hw hmem (hid.trans hlast.symm)
    have hdeadline := (hs.recorded.dates last (List.mem_of_getElem? hw.1)).2
    have hdue : last.deadline ≤ c.now := htimely (last, c.now) (hstep ▸ lapse?_of_watched hw)
    left
    calc call.made + gap
        ≤ last.made + c.config.dispatchTimeout := Nat.add_le_add (hmade ▸ hmade') htimeout
      _ = last.deadline := hdeadline.symm
      _ ≤ (c.step s).now := Nat.le_trans hdue hnow

theorem Paced.steps (h : c.Paced gap) (hs : c.Steady)
    (hinterval : gap ≤ c.config.scheduleInterval) (htimeout : gap ≤ c.config.dispatchTimeout)
    {run : List Step} (htimely : c.Timely run) : (c.steps run).Paced gap := by
  induction run generalizing c with
  | nil => exact h
  | cons s run ih =>
    rw [timely_cons] at htimely
    have hconfig := (step_effect hs.regular s).config
    apply ih (h.step hs hinterval htimeout htimely.1) (hs.step s) _ _ htimely.2
    · rw [hconfig]
      exact hinterval
    · rw [hconfig]
      exact htimeout

-- The moments of the calls for one task keep apart, from its first call on.
theorem Paced.count_le (h : c.Paced gap) (hgap : 0 < gap) {id : TaskId} {first : Call}
    (hfirst : c.calls.find? (fun call => call.task = id) = some first) (span : Time) :
    c.calls.countP (fun call => call.made ≤ first.made + span && call.task = id) ≤
      1 + span / gap := by
  rw [← List.head?_filter] at hfirst
  obtain ⟨rest, hrest⟩ := List.head?_eq_some_iff.1 hfirst
  have happart : (first :: rest).Pairwise fun a b => a.made + gap ≤ b.made := by
    rw [← hrest]
    refine (h.apart.filter _).imp_of_mem ?_
    intro a b ha hb hab
    have hida := of_decide_eq_true (List.mem_filter.1 ha).2
    have hidb := of_decide_eq_true (List.mem_filter.1 hb).2
    exact hab (hida.trans hidb.symm)
  let early := rest.filter fun call => call.made ≤ first.made + span
  have htimes : (first.made :: early.map Call.made).Pairwise fun a b => a + gap ≤ b := by
    rw [← List.map_cons, List.pairwise_map]
    exact happart.sublist (List.filter_sublist.cons_cons first)
  have hspan : ∀ t ∈ early.map Call.made, t ≤ first.made + span := by
    intro t ht
    obtain ⟨call, hcall, rfl⟩ := List.mem_map.1 ht
    exact of_decide_eq_true (List.mem_filter.1 hcall).2
  have hle := length_mul_le_of_apart htimes hspan
  rw [List.length_map, ← Nat.le_div_iff_mul_le hgap] at hle
  have hself : decide (first.made ≤ first.made + span) = true :=
    decide_eq_true (Nat.le_add_right _ _)
  rw [← List.countP_filter, hrest, List.countP_cons, if_pos hself, List.countP_eq_length_filter,
    Nat.add_comm]
  exact Nat.add_le_add_left hle 1

end

end Coordinator

/-! ## 4. Attempts -/

-- No task has been dispatched at the start.
theorem TaskTable.attempts_of_ofSplits {splits : List String} {id : TaskId} {task : Task}
    (h : (TaskTable.ofSplits splits).get? id = some task) : task.attempts = 0 := by
  obtain ⟨kind, i⟩ := id
  cases kind with
  | map =>
    rw [TaskTable.get?_ofSplits_map] at h
    obtain ⟨path, _, rfl⟩ := Option.map_eq_some_iff.1 h
    rfl
  | reduce =>
    rw [TaskTable.get?_ofSplits_reduce] at h
    cases h

namespace Ledger

-- A task that is new after the end of a call has not been dispatched yet.
theorem Ends.attempts_of_new {n : Nat} {l l' : Ledger} {call : Call} {task : Task}
    {taken : Option Output} {entered : Option Phase} (he : Ends n l call task taken l' entered)
    (htask : l.tasks.get? call.task = some task) {id : TaskId} {new : Task}
    (hold : l.tasks.get? id = none) (hnew : l'.tasks.get? id = some new) : new.attempts = 0 := by
  have hid : id ≠ call.task := by
    rintro rfl
    rw [hold] at htask
    cases htask
  cases he with
  | keeps =>
    rw [hold] at hnew
    cases hnew
  | takesBack =>
    change (l.tasks.set _ _).get? id = _ at hnew
    rw [TaskTable.get?_set htask, if_neg hid, hold] at hnew
    cases hnew
  | completes _ hm =>
    rcases hm.get?_cases hnew with hsame | ⟨_, p, rfl⟩
    · rw [complete_tasks, TaskTable.get?_set htask, if_neg hid, hold] at hsame
      cases hsame
    · rfl

end Ledger

namespace Coordinator

/-- Every task counts its calls. -/
def Counted (c : Coordinator) : Prop :=
  ∀ id task, c.ledger.tasks.get? id = some task →
    task.attempts = c.calls.countP fun call => call.task = id

section

variable {c c' : Coordinator}

theorem Counted.hands (h : c.Counted) {id : TaskId} {task : Task} {worker : Address}
    (htask : c.ledger.tasks.get? id = some task) : (c.hand id task worker).Counted := by
  intro other found hfound
  change (c.ledger.tasks.set id _).get? other = _ at hfound
  rw [TaskTable.get?_set htask] at hfound
  have hcount : (c.hand id task worker).calls.countP (fun call => call.task = other) =
      c.calls.countP (fun call => call.task = other) + if id = other then 1 else 0 := by
    show (c.calls ++ [_]).countP _ = _
    rw [List.countP_append, List.countP_singleton]
    simp only [decide_eq_true_eq]
    rfl
  rw [hcount]
  by_cases hid : other = id
  · subst hid
    rw [if_pos rfl] at hfound ⊢
    cases hfound
    rw [← h other task htask]
    rfl
  · rw [if_neg hid] at hfound
    rw [if_neg (Ne.symm hid), h other found hfound]
    rfl

theorem Counted.ends (h : c.Counted) (hregular : c.Regular) {n : Nat} {call : Call} {task : Task}
    {state : CallState} {taken : Option Output} {entered : Option Phase}
    (htask : c.ledger.tasks.get? call.task = some task)
    (hends : Ledger.Ends c.job.reduceCount (c.released call) call task taken c'.ledger entered)
    (hcalls : c'.calls = c.calls.modify n fun call => { call with state }) : c'.Counted := by
  intro id found hfound
  have hcount : c'.calls.countP (fun call => call.task = id) =
      c.calls.countP fun call => call.task = id := by
    rw [hcalls]
    apply countP_modify
    exact fun _ => rfl
  rw [hcount]
  -- The end of the call starts from the table in which its worker is free, which is the same.
  rw [← released_tasks c call] at htask
  cases hold : c.ledger.tasks.get? id with
  | some old =>
    rw [← h id old hold]
    rw [← released_tasks c call] at hold
    obtain ⟨status, hstatus⟩ := hends.get?_status (hregular.released call) htask hold
    cases hstatus.symm.trans hfound
    rfl
  | none =>
    have hnone : c.calls.countP (fun call => call.task = id) = 0 := by
      rw [List.countP_eq_zero]
      intro other hother hid
      obtain ⟨known, hknown, _⟩ := hregular.known other hother
      rw [of_decide_eq_true hid, hold] at hknown
      cases hknown
    rw [hnone]
    rw [← released_tasks c call] at hold
    exact hends.attempts_of_new htask hold hfound

theorem Effect.counted {accepted : Option (TaskId × Output)} (he : Effect c accepted c')
    (hregular : c.Regular) (h : c.Counted) : c'.Counted := by
  cases he with
  | idle => exact h
  | hands id task worker _ htask => exact h.hands htask
  | ends n call task state _ _ _ htask hends => exact h.ends hregular htask hends rfl

theorem counted_steps {job : Job} {workers : List Address} {config : Config}
    (h : create? job workers config = .ok c) (run : List Step) : (c.steps run).Counted := by
  have hstart : c.Counted := by
    obtain ⟨_, _, hcalls, _, _, hm⟩ := create?_eq_ok h
    intro id task htask
    rw [hcalls, List.countP_nil]
    rcases hm.get?_cases htask with hold | ⟨_, p, rfl⟩
    · exact TaskTable.attempts_of_ofSplits hold
    · rfl
  refine steps_induct (P := fun c _ => c.Counted) ?_ (regular_of_create? h) [] hstart run
  intro _ _ _ _ hregular he hcounted
  exact he.counted hregular hcounted

end

/-! ## 5. Pacing -/

/-- What a dispatch passes over. A watched call that fails is known to have failed at that moment. A task is
held back just if it is pending and its latest call failed in time, until one interval after the failure; a
pending task is passed over just before then. What is dispatched is the first task that is not passed over. A
task without any call, and one whose latest call did not come back by its deadline, are not held back. -/
structure HoldsBack (c : Coordinator) (interval : Time) : Prop where
  fails : ∀ n call e, c.Watched n call → (c.answer n (.error e)).FailedLast call.task c.now
  entry : ∀ id t, c.ledger.heldBack[id]? = some t ↔ id ∈ c.ledger.tasks.pending id.kind ∧
    ∃ time, c.FailedLast id time ∧ t = time + interval
  passed : ∀ kind id, id ∈ c.ledger.tasks.pending kind →
    (id ∉ c.ledger.ready c.now kind ↔ ∃ time, c.FailedLast id time ∧ c.now < time + interval)
  first : ∀ kind id next, c.dispatchOne kind = .ok (some id, next) →
    (c.ledger.ready c.now kind).head? = some id
  unmade : ∀ id, (∀ call ∈ c.calls, call.task ≠ id) → c.ledger.heldBack[id]? = none
  lapsed : ∀ n call, c.Latest Call.task n call →
    call.state = .overdue ∨ (∃ time, call.state = .returnedLate time) →
    c.ledger.heldBack[call.task]? = none

/-- The calls for one task are made a gap apart at least. A task counts its calls, and the number of those
made in a span of time from the first one on is bounded by the gaps that fit into the span. -/
structure Spaced (c : Coordinator) (gap : Time) : Prop where
  apart : c.calls.Pairwise fun a b => a.task = b.task → a.made + gap ≤ b.made
  attempts : ∀ id task, c.ledger.tasks.get? id = some task →
    task.attempts = c.calls.countP fun call => call.task = id
  bounded : 0 < gap → ∀ id first span,
    c.calls.find? (fun call => call.task = id) = some first →
    c.calls.countP (fun call => call.made ≤ first.made + span && call.task = id) ≤ 1 + span / gap

section

variable {c : Coordinator}

theorem Steady.passed (h : c.Steady) {kind : Kind} {id : TaskId}
    (hpending : id ∈ c.ledger.tasks.pending kind) :
    id ∉ c.ledger.ready c.now kind ↔
      ∃ time, c.FailedLast id time ∧ c.now < time + c.config.scheduleInterval := by
  rw [Ledger.mem_ready, and_iff_right hpending, not_not]
  constructor
  · intro ⟨t, hheld, hlt⟩
    obtain ⟨_, time, hfailed, rfl⟩ := (h.holds id t).1 hheld
    exact ⟨time, hfailed, hlt⟩
  · intro ⟨time, hfailed, hlt⟩
    have hthere := (TaskTable.mem_pending.1 hpending).2
    exact ⟨_, (h.holds id _).2 ⟨hthere, time, hfailed, rfl⟩, hlt⟩

theorem head?_ready_of_dispatchOne {kind : Kind} {id : TaskId} {next : Coordinator}
    (h : c.dispatchOne kind = .ok (some id, next)) : (c.ledger.ready c.now kind).head? = some id := by
  unfold dispatchOne at h
  split at h
  · cases h
  · cases h
  · rename_i hassign
    cases h
    exact Ledger.head?_ready_of_assign? hassign

theorem Steady.holdsBack (h : c.Steady) : c.HoldsBack c.config.scheduleInterval := by
  refine ⟨?_, ?_, fun _ _ => h.passed, fun _ _ _ => head?_ready_of_dispatchOne, ?_, ?_⟩
  · intro n call e hw
    rw [failedLast_setCallState hw.1 hw.state_ne (calls_of_watched hw rfl)]
    exact .inr ⟨(h.recorded.latest hw).1, rfl, rfl⟩
  · intro id t
    rw [h.holds id t, TaskTable.mem_pending]
    exact and_congr_left' (and_iff_right rfl).symm
  · intro id hno
    apply (h.holds id).eq_none
    intro time ⟨n, call, hlatest, hid, _⟩
    exact hno call (List.mem_of_getElem? hlatest.1) hid
  · intro n call hlatest hstate
    apply (h.holds call.task).eq_none
    intro time ⟨m, found, hfound, hid, hfailed⟩
    have hm := latest_unique hfound hlatest hid
    subst hm
    cases hfound.1.symm.trans hlatest.1
    rw [hfailed] at hstate
    rcases hstate with hstate | ⟨_, hstate⟩
    · cases hstate
    · cases hstate

end

section

variable {job : Job} {workers : List Address} {config : Config} {c : Coordinator}
  (h : create? job workers config = .ok c)

include h

theorem holdsBack_steps (run : List Step) : (c.steps run).HoldsBack config.scheduleInterval := by
  have hholds := ((steady_of_create? h).steps run).holdsBack
  rw [config_steps (regular_of_create? h), (create?_eq_ok h).2.1] at hholds
  exact hholds

theorem spaced_steps {run : List Step} (htimely : c.Timely run) :
    (c.steps run).Spaced (min config.dispatchTimeout config.scheduleInterval) := by
  have hconfig := (create?_eq_ok h).2.1
  have hcalls := (create?_eq_ok h).2.2.1
  have hstart : c.Paced (min config.dispatchTimeout config.scheduleInterval) := by
    refine ⟨?_, ?_, ?_⟩
    · rw [hcalls]
      exact .nil
    · rw [hcalls]
      exact .nil
    · rw [hcalls]
      exact fun _ hmem => nomatch hmem
  have hpaced : (c.steps run).Paced (min config.dispatchTimeout config.scheduleInterval) := by
    refine hstart.steps (steady_of_create? h) ?_ ?_ htimely
    · rw [hconfig]
      exact Nat.min_le_right _ _
    · rw [hconfig]
      exact Nat.min_le_left _ _
  exact ⟨hpaced.apart, counted_steps h run,
    fun hgap id first span hfirst => hpaced.count_le hgap hfirst span⟩

theorem paced_after (history : List Event) :
    (c.after history).HoldsBack config.scheduleInterval ∧
      (c.after history).Spaced (min config.dispatchTimeout config.scheduleInterval) := by
  obtain ⟨run, htimely, hrun⟩ := timely_after c history
  rw [hrun]
  exact ⟨holdsBack_steps h run, spaced_steps h htimely⟩

end

/-- In every state a dispatch passes over the tasks that failed less than an interval ago, and no others.
When no deadline takes effect before it has come, as in every history of events and in every run of the
coordinator on the clock, two dispatches of a task are apart by the timeout or the interval, whichever is
shorter, and that bounds the attempts at a task. -/
theorem retries_are_paced {job : Job} {workers : List Address} {config : Config} {c₀ : Coordinator}
    (h : create? job workers config = .ok c₀) :
    (∀ run : List Step, (c₀.steps run).HoldsBack config.scheduleInterval ∧
      (c₀.Timely run →
        (c₀.steps run).Spaced (min config.dispatchTimeout config.scheduleInterval))) ∧
    (∀ history : List Event, (c₀.after history).HoldsBack config.scheduleInterval ∧
      (c₀.after history).Spaced (min config.dispatchTimeout config.scheduleInterval)) ∧
    ∀ {σ : Type} (t : Transport σ) (world : σ) (limit : Time),
      let c := ((Simulation.start t world c₀).runFor limit).2.coordinator
      c.HoldsBack config.scheduleInterval ∧
        c.Spaced (min config.dispatchTimeout config.scheduleInterval) := by
  refine ⟨?_, paced_after h, ?_⟩
  · exact fun run => ⟨holdsBack_steps h run, fun htimely => spaced_steps h htimely⟩
  · intro σ t world limit
    have ⟨history, hhistory⟩ := Simulation.becomes_runFor
      (s := Simulation.start t world c₀) (.refl c₀) limit
    rw [← hhistory]
    exact paced_after h history

/-- A task fails at 300 and is passed over until 500. Its second call does not come back, and the third one is
made at the deadline of the second. -/
theorem three_attempts_apart :
    let first : List Step := [.dispatch .map [.loopback 1], .tick 300,
      .answer 0 (.error (.task (.unknownFunction "word_count"))), .tick 199]
    let c := pairStart.steps first
    let c' := pairStart.steps (first ++ [.tick 1, .dispatch .map [.loopback 1], .tick 10000, .expire 1,
      .dispatch .map [.loopback 1]])
    ⟨.map, 0⟩ ∉ c.ledger.ready c.now .map ∧ c'.calls.map Call.made = [0, 500, 10500] ∧
      c'.calls.Pairwise fun a b => a.task = b.task → a.made + 200 ≤ b.made := by
  have h : create? pairStart.job [.loopback 1, .loopback 2] {} = .ok pairStart := rfl
  intro first c c'
  refine ⟨?_, by decide +kernel, ?_⟩
  · apply (((retries_are_paced h).1 first).1.passed .map ⟨.map, 0⟩ (by decide +kernel)).2
    refine ⟨300, ⟨0, _, ⟨rfl, ?_⟩, rfl, rfl⟩, by decide +kernel⟩
    intro m other hm hother
    have hlen := (List.getElem?_eq_some_iff.1 hother).1
    exact absurd hm (Nat.not_lt_of_le (Nat.le_of_lt_succ hlen))
  · have htimely : pairStart.Timely (first ++ [.tick 1, .dispatch .map [.loopback 1], .tick 10000,
        .expire 1, .dispatch .map [.loopback 1]]) := by
      unfold Timely
      decide +kernel
    exact (((retries_are_paced h).1 _).2 htimely).apart

end Coordinator
end Foreman
