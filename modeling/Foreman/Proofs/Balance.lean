import Foreman.Proofs.Effects

/-!
# The books balance

The tasks, the assembly and the phase of a ledger are changed by different operations. They always
agree with each other and with the outputs that have been accepted: the tasks are completed by just
these outputs (`Balanced`), and the phase is the one that the completed tasks call for (`Phased`).
-/

namespace Foreman

namespace Ledger

/-! ## 1. The invariants -/

/-- The tasks and the assembly of a ledger say what has been accepted, and nothing else. -/
structure Balanced (job : Job) (accepted : Acceptances) (l : Ledger) : Prop where
  once : (accepted.map Prod.fst).Nodup
  kinds : ∀ e ∈ accepted, e.2.kind = e.1.kind
  completed : ∀ id r, (∃ task, l.tasks.get? id = some task ∧ task.status = .completed r) ↔
    ∃ output, (id, output) ∈ accepted ∧ output.result = r
  mapInput : ∀ i, (l.tasks.get? ⟨.map, i⟩).map Task.input = job.splits[i]?.map .split
  reduceInput : ∀ i, (l.tasks.get? ⟨.reduce, i⟩).map Task.input =
    (l.assembly.partitions.getD [])[i]?.map .partition
  results : ∀ p text, l.assembly.results[p]? = some text ↔ (⟨.reduce, p⟩, .value text) ∈ accepted
  partitions : l.assembly.partitions =
    if l.phase = .mapping then none else some (Partition.deal job.reduceCount accepted.emitted)
  buffer : l.assembly.buffer = if l.phase = .mapping then accepted.emitted else []

/-- The phase has not gone ahead of the tasks. -/
structure Reached (n : Nat) (l : Ledger) : Prop where
  closed : l.phase ≠ .mapping → l.tasks.allFinished .map = true ∧ n ≤ Assembly.maxPartitions
  done : l.phase = .done → l.tasks.allFinished .reduce = true

/-- The phase has not fallen behind the tasks either. -/
structure Phased (n : Nat) (l : Ledger) : Prop extends Reached n l where
  mapping : l.phase = .mapping → l.tasks.allFinished .map = true → Assembly.maxPartitions < n
  reducing : l.phase = .reducing → l.tasks.allFinished .reduce = false

/-! ## 2. Moving on -/

-- The map phase closes with the records in the buffer as the ones that are dealt out.
theorem Balanced.closeMaps {job : Job} {accepted : Acceptances} {l : Ledger}
    (h : l.Balanced job accepted) (hp : l.phase = .mapping) :
    (l.closeMaps job.reduceCount).Balanced job accepted := by
  have hparts : l.assembly.partitions = none := by rw [h.partitions, if_pos hp]
  have hbuffer : l.assembly.buffer = accepted.emitted := by rw [h.buffer, if_pos hp]
  have hnone : ∀ i, l.tasks.get? ⟨.reduce, i⟩ = none := by
    intro i
    have hi := h.reduceInput i
    rw [hparts] at hi
    exact Option.map_eq_none_iff.1 hi
  refine ⟨h.once, h.kinds, ?_, h.mapInput, ?_, h.results, ?_, rfl⟩
  · intro id r
    rw [← h.completed id r]
    obtain ⟨kind, i⟩ := id
    cases kind with
    | map => rfl
    | reduce =>
      -- No reduce task has been completed, neither before nor with the new ones.
      rw [get?_closeMaps, hnone i]
      constructor
      · rintro ⟨task, htask, hs⟩
        obtain ⟨p, _, rfl⟩ := Option.map_eq_some_iff.1 htask
        cases hs
      · rintro ⟨task, htask, _⟩
        cases htask
  · intro i
    rw [get?_closeMaps]
    change Option.map _ (Option.map _ _) = Option.map _ (Partition.deal _ _)[i]?
    rw [Option.map_map]
    rfl
  · change some _ = _
    rw [hbuffer]
    rfl

theorem MovesOn.balanced {job : Job} {accepted : Acceptances} {l l' : Ledger}
    {entered : Option Phase} (hm : MovesOn job.reduceCount l l' entered)
    (h : l.Balanced job accepted) : l'.Balanced job accepted := by
  cases hm with
  | stays => exact h
  | closesMaps hp => exact h.closeMaps hp
  | closesReduces hp =>
    refine ⟨h.once, h.kinds, h.completed, h.mapInput, h.reduceInput, h.results, ?_, ?_⟩
    · exact h.partitions.trans (by rw [hp]; rfl)
    · exact h.buffer.trans (by rw [hp]; rfl)

theorem MovesOn.phased {n : Nat} (hn : 0 < n) {l l' : Ledger} {entered : Option Phase}
    (hm : MovesOn n l l' entered) (h : l.Reached n) : l'.Phased n := by
  cases hm with
  | stays hmap hreduce => exact { h with mapping := hmap, reducing := hreduce }
  | closesMaps hp hf hmax =>
    refine ⟨⟨fun _ => ⟨hf, hmax⟩, fun hd => nomatch hd⟩, fun hp' => (nomatch hp'), fun _ => ?_⟩
    -- There is a partition, and the task made of it is still pending.
    rw [TaskTable.allFinished_eq_false_iff]
    have hlen : 0 < (Partition.deal n l.assembly.buffer).length := by
      rw [Partition.length_deal]
      exact hn
    refine ⟨0, { input := .partition (Partition.deal n l.assembly.buffer)[0] }, ?_, rfl⟩
    rw [get?_closeMaps]
    simp only [List.getElem?_eq_getElem hlen, Option.map_some]
  | closesReduces hp hf =>
    have hclosed := h.closed (by rw [hp]; exact Phase.noConfusion)
    exact ⟨⟨fun _ => hclosed, fun _ => hf⟩, fun hp' => (nomatch hp'), fun hp' => (nomatch hp')⟩

/-! ## 3. Completing a task -/

-- Which tasks can be dispatched depends on the phase: there are no reduce tasks before the map phase
-- closes, and no unfinished map tasks after that.
theorem kind_of_dispatched {job : Job} {accepted : Acceptances} {l : Ledger}
    (h : l.Balanced job accepted) (hr : l.Reached job.reduceCount) {id : TaskId} {task : Task}
    (htask : l.tasks.get? id = some task) (hf : task.isFinished = false) :
    id.kind = .map ↔ l.phase = .mapping := by
  obtain ⟨kind, i⟩ := id
  constructor
  · intro hk
    change kind = .map at hk
    subst hk
    by_cases hp : l.phase = .mapping
    · exact hp
    · have hall := (TaskTable.allFinished_iff _ _).1 (hr.closed hp).1 i task htask
      rw [hf] at hall
      cases hall
  · intro hp
    cases kind with
    | map => rfl
    | reduce =>
      have hi := h.reduceInput i
      rw [htask, h.partitions, if_pos hp] at hi
      cases hi

-- A task that is not completed has had no output accepted.
theorem Balanced.not_mem {job : Job} {accepted : Acceptances} {l : Ledger}
    (h : l.Balanced job accepted) {id : TaskId} {task : Task} (htask : l.tasks.get? id = some task)
    (hf : task.isFinished = false) (output : Output) : (id, output) ∉ accepted := by
  intro hmem
  obtain ⟨task', htask', hs⟩ := (h.completed id output.result).2 ⟨output, hmem, rfl⟩
  cases htask.symm.trans htask'
  rw [Bool.eq_false_iff, ne_eq, Task.isFinished_eq_true_iff] at hf
  exact hf ⟨_, hs⟩

theorem isFinished_of_dispatched {task : Task} (h : task.status.stage = .dispatched) :
    task.isFinished = false := by
  rw [Task.isFinished, h]
  rfl

section

variable {job : Job} {accepted : Acceptances} {l : Ledger} (h : l.Balanced job accepted)
  {id : TaskId} {task : Task} (htask : l.tasks.get? id = some task)
  (hs : task.status.stage = .dispatched) {output : Output} (hk : output.kind = id.kind)

include h htask hs

theorem once_concat : ((accepted ++ [(id, output)]).map Prod.fst).Nodup := by
  rw [List.map_append, List.nodup_append]
  refine ⟨h.once, List.pairwise_singleton _ _, ?_⟩
  intro a ha b hb hab
  rw [List.map_singleton, List.mem_singleton] at hb
  obtain ⟨e, he, hfst⟩ := List.mem_map.1 ha
  have hid : e.1 = id := hfst.trans (hab.trans hb)
  exact h.not_mem htask (isFinished_of_dispatched hs) e.2 (hid ▸ he)

theorem completed_concat (other : TaskId) (r : TaskResult) :
    (∃ found, (l.complete id task output).tasks.get? other = some found ∧
        found.status = .completed r) ↔
      ∃ out, (other, out) ∈ accepted ++ [(id, output)] ∧ out.result = r := by
  rw [complete_tasks, TaskTable.get?_set htask]
  by_cases ho : other = id
  · subst ho
    rw [if_pos rfl]
    constructor
    · rintro ⟨found, hfound, hr⟩
      cases hfound
      cases hr
      exact ⟨output, List.mem_append_right _ (List.mem_singleton.2 rfl), rfl⟩
    · rintro ⟨out, hmem, rfl⟩
      rcases List.mem_append.1 hmem with hmem | hmem
      · exact absurd hmem (h.not_mem htask (isFinished_of_dispatched hs) out)
      · cases List.mem_singleton.1 hmem
        exact ⟨_, rfl, rfl⟩
  · rw [if_neg ho, h.completed other r]
    have hmem : ∀ out, (other, out) ∈ accepted ++ [(id, output)] ↔ (other, out) ∈ accepted := by
      intro out
      rw [List.mem_append, List.mem_singleton, Prod.mk.injEq]
      exact or_iff_left fun he => ho he.1
    simp only [hmem]

include hk in
theorem results_concat (p : Nat) (text : String) :
    (l.complete id task output).assembly.results[p]? = some text ↔
      (⟨.reduce, p⟩, .value text) ∈ accepted ++ [(id, output)] := by
  rw [List.mem_append, List.mem_singleton, ← h.results p text, Prod.mk.injEq]
  cases output with
  | records rs =>
    refine (or_iff_left ?_).symm
    rintro ⟨_, hv⟩
    cases hv
  | value v =>
    obtain ⟨kind, i⟩ := id
    cases hk
    change (l.assembly.results.insert i v)[p]? = _ ↔ _
    rw [Std.ExtTreeMap.getElem?_insert]
    simp only [Std.LawfulEqCmp.compare_eq_iff_eq]
    by_cases hp : i = p
    · subst hp
      have hnot : l.assembly.results[i]? ≠ some text := by
        rw [ne_eq, h.results]
        exact h.not_mem htask (isFinished_of_dispatched hs) (.value text)
      simp [hnot, eq_comm]
    · simp [hp, Ne.symm hp]

include hk in
-- A dispatched task is completed with an output that has been accepted.
theorem Balanced.complete (hr : l.Reached job.reduceCount) :
    (l.complete id task output).Balanced job (accepted ++ [(id, output)]) := by
  have hphase := kind_of_dispatched h hr htask (isFinished_of_dispatched hs)
  have hinput : ∀ other, ((l.complete id task output).tasks.get? other).map Task.input =
      (l.tasks.get? other).map Task.input := by
    intro other
    rw [complete_tasks]
    apply TaskTable.input_set htask
    rfl
  refine ⟨once_concat h htask hs, ?_, completed_concat h htask hs, ?_, ?_,
    results_concat h htask hs hk, ?_, ?_⟩
  · intro e he
    rcases List.mem_append.1 he with hmem | hmem
    · exact h.kinds e hmem
    · cases List.mem_singleton.1 hmem
      exact hk
  · intro i
    rw [hinput, h.mapInput]
  · intro i
    rw [hinput, complete_partitions, h.reduceInput]
  · rw [complete_partitions, complete_phase, Acceptances.emitted_concat, h.partitions]
    cases output with
    | records rs => rw [if_pos (hphase.1 hk.symm), if_pos (hphase.1 hk.symm)]
    | value v => rw [Output.emitted, List.append_nil]
  · rw [complete_phase, Acceptances.emitted_concat]
    cases output with
    | records rs =>
      change l.assembly.buffer ++ rs = _
      rw [h.buffer, if_pos (hphase.1 hk.symm), if_pos (hphase.1 hk.symm)]
      rfl
    | value v =>
      change l.assembly.buffer = _
      rw [h.buffer, Output.emitted, List.append_nil]

end

theorem Reached.complete {n : Nat} {l : Ledger} (h : l.Reached n) {id : TaskId} {task : Task}
    (htask : l.tasks.get? id = some task) (output : Output) :
    (l.complete id task output).Reached n := by
  constructor
  · intro hp
    rw [complete_phase] at hp
    rw [complete_tasks]
    exact ⟨TaskTable.allFinished_set htask rfl (h.closed hp).1, (h.closed hp).2⟩
  · intro hp
    rw [complete_phase] at hp
    rw [complete_tasks]
    exact TaskTable.allFinished_set htask rfl (h.done hp)

/-! ## 4. Dispatching and taking back -/

-- Neither completes a task, so nothing that is said of completed tasks can change.
theorem Balanced.set {job : Job} {accepted : Acceptances} {l : Ledger}
    (h : l.Balanced job accepted) {id : TaskId} {old task : Task}
    (htask : l.tasks.get? id = some old) (hold : old.isFinished = false)
    (hf : task.isFinished = false) (hi : task.input = old.input)
    (reserved : Std.ExtTreeMap Address TaskId) (heldBack : Std.ExtTreeMap TaskId Time) :
    Balanced job accepted { l with tasks := l.tasks.set id task, reserved, heldBack } := by
  have hinput := TaskTable.input_set htask hi
  refine ⟨h.once, h.kinds, ?_, fun i => (hinput _).trans (h.mapInput i),
    fun i => (hinput _).trans (h.reduceInput i), h.results, h.partitions, h.buffer⟩
  intro other r
  rw [← h.completed other r]
  change (∃ found, (l.tasks.set id task).get? other = some found ∧ _) ↔ _
  rw [TaskTable.get?_set htask]
  by_cases ho : other = id
  · rw [if_pos ho, ho, htask]
    have hnot : ∀ t : Task, t.isFinished = false →
        ¬ ∃ found, some t = some found ∧ found.status = .completed r := by
      rintro t ht ⟨_, ⟨⟩, hs⟩
      rw [Bool.eq_false_iff, ne_eq, Task.isFinished_eq_true_iff] at ht
      exact ht ⟨r, hs⟩
    exact iff_of_false (hnot task hf) (hnot old hold)
  · rw [if_neg ho]

theorem Phased.set {n : Nat} {l : Ledger} (h : l.Phased n) {id : TaskId} {old task : Task}
    (htask : l.tasks.get? id = some old) (hold : old.isFinished = false)
    (hf : task.isFinished = false)
    (reserved : Std.ExtTreeMap Address TaskId) (heldBack : Std.ExtTreeMap TaskId Time) :
    Phased n { l with tasks := l.tasks.set id task, reserved, heldBack } := by
  have hall := TaskTable.allFinished_set_of_unfinished htask hold hf
  refine ⟨⟨?_, ?_⟩, ?_, ?_⟩
  all_goals
    intro hp
    rw [hall]
  · exact h.closed hp
  · exact h.done hp
  · exact h.mapping hp
  · exact h.reducing hp

theorem isFinished_of_pending {task : Task} (h : task.isPending = true) :
    task.isFinished = false := by
  rw [Task.isPending_eq_true_iff] at h
  rw [Task.isFinished, h]
  rfl

/-! ## 5. Every step keeps the books balanced -/

theorem Ends.balanced {job : Job} {accepted : Acceptances} {l l' : Ledger} {call : Call}
    {task : Task} {taken : Option Output} {entered : Option Phase}
    (he : Ends job.reduceCount l call task taken l' entered)
    (htask : l.tasks.get? call.task = some task)
    (hkind : ∀ output, taken = some output → output.kind = call.task.kind)
    (h : l.Balanced job accepted) (hp : l.Phased job.reduceCount) :
    l'.Balanced job (accepted ++ (taken.map (call.task, ·)).toList) ∧
      l'.Phased job.reduceCount := by
  cases he with
  | keeps =>
    change l.Balanced job (accepted ++ []) ∧ _
    rw [List.append_nil]
    exact ⟨h, hp⟩
  | takesBack _ hheld heldBack =>
    have hunf := isFinished_of_dispatched (Task.stage_of_heldUnder hheld)
    change Balanced job (accepted ++ []) _ ∧ _
    rw [List.append_nil]
    exact ⟨h.set htask hunf (by rfl) (by rfl) _ _, hp.set htask hunf (by rfl) _ _⟩
  | completes hs hm =>
    have hb := h.complete htask hs (hkind _ rfl) hp.toReached
    exact ⟨hm.balanced hb, hm.phased job.reduceCount_pos (hp.toReached.complete htask _)⟩

theorem Ends.phase {n : Nat} {l l' : Ledger} {call : Call} {task : Task} {taken : Option Output}
    {entered : Option Phase} (he : Ends n l call task taken l' entered) :
    entered.getD l.phase = l'.phase := by
  cases he with
  | keeps => rfl
  | takesBack => rfl
  | completes _ hm =>
    rw [← phase_of_movesOn hm, complete_phase]

end Ledger

namespace Coordinator

/-- A coordinator whose ledger says what has been accepted, and whose subscribers see its phase. -/
structure Sound (c : Coordinator) (accepted : Acceptances) : Prop where
  regular : c.Regular
  balanced : c.ledger.Balanced c.job accepted
  phased : c.ledger.Phased c.job.reduceCount
  published : c.published = c.ledger.phase

theorem Effect.sound {c c' : Coordinator} {found : Option (TaskId × Output)}
    (he : Effect c found c') {accepted : Acceptances} (h : c.Sound accepted) :
    c'.Sound (accepted ++ found.toList) := by
  have hregular := he.regular h.regular
  obtain ⟨_, hb, hp, hpub⟩ := h
  cases he with
  | idle =>
    change Sound _ (accepted ++ [])
    rw [List.append_nil]
    exact ⟨hregular, hb, hp, hpub⟩
  | hands id task worker _ htask hpending =>
    have hunf := Ledger.isFinished_of_pending hpending
    change Sound _ (accepted ++ [])
    rw [List.append_nil]
    exact ⟨hregular, hb.set htask hunf (by rfl) (by rfl) _ _,
      hp.set htask hunf (by rfl) _ _, hpub⟩
  | ends n call task state hcall hopen hstate htask hends hkind =>
    obtain ⟨reserved, hreleased⟩ := c.released_eq call
    rw [hreleased] at hends
    have hb' : Ledger.Balanced c.job accepted { c.ledger with reserved } :=
      ⟨hb.once, hb.kinds, hb.completed, hb.mapInput, hb.reduceInput, hb.results, hb.partitions,
        hb.buffer⟩
    have hp' : Ledger.Phased c.job.reduceCount { c.ledger with reserved } :=
      ⟨⟨hp.closed, hp.done⟩, hp.mapping, hp.reducing⟩
    obtain ⟨hbalanced, hphased⟩ := hends.balanced htask hkind hb' hp'
    refine ⟨hregular, hbalanced, hphased, ?_⟩
    rw [hpub]
    exact hends.phase

theorem Sound.steps {c : Coordinator} {accepted : Acceptances} (h : c.Sound accepted)
    (run : List Step) : (c.steps run).Sound (accepted ++ c.accepted run) := by
  refine steps_induct (P := Sound) ?_ h.regular accepted h run
  intro _ _ _ _ _ he hsound
  exact he.sound hsound

theorem sound_of_create? {job : Job} {workers : List Address} {config : Config} {c : Coordinator}
    (h : create? job workers config = .ok c) : c.Sound [] := by
  obtain ⟨hjob, _, _, hpub, _, hm⟩ := create?_eq_ok h
  -- Before the first move nothing is completed, so the books balance with nothing accepted.
  have hnone : ∀ id r, ¬ ∃ task, (TaskTable.ofSplits job.splits).get? id = some task ∧
      task.status = .completed r := by
    rintro ⟨kind, i⟩ r ⟨task, htask, hs⟩
    cases kind with
    | map =>
      rw [TaskTable.get?_ofSplits_map] at htask
      obtain ⟨_, _, rfl⟩ := Option.map_eq_some_iff.1 htask
      cases hs
    | reduce =>
      rw [TaskTable.get?_ofSplits_reduce] at htask
      cases htask
  have hb : Ledger.Balanced job [] { tasks := .ofSplits job.splits } := by
    refine ⟨.nil, by simp, ?_, ?_, ?_, ?_, rfl, rfl⟩
    · intro id r
      exact iff_of_false (hnone id r) (by simp)
    · intro i
      rw [TaskTable.get?_ofSplits_map, Option.map_map]
      rfl
    · intro i
      rw [TaskTable.get?_ofSplits_reduce]
      rfl
    · intro p text
      simp [Assembly.empty]
  have hr : Ledger.Reached job.reduceCount { tasks := .ofSplits job.splits } :=
    ⟨fun hp => absurd rfl hp, fun hp => nomatch hp⟩
  rw [← hjob] at hm hb hr
  exact ⟨regular_of_create? h, hm.balanced hb, hm.phased c.job.reduceCount_pos hr, hpub⟩

/-- After every run of steps the books balance with the outputs that the run has accepted. -/
theorem sound_steps {job : Job} {workers : List Address} {config : Config} {c : Coordinator}
    (h : create? job workers config = .ok c) (run : List Step) :
    (c.steps run).Sound (c.accepted run) :=
  (sound_of_create? h).steps run

end Coordinator
end Foreman
