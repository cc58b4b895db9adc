import Foreman.Proofs.Balance

/-!
# Phases follow from the tasks

The phase of a coordinator is stored, but it is the one that its tasks call for, at every moment
(`phase_matches_tasks`). Only a job with more partitions than can be addressed stays in its map phase
although all its maps are completed.
-/

namespace Foreman

/-! ## 1. Phases in their order -/

namespace Phase

/-- The phases from one on. -/
def onwards : Phase → List Phase
  | .mapping => [.mapping, .reducing, .done]
  | .reducing => [.reducing, .done]
  | .done => [.done]

/-- From one phase to another in at most one step forward. -/
def Moves (p q : Phase) : Prop :=
  q = p ∨ p.onwards = p :: q.onwards

theorem onwards_eq_cons (p : Phase) : ∃ later, p.onwards = p :: later := by
  cases p with
  | mapping => exact ⟨_, rfl⟩
  | reducing => exact ⟨_, rfl⟩
  | done => exact ⟨_, rfl⟩

-- The map phase does not begin again.
theorem Moves.ne_mapping {p q : Phase} (h : p.Moves q) (hp : p ≠ .mapping) : q ≠ .mapping := by
  intro hq
  rcases h with heq | hnext
  · exact hp (heq.symm.trans hq)
  · have hlen := congrArg List.length hnext
    rw [hq] at hlen
    cases p with
    | mapping => exact hp rfl
    | reducing => exact absurd hlen (by decide)
    | done => exact absurd hlen (by decide)

end Phase

namespace Ledger

theorem MovesOn.moves {n : Nat} {l l' : Ledger} {entered : Option Phase}
    (hm : MovesOn n l l' entered) : l.phase.Moves l'.phase := by
  cases hm with
  | stays => exact .inl rfl
  | closesMaps hp =>
    rw [hp]
    exact .inr rfl
  | closesReduces hp =>
    rw [hp]
    exact .inr rfl

theorem Ends.moves {n : Nat} {l l' : Ledger} {call : Call} {task : Task} {taken : Option Output}
    {entered : Option Phase} (he : Ends n l call task taken l' entered) :
    l.phase.Moves l'.phase := by
  cases he with
  | keeps => exact .inl rfl
  | takesBack => exact .inl rfl
  | completes _ hm =>
    have hmoves := hm.moves
    rw [complete_phase] at hmoves
    exact hmoves

end Ledger

namespace Coordinator

theorem Effect.moves {c c' : Coordinator} {found : Option (TaskId × Output)}
    (he : Effect c found c') : c.phase.Moves c'.phase := by
  cases he with
  | idle => exact .inl rfl
  | hands => exact .inl rfl
  | ends n call task state _ _ _ _ hends =>
    have ⟨reserved, hreleased⟩ := c.released_eq call
    rw [hreleased] at hends
    exact hends.moves

theorem phase_ne_mapping_steps {c : Coordinator} (hregular : c.Regular) (h : c.phase ≠ .mapping)
    (run : List Step) : (c.steps run).phase ≠ .mapping := by
  refine steps_induct (P := fun c _ => c.phase ≠ .mapping) ?_ hregular [] h run
  intro _ _ _ _ _ he hp
  exact he.moves.ne_mapping hp

/-- Some task of the kind is not completed. -/
def Unfinished (c : Coordinator) (kind : Kind) : Prop :=
  ∃ i task, c.ledger.tasks.get? ⟨kind, i⟩ = some task ∧ task.isFinished = false

theorem unfinished_iff (c : Coordinator) (kind : Kind) :
    c.Unfinished kind ↔ c.ledger.tasks.allFinished kind = false :=
  (TaskTable.allFinished_eq_false_iff _ _).symm

section

variable {c : Coordinator} {accepted : Acceptances} (h : c.Sound accepted)

include h

/-! ## 2. The tasks that exist -/

theorem Sound.map_isSome (i : Nat) :
    (c.ledger.tasks.get? ⟨.map, i⟩).isSome = true ↔ i < c.job.splits.length := by
  have hi := congrArg Option.isSome (h.balanced.mapInput i)
  rw [Option.isSome_map, Option.isSome_map] at hi
  rw [hi, Option.isSome_iff_ne_none, ne_eq, List.getElem?_eq_none_iff, Nat.not_le]

theorem Sound.reduce_isSome (i : Nat) :
    (c.ledger.tasks.get? ⟨.reduce, i⟩).isSome = true ↔
      c.phase ≠ .mapping ∧ i < c.job.reduceCount := by
  have hi := congrArg Option.isSome (h.balanced.reduceInput i)
  rw [Option.isSome_map, Option.isSome_map, h.balanced.partitions] at hi
  rw [hi]
  by_cases hp : c.ledger.phase = .mapping
  · rw [if_pos hp]
    exact iff_of_false Bool.false_ne_true fun hr => hr.1 hp
  · rw [if_neg hp, Option.getD_some, Option.isSome_iff_ne_none, ne_eq, List.getElem?_eq_none_iff,
      Nat.not_le, Partition.length_deal]
    exact (and_iff_right hp).symm

-- A task of a kind works on what the kind works on, so it is asked for by a request of that kind.
theorem Sound.kind_of_request {id : TaskId} {task : Task}
    (htask : c.ledger.tasks.get? id = some task) :
    (Request.ofInput c.job task.input).kind = id.kind := by
  obtain ⟨kind, i⟩ := id
  cases kind with
  | map =>
    have hi := h.balanced.mapInput i
    rw [htask, Option.map_some] at hi
    have ⟨path, _, hinput⟩ := Option.map_eq_some_iff.1 hi.symm
    rw [← hinput]
    rfl
  | reduce =>
    have hi := h.balanced.reduceInput i
    rw [htask, Option.map_some] at hi
    have ⟨p, _, hinput⟩ := Option.map_eq_some_iff.1 hi.symm
    rw [← hinput]
    rfl

theorem Sound.partitions_of_closed (hp : c.phase ≠ .mapping) :
    c.ledger.assembly.partitions = some (Partition.deal c.job.reduceCount accepted.emitted) := by
  rw [h.balanced.partitions]
  exact if_neg hp

/-! ## 3. The phase that the tasks call for -/

theorem Sound.phase_eq_mapping_iff :
    c.phase = .mapping ↔ c.Unfinished .map ∨ Assembly.maxPartitions < c.job.reduceCount := by
  rw [unfinished_iff]
  constructor
  · intro hp
    by_cases hf : c.ledger.tasks.allFinished .map = true
    · exact .inr (h.phased.mapping hp hf)
    · exact .inl (Bool.eq_false_iff.2 hf)
  · intro hor
    apply Decidable.byContradiction
    intro hp
    have hclosed := h.phased.closed hp
    rcases hor with hf | hmax
    · exact Bool.false_ne_true (hf.symm.trans hclosed.1)
    · exact absurd hclosed.2 (Nat.not_le_of_lt hmax)

theorem Sound.phase_eq_done_iff :
    c.phase = .done ↔ c.phase ≠ .mapping ∧ ¬ c.Unfinished .reduce := by
  rw [unfinished_iff, Bool.not_eq_false]
  constructor
  · intro hp
    have hne : c.phase ≠ .mapping := by rw [hp]; exact Phase.noConfusion
    exact ⟨hne, h.phased.done hp⟩
  · intro ⟨hne, hf⟩
    cases hp : c.phase with
    | mapping => exact absurd hp hne
    | reducing => exact absurd hf (by rw [h.phased.reducing hp]; exact Bool.false_ne_true)
    | done => rfl

theorem Sound.isFinished_of_done (hp : c.phase = .done) {id : TaskId} {task : Task}
    (htask : c.ledger.tasks.get? id = some task) : task.isFinished = true := by
  have hne : c.phase ≠ .mapping := by rw [hp]; exact Phase.noConfusion
  obtain ⟨kind, i⟩ := id
  cases kind with
  | map => exact (TaskTable.allFinished_iff _ _).1 (h.phased.closed hne).1 i task htask
  | reduce => exact (TaskTable.allFinished_iff _ _).1 (h.phased.done hp) i task htask

theorem Sound.phase_eq_reducing_iff :
    c.phase = .reducing ↔ c.phase ≠ .mapping ∧ c.Unfinished .reduce := by
  have hdone := h.phase_eq_done_iff
  cases hp : c.phase with
  | mapping => simp
  | reducing =>
    rw [hp] at hdone
    refine iff_of_true rfl ⟨Phase.noConfusion, Classical.not_not.1 ?_⟩
    intro hu
    exact nomatch hdone.2 ⟨Phase.noConfusion, hu⟩
  | done =>
    rw [hp] at hdone
    exact iff_of_false Phase.noConfusion fun hr => (hdone.1 rfl).2 hr.2

end

/-- The phase is what the statuses of the tasks say, and subscribers see it: mapping while a map task
is unfinished, then reducing while a reduce task is, then done. There is a map task for every split,
and a reduce task for every partition as soon as the map phase is closed and not before. A job with
more partitions than can be addressed never leaves its map phase. -/
theorem phase_matches_tasks {job : Job} {workers : List Address} {config : Config}
    {c₀ : Coordinator} (h : create? job workers config = .ok c₀) (run : List Step) :
    let c := c₀.steps run
    (c.phase = .mapping ↔ c.Unfinished .map ∨ Assembly.maxPartitions < job.reduceCount) ∧
    (c.phase = .reducing ↔ ¬ c.Unfinished .map ∧ job.reduceCount ≤ Assembly.maxPartitions ∧
      c.Unfinished .reduce) ∧
    (c.phase = .done ↔ ¬ c.Unfinished .map ∧ job.reduceCount ≤ Assembly.maxPartitions ∧
      ¬ c.Unfinished .reduce) ∧
    (∀ i, (c.ledger.tasks.get? ⟨.map, i⟩).isSome = true ↔ i < job.splits.length) ∧
    (∀ i, (c.ledger.tasks.get? ⟨.reduce, i⟩).isSome = true ↔
      c.phase ≠ .mapping ∧ i < job.reduceCount) ∧
    (c.Unfinished .map → ∀ i, c.ledger.tasks.get? ⟨.reduce, i⟩ = none) ∧
    c.published = c.phase := by
  intro c
  have hs : c.Sound (c₀.accepted run) := sound_steps h run
  have hjob : c.job = job := job_of_create? h run
  have hmapping := hs.phase_eq_mapping_iff
  have hmap := hs.map_isSome
  have hreduce := hs.reduce_isSome
  rw [hjob] at hmapping hmap hreduce
  have hclosed : c.phase ≠ .mapping ↔
      ¬ c.Unfinished .map ∧ job.reduceCount ≤ Assembly.maxPartitions := by
    rw [ne_eq, hmapping, not_or, Nat.not_lt]
  refine ⟨hmapping, ?_, ?_, hmap, hreduce, ?_, hs.published⟩
  · rw [hs.phase_eq_reducing_iff, hclosed, and_assoc]
  · rw [hs.phase_eq_done_iff, hclosed, and_assoc]
  · intro hu i
    have hp : c.phase = .mapping := hmapping.2 (.inl hu)
    apply Option.not_isSome_iff_eq_none.1
    intro hi
    exact ((hreduce i).1 hi).1 hp

/-- The last map task closes the map phase, although its output comes after the deadline. -/
theorem reducing_after_late_map :
    ∃ c₀, create? ⟨["a"], "word_count", "sum", 1, by decide⟩ [.loopback 1] {} = .ok c₀ ∧
      (c₀.steps [.dispatch .map [.loopback 1], .expire 0, .dispatch .map [.loopback 1],
        .answer 0 (.ok (.records []))]).phase = .reducing := by
  have h : create? ⟨["a"], "word_count", "sum", 1, by decide⟩ [.loopback 1] {} = .ok _ := rfl
  refine ⟨_, h, ?_⟩
  apply (phase_matches_tasks h _).2.1.2
  refine ⟨?_, by decide, 0, _, rfl, rfl⟩
  rw [unfinished_iff]
  exact Bool.noConfusion

/-- With more partitions than can be addressed the phase does not follow the tasks: all map tasks are
completed, and the job still maps. -/
theorem mapping_although_maps_completed :
    ∃ c₀, create? ⟨["s"], "word_count", "sum", 9223372036854775808, by decide⟩ [.loopback 1] {} =
        .ok c₀ ∧
      let c := c₀.steps [.dispatch .map [.loopback 1],
        .answer 0 (.ok (.records [⟨"a", "1"⟩, ⟨"b", "1"⟩]))]
      c.phase = .mapping ∧ ¬ c.Unfinished .map := by
  refine ⟨_, rfl, rfl, ?_⟩
  rw [unfinished_iff]
  exact Bool.noConfusion

end Coordinator
end Foreman
