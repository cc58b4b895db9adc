import Foreman.Proofs.Grouping
import Foreman.Proofs.Phases

/-!
# The assembly mirrors the tasks

Tasks keep how their outputs were taken, the assembly keeps the outputs. They are changed one after the
other by every answer that is accepted, and yet no record is lost or counted twice
(`assembly_mirrors_tasks`), whichever attempts answer and in whatever order.
-/

namespace Foreman

namespace Coordinator

/-! ## 1. What has been accepted -/

section

variable {c : Coordinator} {accepted : Acceptances} (h : c.Sound accepted)

include h

theorem Sound.mem_ids_iff (id : TaskId) :
    id ∈ accepted.map Prod.fst ↔
      ∃ task, c.ledger.tasks.get? id = some task ∧ task.isFinished = true := by
  rw [List.mem_map]
  constructor
  · intro ⟨e, he, hid⟩
    have ⟨task, htask, hs⟩ := (h.balanced.completed e.1 e.2.result).2 ⟨e.2, he, rfl⟩
    exact ⟨task, hid ▸ htask, (Task.isFinished_eq_true_iff task).2 ⟨_, hs⟩⟩
  · intro ⟨task, htask, hf⟩
    have ⟨r, hr⟩ := (Task.isFinished_eq_true_iff task).1 hf
    have ⟨output, hmem, _⟩ := (h.balanced.completed id r).1 ⟨task, htask, hr⟩
    exact ⟨(id, output), hmem, rfl⟩

-- While the job maps, there is nothing but map tasks that could have been completed.
theorem Sound.kind_of_mapping (hp : c.phase = .mapping) {e : TaskId × Output} (he : e ∈ accepted) :
    e.1.kind = .map := by
  have ⟨task, htask, _⟩ := (h.mem_ids_iff e.1).1 (List.mem_map_of_mem he)
  obtain ⟨⟨kind, i⟩, output⟩ := e
  cases kind with
  | map => rfl
  | reduce =>
    have hsome := (h.reduce_isSome i).1 (by rw [htask]; rfl)
    exact absurd hp hsome.1

-- When the map phase is closed, the output of every map task has been accepted.
theorem Sound.mem_ids_of_closed (hp : c.phase ≠ .mapping) {i : Nat}
    (hi : i < c.job.splits.length) : ⟨.map, i⟩ ∈ accepted.map Prod.fst := by
  have hinput := h.balanced.mapInput i
  rw [List.getElem?_eq_getElem hi, Option.map_some, Option.map_eq_some_iff] at hinput
  have ⟨task, htask, _⟩ := hinput
  have hf := (TaskTable.allFinished_iff _ _).1 (h.phased.closed hp).1 i task htask
  exact (h.mem_ids_iff _).2 ⟨task, htask, hf⟩

theorem Sound.result_iff (p : Nat) (text : String) :
    c.ledger.assembly.results[p]? = some text ↔
      ∃ task, c.ledger.tasks.get? ⟨.reduce, p⟩ = some task ∧
        task.status = .completed (.value text) := by
  rw [h.balanced.results, h.balanced.completed]
  constructor
  · intro hmem
    exact ⟨_, hmem, rfl⟩
  · intro ⟨output, hmem, hr⟩
    cases output with
    | records rs => cases hr
    | value v =>
      cases hr
      exact hmem

/-! ## 2. The results of a job that is done -/

theorem Sound.result_isSome (hp : c.phase = .done) (p : Nat) :
    c.ledger.assembly.results[p]?.isSome = true ↔ p < c.job.reduceCount := by
  have hne : c.phase ≠ .mapping := by rw [hp]; exact Phase.noConfusion
  constructor
  · intro hsome
    have ⟨text, htext⟩ := Option.isSome_iff_exists.1 hsome
    have ⟨task, htask, _⟩ := (h.result_iff p text).1 htext
    exact ((h.reduce_isSome p).1 (by rw [htask]; rfl)).2
  · intro hlt
    have ⟨task, htask⟩ := Option.isSome_iff_exists.1 ((h.reduce_isSome p).2 ⟨hne, hlt⟩)
    have hid := (h.mem_ids_iff _).2 ⟨task, htask, h.isFinished_of_done hp htask⟩
    have ⟨⟨id, output⟩, hmem, hfst⟩ := List.mem_map.1 hid
    change id = _ at hfst
    rw [hfst] at hmem
    have hkind := h.balanced.kinds _ hmem
    cases output with
    | records rs => cases hkind
    | value text =>
      rw [(h.balanced.results p text).2 hmem]
      rfl

-- The numbers of the partitions are the keys, so there are as many results as partitions.
theorem Sound.results?_of_done (hp : c.phase = .done) :
    c.results? = some c.ledger.assembly.results := by
  have hne : c.phase ≠ .mapping := by rw [hp]; exact Phase.noConfusion
  have hkeys : c.ledger.assembly.results.keys.Perm (List.range c.job.reduceCount) := by
    have hnodup : c.ledger.assembly.results.keys.Nodup := Std.ExtTreeMap.nodup_keys
    rw [List.perm_ext_iff_of_nodup hnodup List.nodup_range]
    intro p
    rw [Std.ExtTreeMap.mem_keys, List.mem_range, Std.ExtTreeMap.mem_iff_isSome_getElem?]
    exact h.result_isSome hp p
  have hsize : c.ledger.assembly.results.size = c.job.reduceCount := by
    rw [← Std.ExtTreeMap.length_keys, hkeys.length_eq, List.length_range]
  change (if c.phase = .done then c.ledger.assembly.allResults? else none) = _
  rw [if_pos hp]
  unfold Assembly.allResults?
  rw [h.partitions_of_closed hne]
  simp only [Partition.length_deal, if_pos hsize]

end

/-- The outputs that have been accepted are those of the completed tasks, one for each. While the job
maps, the buffer holds their records in the order of acceptance. After that it stays empty, the
partitions hold the same records, and the output of every map task is among them. There is a result
for a partition just when its reduce task is completed with it. -/
theorem assembly_mirrors_tasks {job : Job} {workers : List Address} {config : Config}
    {c₀ : Coordinator} (h : create? job workers config = .ok c₀) (run : List Step) :
    let c := c₀.steps run
    let accepted := c₀.accepted run
    ((accepted.map Prod.fst).Nodup ∧
      (∀ id, id ∈ accepted.map Prod.fst ↔
        ∃ task, c.ledger.tasks.get? id = some task ∧ task.isFinished = true) ∧
      ∀ id rs, (id, .records rs) ∈ accepted → ∃ task, c.ledger.tasks.get? id = some task ∧
        task.status = .completed (.records rs.length)) ∧
    (c.phase = .mapping →
      c.ledger.assembly.buffer = accepted.emitted ∧ ∀ e ∈ accepted, e.1.kind = .map) ∧
    (c.phase ≠ .mapping →
      (∀ more, (c.steps more).ledger.assembly.buffer = []) ∧
      (∀ i, i < job.splits.length → ⟨.map, i⟩ ∈ accepted.map Prod.fst) ∧
      ∃ ps, c.ledger.assembly.partitions = some ps ∧
        (ps.flatMap Partition.records).Perm accepted.emitted) ∧
    ∀ p text, c.ledger.assembly.results[p]? = some text ↔
      ∃ task, c.ledger.tasks.get? ⟨.reduce, p⟩ = some task ∧
        task.status = .completed (.value text) := by
  intro c accepted
  have hs : c.Sound accepted := sound_steps h run
  have hjob : c.job = job := job_of_create? h run
  refine ⟨⟨hs.balanced.once, hs.mem_ids_iff, ?_⟩, ?_, ?_, hs.result_iff⟩
  · intro id rs hmem
    exact (hs.balanced.completed id _).2 ⟨_, hmem, rfl⟩
  · intro hp
    refine ⟨?_, fun e => hs.kind_of_mapping hp⟩
    rw [hs.balanced.buffer]
    exact if_pos hp
  · intro hp
    refine ⟨?_, ?_, _, hs.partitions_of_closed hp, Partition.records_deal_perm c.job.reduceCount_pos _⟩
    · intro more
      rw [(hs.steps more).balanced.buffer]
      exact if_neg (phase_ne_mapping_steps hs.regular hp more)
    · intro i hi
      rw [← hjob] at hi
      exact hs.mem_ids_of_closed hp hi

/-- Of two attempts at a task that answer differently, the one that answers first is accepted, although
it is late. -/
theorem first_answer_is_buffered :
    ∃ c₀, create? ⟨["a", "b"], "word_count", "sum", 1, by decide⟩ [.loopback 1] {} = .ok c₀ ∧
      (c₀.steps [.dispatch .map [.loopback 1], .expire 0, .dispatch .map [.loopback 1],
        .answer 0 (.ok (.records [⟨"x", "1"⟩])), .answer 1 (.ok (.records []))]).ledger.assembly.buffer
        = [⟨"x", "1"⟩] := by
  have h : create? ⟨["a", "b"], "word_count", "sum", 1, by decide⟩ [.loopback 1] {} = .ok _ := rfl
  refine ⟨_, h, ?_⟩
  exact ((assembly_mirrors_tasks h _).2.1 rfl).1

end Coordinator
end Foreman
