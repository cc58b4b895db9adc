import Foreman.Task.Table

/-!
# Moves of the task table

Everything that is known of a table is what `get?` finds in it. Each move is described by what it
finds afterwards, so that nothing below has to look into the two lists of a table again.
-/

namespace Foreman

namespace Status

theorem stage_eq_completed_iff (s : Status) : s.stage = .completed ↔ ∃ r, s = .completed r := by
  cases s <;> simp [stage]

theorem stage_eq_dispatched_iff (s : Status) : s.stage = .dispatched ↔ ∃ w d l, s = .dispatched w d l := by
  cases s <;> simp [stage]

end Status

namespace Task

theorem heldUnder_eq_true_iff (t : Task) (lease : Nat) :
    t.heldUnder lease = true ↔ ∃ w d, t.status = .dispatched w d lease := by
  unfold heldUnder
  split <;> rename_i h
  · simp [h]
  · simp only [Bool.false_eq_true, false_iff, not_exists]
    exact fun w d hs => h w d lease hs

-- A task that is held under some lease is dispatched, so it is neither pending nor completed.
theorem stage_of_heldUnder {t : Task} {lease : Nat} (h : t.heldUnder lease = true) :
    t.status.stage = .dispatched := by
  obtain ⟨w, d, hs⟩ := (heldUnder_eq_true_iff t lease).1 h
  rw [hs]; rfl

theorem not_heldUnder_of_stage {t : Task} {lease : Nat} (h : t.status.stage ≠ .dispatched) :
    t.heldUnder lease = false :=
  Bool.eq_false_iff.2 fun hh => h (stage_of_heldUnder hh)

theorem isFinished_eq_true_iff (t : Task) : t.isFinished = true ↔ ∃ r, t.status = .completed r := by
  rw [isFinished, decide_eq_true_iff, Status.stage_eq_completed_iff]

theorem isPending_eq_true_iff (t : Task) : t.isPending = true ↔ t.status = .pending := by
  cases h : t.status <;> simp [isPending, Status.stage, h]

end Task

namespace TaskTable

/-! ## 1. Looking up after a move -/

theorem get?_set {t : TaskTable} {id : TaskId} {old : Task} (h : t.get? id = some old)
    (task : Task) (other : TaskId) :
    (t.set id task).get? other = if other = id then some task else t.get? other := by
  by_cases he : other = id
  · rw [if_pos he, he, get?_set_self h]
  · rw [if_neg he, get?_set_of_ne t (Ne.symm he)]

theorem input_set {t : TaskTable} {id : TaskId} {old task : Task} (h : t.get? id = some old)
    (hi : task.input = old.input) (other : TaskId) :
    ((t.set id task).get? other).map Task.input = (t.get? other).map Task.input := by
  rw [get?_set h]
  split
  · rename_i he
    rw [he, h, Option.map_some, Option.map_some, hi]
  · rfl

theorem get?_ofSplits_map (splits : List String) (i : Nat) :
    (ofSplits splits).get? ⟨.map, i⟩ = splits[i]?.map fun path => { input := .split path } := by
  simp [ofSplits, get?, ofKind]

theorem get?_ofSplits_reduce (splits : List String) (i : Nat) :
    (ofSplits splits).get? ⟨.reduce, i⟩ = none := by
  simp [ofSplits, get?, ofKind]

theorem reduces_eq_nil_iff (t : TaskTable) : t.reduces = [] ↔ ∀ i, t.get? ⟨.reduce, i⟩ = none := by
  constructor
  · intro h i
    simp [get?, ofKind, h]
  · intro h
    have h0 := h 0
    simpa [get?, ofKind] using h0

theorem reduces_set_eq_nil {t : TaskTable} (h : t.reduces = []) (id : TaskId) (task : Task) :
    (t.set id task).reduces = [] := by
  unfold set
  split
  · exact h
  · rw [h]; rfl

theorem allFinished_iff (t : TaskTable) (kind : Kind) :
    t.allFinished kind = true ↔ ∀ i task, t.get? ⟨kind, i⟩ = some task → task.isFinished = true := by
  rw [allFinished, List.all_eq_true]
  constructor
  · intro h i task ht
    exact h task (List.mem_of_getElem? ht)
  · intro h task hmem
    obtain ⟨i, hi⟩ := List.getElem?_of_mem hmem
    exact h i task hi

theorem allFinished_eq_false_iff (t : TaskTable) (kind : Kind) :
    t.allFinished kind = false ↔
      ∃ i task, t.get? ⟨kind, i⟩ = some task ∧ task.isFinished = false := by
  rw [Bool.eq_false_iff, ne_eq, allFinished_iff]
  simp

-- A completed task does not undo that all tasks of a kind are completed.
theorem allFinished_set {t : TaskTable} {id : TaskId} {old task : Task} {kind : Kind}
    (h : t.get? id = some old) (hf : task.isFinished = true) (ha : t.allFinished kind = true) :
    (t.set id task).allFinished kind = true := by
  rw [allFinished_iff] at ha ⊢
  intro i found hfound
  rw [get?_set h] at hfound
  split at hfound
  · cases hfound
    exact hf
  · exact ha i found hfound

theorem allFinished_set_of_unfinished {t : TaskTable} {id : TaskId} {old task : Task}
    (h : t.get? id = some old) (hold : old.isFinished = false) (hf : task.isFinished = false)
    (kind : Kind) : (t.set id task).allFinished kind = t.allFinished kind := by
  rw [Bool.eq_iff_iff, allFinished_iff, allFinished_iff]
  constructor
  · intro ha i found hfound
    by_cases hid : ⟨kind, i⟩ = id
    · have hnew := ha i task (by rw [get?_set h, if_pos hid])
      rw [hf] at hnew
      cases hnew
    · exact ha i found (by rw [get?_set h, if_neg hid]; exact hfound)
  · intro ha i found hfound
    by_cases hid : ⟨kind, i⟩ = id
    · have hnew := ha i old (by rw [hid]; exact h)
      rw [hold] at hnew
      cases hnew
    · rw [get?_set h, if_neg hid] at hfound
      exact ha i found hfound

/-! ## 2. The moves -/

theorem dispatch_of_isPending {t : TaskTable} {id : TaskId} {task : Task}
    (h : t.get? id = some task) (hp : task.isPending = true) (worker : Address) (deadline : Time) :
    t.dispatch id worker deadline =
      .ok (task.attempts + 1, t.set id (task.handTo worker deadline)) := by
  simp [dispatch, h, hp]

theorem accept_of_get? {t : TaskTable} {id : TaskId} {task : Task} (h : t.get? id = some task)
    (result : TaskResult) :
    t.accept id result =
      if task.status.stage = .dispatched then
        .ok (true, t.set id { task with status := .completed result })
      else .ok (false, t) := by
  simp [accept, h]

theorem takeBack_of_get? {t : TaskTable} {id : TaskId} {task : Task} (h : t.get? id = some task)
    (lease : Nat) :
    t.takeBack id lease =
      if task.heldUnder lease then .ok (true, t.set id { task with status := .pending })
      else .ok (false, t) := by
  simp [takeBack, h]

theorem addReduces_of_reduces_eq_nil {t : TaskTable} (h : t.reduces = []) (ps : List Partition) :
    t.addReduces ps = .ok { t with reduces := ps.map fun p => { input := .partition p } } := by
  simp [addReduces, h]

/-! ## 3. Names of tasks -/

theorem mem_idsWhere {t : TaskTable} {kind : Kind} {p : Task → Bool} {id : TaskId} :
    id ∈ t.idsWhere kind p ↔ id.kind = kind ∧ ∃ task, t.get? id = some task ∧ p task = true := by
  obtain ⟨k, i⟩ := id
  simp only [idsWhere, List.mem_map, List.mem_filter, Prod.exists, TaskId.mk.injEq]
  constructor
  · rintro ⟨task, j, ⟨hmem, hp⟩, rfl, rfl⟩
    refine ⟨rfl, task, ?_, hp⟩
    exact List.mk_mem_zipIdx_iff_getElem?.1 hmem
  · rintro ⟨rfl, task, ht, hp⟩
    exact ⟨task, i, ⟨List.mk_mem_zipIdx_iff_getElem?.2 ht, hp⟩, rfl, rfl⟩

theorem idsWhere_ascending (t : TaskTable) (kind : Kind) (p : Task → Bool) :
    (t.idsWhere kind p).Pairwise fun a b => a.index < b.index := by
  have hzip : (t.ofKind kind).zipIdx.Pairwise fun a b => a.2 < b.2 := by
    rw [← List.pairwise_map, List.zipIdx_map_snd]
    exact List.pairwise_lt_range' 1
  unfold idsWhere
  rw [List.pairwise_map]
  exact hzip.filter _

theorem mem_pending {t : TaskTable} {kind : Kind} {id : TaskId} :
    id ∈ t.pending kind ↔
      id.kind = kind ∧ ∃ task, t.get? id = some task ∧ task.isPending = true :=
  mem_idsWhere

end TaskTable
end Foreman
