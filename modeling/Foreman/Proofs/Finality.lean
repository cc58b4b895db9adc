import Foreman.Proofs.Running

/-!
# Progress is final

A job goes from phase to phase, one at a time and never back, and a task that is completed stays as it
is. When the job is done, calls can still be open and their answers still come in. Nothing that happens
then changes a task, the phase or the results (`progress_is_final`).
-/

namespace Foreman

namespace Ledger

/-! ## 1. What the end of a call does to completed tasks -/

-- An end that completes no task leaves the phase.
theorem Ends.phase_of_taken_eq_none {n : Nat} {l l' : Ledger} {call : Call} {task : Task}
    {taken : Option Output} {entered : Option Phase} (he : Ends n l call task taken l' entered)
    (h : taken = none) : l'.phase = l.phase := by
  cases he with
  | keeps => rfl
  | takesBack => rfl
  | completes => cases h

-- The end of a call about a task that is completed does nothing.
theorem Ends.eq_of_isFinished {n : Nat} {l l' : Ledger} {call : Call} {task : Task}
    {taken : Option Output} {entered : Option Phase} (he : Ends n l call task taken l' entered)
    (h : task.isFinished = true) : l' = l := by
  cases he with
  | keeps => rfl
  | takesBack _ hheld =>
    rw [isFinished_of_dispatched (Task.stage_of_heldUnder hheld)] at h
    cases h
  | completes hs =>
    rw [isFinished_of_dispatched hs] at h
    cases h

theorem Ends.get?_of_isFinished {n : Nat} {l l' : Ledger} {call : Call} {task old : Task}
    {taken : Option Output} {entered : Option Phase} (he : Ends n l call task taken l' entered)
    (hl : l.Unclosed) (htask : l.tasks.get? call.task = some task) {id : TaskId}
    (hold : l.tasks.get? id = some old) (hf : old.isFinished = true) :
    l'.tasks.get? id = some old := by
  by_cases hid : id = call.task
  · rw [hid, htask] at hold
    cases hold
    rw [he.eq_of_isFinished hf, hid]
    exact htask
  · have ⟨new, hnew, _, hcases⟩ := he.get?_of_eq_some hl htask hold
    rcases hcases with heq | ⟨heq, _⟩
    · rw [← heq]
      exact hnew
    · exact absurd heq hid

end Ledger

namespace Coordinator

/-! ## 2. What every step keeps -/

section

variable {c c' : Coordinator} {found : Option (TaskId × Output)} (he : Effect c found c')

include he

theorem Effect.phase_of_found_eq_none (h : found = none) : c'.phase = c.phase := by
  cases he with
  | idle => rfl
  | hands => rfl
  | ends n call task state _ _ _ _ hends =>
    have ⟨reserved, hreleased⟩ := c.released_eq call
    rw [hreleased] at hends
    exact hends.phase_of_taken_eq_none (Option.map_eq_none_iff.1 h)

theorem Effect.get?_of_isFinished (hregular : c.Regular) {id : TaskId} {task : Task}
    (htask : c.ledger.tasks.get? id = some task) (hf : task.isFinished = true) :
    c'.ledger.tasks.get? id = some task := by
  cases he with
  | idle => exact htask
  | hands id' pending worker _ hget hpending =>
    -- A task that is handed out is pending, so it is another one.
    have hne : id ≠ id' := by
      intro heq
      rw [heq, hget] at htask
      cases htask
      rw [Ledger.isFinished_of_pending hpending] at hf
      cases hf
    show (c.ledger.tasks.set id' _).get? id = some task
    rw [TaskTable.get?_set hget, if_neg hne]
    exact htask
  | ends n call task state _ _ _ hget hends =>
    rw [← released_tasks c call] at hget htask
    exact hends.get?_of_isFinished (hregular.released call) hget htask hf

-- When the job is done, only reservations are left to change.
theorem Effect.ledger_of_done (hp : c.phase = .done)
    (hall : ∀ id task, c.ledger.tasks.get? id = some task → task.isFinished = true) :
    ∃ reserved, c'.ledger = { c.ledger with reserved } := by
  cases he with
  | idle => exact ⟨c.ledger.reserved, rfl⟩
  | hands id task worker hkind =>
    change c.ledger.phase = _ at hp
    rw [hp] at hkind
    cases hkind
  | ends n call task state _ _ _ htask hends =>
    have ⟨reserved, hreleased⟩ := c.released_eq call
    rw [hreleased] at hends
    exact ⟨reserved, hends.eq_of_isFinished (hall _ _ htask)⟩

end

/-! ## 3. Phases of a run -/

/-- The phase that a step begins. -/
def begun? (c : Coordinator) (s : Step) : Option Phase :=
  if (c.step s).phase = c.phase then none else some (c.step s).phase

theorem phases_of_steps {c : Coordinator} (hregular : c.Regular) (run : List Step) :
    (c.phase :: c.trace begun? run) <+: c.phase.onwards := by
  induction run generalizing c with
  | nil =>
    have ⟨later, hlater⟩ := c.phase.onwards_eq_cons
    rw [hlater]
    exact ⟨later, rfl⟩
  | cons s run ih =>
    have he := step_effect hregular s
    have hrest := ih (he.regular hregular)
    rw [trace, begun?]
    rcases he.moves with heq | hnext
    · rw [if_pos heq]
      rw [heq] at hrest
      exact hrest
    · have hne : (c.step s).phase ≠ c.phase := by
        intro heq
        have hlen := congrArg List.length hnext
        rw [heq, List.length_cons] at hlen
        omega
      rw [if_neg hne, hnext]
      exact (List.prefix_cons_inj _).2 hrest

-- While time passes, deadlines are all that takes effect, and no task is completed by one.
theorem phase_steps_of_found_eq_none {c : Coordinator} (hregular : c.Regular) {run : List Step}
    (h : ∀ s ∈ run, ∀ c : Coordinator, c.accepted? s = none) : (c.steps run).phase = c.phase := by
  induction run generalizing c with
  | nil => rfl
  | cons s run ih =>
    have he := step_effect hregular s
    rw [steps_cons, ih (he.regular hregular) fun s' hs' => h s' (List.mem_cons_of_mem s hs')]
    exact he.phase_of_found_eq_none (h s List.mem_cons_self c)

theorem moves_handle {c : Coordinator} (hregular : c.Regular) (e : Event) :
    c.phase.Moves (c.handle e).phase := by
  rw [← steps_stepsOf]
  cases e with
  | elapse ms =>
    apply Or.inl
    apply phase_steps_of_found_eq_none hregular
    intro s hs c'
    rcases List.mem_cons.1 hs with heq | hexpire
    · rw [heq]
      rfl
    · have ⟨n, _, hn⟩ := List.mem_map.1 hexpire
      rw [← hn]
      rfl
  | dispatch kind => exact (step_effect hregular (.dispatch kind c.monitor.alive)).moves
  | answer n outcome => exact (step_effect hregular (.answer n outcome)).moves
  | probed worker answered => exact (step_effect hregular (.probed worker answered)).moves
  | attend => exact (step_effect hregular .attend).moves

/-! ## 4. Completed tasks and done jobs -/

theorem get?_steps_of_isFinished {c : Coordinator} (hregular : c.Regular) {id : TaskId} {task : Task}
    (htask : c.ledger.tasks.get? id = some task) (hf : task.isFinished = true) (run : List Step) :
    (c.steps run).ledger.tasks.get? id = some task := by
  refine steps_induct (P := fun c _ => c.ledger.tasks.get? id = some task) ?_ hregular [] htask run
  intro _ _ _ _ hr he hget
  exact he.get?_of_isFinished hr hget hf

theorem Sound.ledger_steps_of_done {c : Coordinator} {accepted : Acceptances} (h : c.Sound accepted)
    (hp : c.phase = .done) (run : List Step) :
    ∃ reserved, (c.steps run).ledger = { c.ledger with reserved } := by
  refine steps_induct (P := fun c' _ => ∃ reserved, c'.ledger = { c.ledger with reserved }) ?_
    h.regular accepted ⟨c.ledger.reserved, rfl⟩ run
  intro c₁ c₂ _ _ _ he ⟨reserved, heq⟩
  have hp₁ : c₁.phase = .done := (congrArg Ledger.phase heq).trans hp
  have ⟨reserved', heq'⟩ := he.ledger_of_done hp₁ (by
    rw [heq]
    exact fun _ _ htask => h.isFinished_of_done hp htask)
  exact ⟨reserved', by rw [heq', heq]⟩

theorem dispatchOne_of_done {c : Coordinator} (hp : c.phase = .done) (kind : Kind) :
    c.dispatchOne kind = .ok (none, c) := by
  change c.ledger.phase = _ at hp
  have hkind : c.ledger.phase.kind ≠ some kind := by
    rw [hp]
    exact fun h => nomatch h
  unfold dispatchOne Ledger.assign?
  rw [if_pos hkind]

/-- The coordinators agree on all tasks, on the phase and on the results. -/
def SameOutcome (c c' : Coordinator) : Prop :=
  c'.ledger.tasks = c.ledger.tasks ∧ c'.phase = c.phase ∧ c'.results? = c.results?

theorem Sound.sameOutcome_of_done {c : Coordinator} {accepted : Acceptances} (h : c.Sound accepted)
    (hp : c.phase = .done) (run : List Step) : c.SameOutcome (c.steps run) := by
  have ⟨reserved, heq⟩ := h.ledger_steps_of_done hp run
  unfold SameOutcome phase results?
  rw [heq]
  exact ⟨rfl, rfl, rfl⟩

/-- Every step and every event leaves the phase or moves it one forward, so a run goes through the phases
in their order and begins each once at most. A task that is completed stays just as it is. When the job is
done nothing is dispatched any more, and whatever happens, another run of the coordinator on the clock
included, leaves all tasks, the phase and the results as they are. -/
theorem progress_is_final {job : Job} {workers : List Address} {config : Config}
    {c₀ : Coordinator} (h : create? job workers config = .ok c₀) (run : List Step) :
    let c := c₀.steps run
    ((∀ s, c.phase.Moves (c.step s).phase) ∧ (∀ e, c.phase.Moves (c.handle e).phase) ∧
      ∀ more, (c.phase :: c.trace begun? more) <+: c.phase.onwards) ∧
    (∀ id task, c.ledger.tasks.get? id = some task → (∃ r, task.status = .completed r) →
      ∀ more, (c.steps more).ledger.tasks.get? id = some task) ∧
    (c.phase = .done →
      (∀ more, c.SameOutcome (c.steps more) ∧
        ∀ kind, (c.steps more).dispatchOne kind = .ok (none, c.steps more)) ∧
      ∀ {σ : Type} (t : Transport σ) (world : σ) (limit : Time),
        c.SameOutcome ((Simulation.start t world c).runFor limit).2.coordinator) := by
  intro c
  have hs : c.Sound (c₀.accepted run) := sound_steps h run
  refine ⟨⟨?_, ?_, ?_⟩, ?_, ?_⟩
  · exact fun s => (step_effect hs.regular s).moves
  · exact fun e => moves_handle hs.regular e
  · exact phases_of_steps hs.regular
  · intro id task htask hr
    exact get?_steps_of_isFinished hs.regular htask ((Task.isFinished_eq_true_iff task).2 hr)
  · intro hp
    refine ⟨?_, ?_⟩
    · intro more
      have hsame := hs.sameOutcome_of_done hp more
      refine ⟨hsame, ?_⟩
      exact dispatchOne_of_done (hsame.2.1.trans hp)
    · intro σ t world limit
      have ⟨more, hmore⟩ := Simulation.steps_of_runFor t world hs.regular limit
      rw [← hmore]
      exact hs.sameOutcome_of_done hp more

/-- The first attempt at the reduce task answers after the second one, and to no avail. -/
theorem results_stay_after_late_answer :
    let c := pairStart.steps (pairRun ++ [.answer 4 (.ok (.value "a=3,b=3"))])
    c.phase = .done ∧
      ((c.steps [.answer 3 (.ok (.value "late"))]).results?.bind fun r => r[0]?) = some "a=3,b=3" := by
  have h : create? pairStart.job [.loopback 1, .loopback 2] {} = .ok pairStart := rfl
  have hdone : (pairStart.steps (pairRun ++ [.answer 4 (.ok (.value "a=3,b=3"))])).phase = .done := by
    decide +kernel
  refine ⟨hdone, ?_⟩
  have hsame := (((progress_is_final h _).2.2 hdone).1 [.answer 3 (.ok (.value "late"))]).1
  rw [hsame.2.2]
  decide +kernel

end Coordinator
end Foreman
