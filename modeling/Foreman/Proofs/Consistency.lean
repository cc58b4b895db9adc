import Foreman.Proofs.Running

/-!
# The books are never inconsistent

The tasks can refuse a move, the coordinator keeps the first error as fatal, and a run that finds one
fails. None of this ever happens (`bookkeeping_is_consistent`): whatever the coordinator asks of its tasks
is granted, and a run ends with the results of the job, unless its passes have no period.
-/

namespace Foreman

namespace Ledger

/-! ## 1. Errors -/

theorem assign?_isOk (l : Ledger) (job : Job) (config : Config) (now : Time)
    (alive : List Address) (kind : Kind) :
    ∃ found, l.assign? job config now alive kind = .ok found := by
  rcases l.assign?_cases job config now alive kind with ⟨_, h⟩ | ⟨_, _, _, _, _, h⟩
  · exact ⟨_, h⟩
  · exact ⟨_, h⟩

end Ledger

namespace Coordinator

theorem Effect.fatal {c c' : Coordinator} {found : Option (TaskId × Output)}
    (he : Effect c found c') : c'.ledger.fatal = c.ledger.fatal := by
  cases he with
  | idle => rfl
  | hands => rfl
  | ends n call task state _ _ _ _ hends =>
    have ⟨_, _, _, _, heq, _⟩ := hends.frame
    have ⟨reserved, hreleased⟩ := c.released_eq call
    rw [heq, hreleased]

theorem fatal_steps {c : Coordinator} (hregular : c.Regular) (run : List Step) :
    (c.steps run).ledger.fatal = c.ledger.fatal :=
  steps_unchanged (fun c => c.ledger.fatal) Effect.fatal hregular run

-- Creation fails through a fault alone: the map tasks are all the tasks there are.
theorem create?_ne_error (job : Job) (workers : List Address) (config : Config) (e : Error) :
    create? job workers config ≠ .error (.error e) := by
  have hl : Ledger.Unclosed { tasks := .ofSplits job.splits } := fun _ => ⟨rfl, rfl⟩
  have ⟨change, hchange, _⟩ := Ledger.enterNext_movesOn job.reduceCount_pos hl
  intro he
  unfold create? at he
  rw [hchange] at he
  cases hf : change.fault with
  | some f =>
    simp only [hf] at he
    cases he
  | none =>
    simp only [hf] at he
    cases he

/-! ## 2. What the tasks grant -/

/-- Whatever the coordinator may ask of its tasks is granted: to dispatch one that is ready, to complete
the task of a call or to take it back, and, while it maps, to add the reduce tasks right after. -/
structure Granted (c : Coordinator) : Prop where
  dispatch : ∀ kind, ∀ id ∈ c.ledger.ready c.now kind, ∀ worker deadline,
    ∃ answer, c.ledger.tasks.dispatch id worker deadline = .ok answer
  accept : ∀ call ∈ c.calls, ∀ result,
    ∃ answer, c.ledger.tasks.accept call.task result = .ok answer
  takeBack : ∀ call ∈ c.calls, ∃ answer, c.ledger.tasks.takeBack call.task call.lease = .ok answer
  addReduces : c.phase = .mapping → ∀ call ∈ c.calls, ∀ result answer,
    c.ledger.tasks.accept call.task result = .ok answer →
    ∀ ps, ∃ tasks, answer.2.addReduces ps = .ok tasks

section

variable {c : Coordinator} (h : c.Regular)

include h

theorem Regular.granted : c.Granted := by
  refine ⟨?_, ?_, ?_, ?_⟩
  · intro kind id hready worker deadline
    have ⟨_, task, htask, hpending⟩ := TaskTable.mem_pending.1 (List.mem_filter.1 hready).1
    exact ⟨_, TaskTable.dispatch_of_isPending htask hpending worker deadline⟩
  · intro call hcall result
    have ⟨task, htask, _⟩ := h.known call hcall
    rw [TaskTable.accept_of_get? htask]
    split
    · exact ⟨_, rfl⟩
    · exact ⟨_, rfl⟩
  · intro call hcall
    have ⟨task, htask, _⟩ := h.known call hcall
    rw [TaskTable.takeBack_of_get? htask]
    split
    · exact ⟨_, rfl⟩
    · exact ⟨_, rfl⟩
  · intro hp call hcall result answer hanswer ps
    have ⟨task, htask, _⟩ := h.known call hcall
    have hnone := (h.unclosed hp).2
    rw [TaskTable.accept_of_get? htask] at hanswer
    split at hanswer
    · cases hanswer
      exact ⟨_, TaskTable.addReduces_of_reduces_eq_nil (TaskTable.reduces_set_eq_nil hnone _ _) ps⟩
    · cases hanswer
      exact ⟨_, TaskTable.addReduces_of_reduces_eq_nil hnone ps⟩

end

theorem dispatchOne_isOk (c : Coordinator) (kind : Kind) : ∃ found, c.dispatchOne kind = .ok found := by
  have ⟨found, hfound⟩ := c.ledger.assign?_isOk c.job c.config c.now c.monitor.alive kind
  unfold dispatchOne
  rw [hfound]
  cases found with
  | none => exact ⟨_, rfl⟩
  | some made => exact ⟨_, rfl⟩

theorem dispatchUpTo_isOk (kind : Kind) (limit : Nat) (c : Coordinator) :
    ∃ found, c.dispatchUpTo kind limit = .ok found := by
  induction limit generalizing c with
  | zero => exact ⟨_, rfl⟩
  | succ limit ih =>
    obtain ⟨⟨id, next⟩, hone⟩ := c.dispatchOne_isOk kind
    unfold dispatchUpTo
    rw [hone]
    cases id with
    | none => exact ⟨_, rfl⟩
    | some id =>
      obtain ⟨rest, hrest⟩ := ih next
      dsimp only
      rw [hrest]
      exact ⟨_, rfl⟩

/-! ## 3. Ends of runs -/

-- Of all that a run could end with, only results and the want of a period are left.
theorem Sound.end_of_run {c : Coordinator} {accepted : Acceptances} (h : c.Sound accepted)
    (hfatal : c.ledger.fatal = none) {result : RunEnd} (hends : Simulation.EndsAt c result) :
    (∃ results, result = .done results) ∨
      c.config.scheduleInterval = 0 ∧ result = .failed (.fault .zeroPeriod) := by
  cases hends with
  | done => exact .inl ⟨_, rfl⟩
  | kept hkept =>
    rw [hfatal] at hkept
    cases hkept
  | incomplete hp hnone =>
    rw [h.results?_of_done hp] at hnone
    cases hnone
  | refused kind hrefused =>
    have ⟨found, hfound⟩ := dispatchUpTo_isOk kind c.monitor.alive.length c
    unfold dispatchPass at hrefused
    rw [hfound] at hrefused
    cases hrefused
  | noPeriod hzero => exact .inr ⟨hzero, rfl⟩

/-- No operation of a coordinator is an error, and none has been kept: creation fails through a fault
alone, all that is asked of the tasks is granted, and every dispatch succeeds, whether or not it finds
something to dispatch. A job that is done has all its results, and a run of the coordinator, whatever the
workers do, ends with results if it ends, unless it has crashed because its passes have no period. -/
theorem bookkeeping_is_consistent (job : Job) (workers : List Address) (config : Config) :
    (∀ e, create? job workers config ≠ .error (.error e)) ∧
    ∀ c₀, create? job workers config = .ok c₀ → ∀ run : List Step,
      let c := c₀.steps run
      (c.ledger.fatal = none ∧ c.Granted) ∧
      (∀ kind, (∃ found, c.dispatchOne kind = .ok found) ∧
        ∃ found, c.dispatchPass kind = .ok found) ∧
      (c.phase = .done → ∃ results, c.results? = some results) ∧
      ∀ {σ : Type} (t : Transport σ) (world : σ) (limit time : Time) (result : RunEnd),
        ((Simulation.start t world c).runFor limit).1 = some (result, time) →
        (∃ results, result = .done results) ∨
          config.scheduleInterval = 0 ∧ result = .failed (.fault .zeroPeriod) := by
  refine ⟨create?_ne_error job workers config, ?_⟩
  intro c₀ h run c
  have hs : c.Sound (c₀.accepted run) := sound_steps h run
  have hfatal : c.ledger.fatal = none := by
    have ⟨_, _, _, _, _, hm⟩ := create?_eq_ok h
    have ⟨_, _, _, heq⟩ := hm.frame
    rw [fatal_steps (regular_of_create? h) run, heq]
  have hconfig : c.config = config := by
    rw [config_steps (regular_of_create? h) run, (create?_eq_ok h).2.1]
  refine ⟨⟨hfatal, hs.regular.granted⟩, ?_, ?_, ?_⟩
  · exact fun kind => ⟨c.dispatchOne_isOk kind, dispatchUpTo_isOk kind _ c⟩
  · exact fun hp => ⟨_, hs.results?_of_done hp⟩
  · intro σ t world limit time result hend
    have ⟨c', ⟨more, _, hmore⟩, hends⟩ :=
      Simulation.endsAt_of_runFor hs.regular (Simulation.faithful_start t world c) hend
    rw [← hmore] at hends
    have hresult := (hs.steps more).end_of_run ((fatal_steps hs.regular more).trans hfatal) hends
    rw [config_steps hs.regular more, hconfig] at hresult
    exact hresult

/-- Although calls were late, lost and answered twice, the job is done, and a run of its coordinator finds
the results, without a worker that could be reached. -/
theorem results_without_workers :
    let c := pairStart.steps (pairRun ++ [.answer 4 (.ok (.value "a=3,b=3"))])
    c.ledger.fatal = none ∧ (∃ results, c.results? = some results) ∧
      ∃ results,
        ((Simulation.start .disconnected () c).runFor 10).1 = some (.done results, 0) := by
  have h : create? pairStart.job [.loopback 1, .loopback 2] {} = .ok pairStart := rfl
  have hbooks := (bookkeeping_is_consistent pairStart.job [.loopback 1, .loopback 2] {}).2 _ h
    (pairRun ++ [.answer 4 (.ok (.value "a=3,b=3"))])
  refine ⟨hbooks.1.1, hbooks.2.2.1 (by decide +kernel), ?_⟩
  have htime : ((Simulation.start .disconnected () (pairStart.steps
      (pairRun ++ [.answer 4 (.ok (.value "a=3,b=3"))]))).runFor 10).1.map Prod.snd = some 0 := by
    decide +kernel
  have ⟨⟨result, time⟩, hend, hzero⟩ := Option.map_eq_some_iff.1 htime
  cases hzero
  rcases hbooks.2.2.2 _ _ _ _ _ hend with ⟨results, hdone⟩ | ⟨hperiod, _⟩
  · exact ⟨results, by rw [hend, hdone]⟩
  · exact absurd hperiod (by decide)

end Coordinator
end Foreman
