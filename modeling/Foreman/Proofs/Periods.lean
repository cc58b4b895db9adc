import Foreman.Proofs.Deadlines
import Foreman.Proofs.Watches

/-!
# Periods of a run

A run has two timers, the ticks of its scheduling passes and those of its probe loop, and both take their periods
from the settings as they are. A period of zero is no period. Without one for the passes a run crashes as soon as its
first probes are over, without one for the probes it goes on and never probes again. With any other settings no run
crashes, and its probe loop lives as long as it schedules (`runs_need_periods`).
-/

namespace Foreman

/-! ## 1. Timers of a prober -/

namespace Prober

/-- The timers of the probe loops, by source. -/
def timers (p : Prober) : List (Nat × Time) :=
  p.loops.map fun l => (l.source, l.interval)

theorem timers_beginRound (p : Prober) (now : Time) (loop : ProbeLoop) (pings : List (Address × PingFate)) :
    (p.beginRound now loop pings).timers = p.timers := by
  unfold beginRound timers
  dsimp only
  rw [loops_launch, List.map_map]
  apply List.map_congr_left
  intro l _
  rw [Function.comp_apply]
  split <;> rfl

section

variable {α : Type} (now : Time) (record : α → Flight → α) (pings : α → List (Address × PingFate))

theorem timers_catchUp (p : Prober) (a : α) : (p.catchUp now record pings a).1.timers = p.timers := by
  unfold catchUp
  generalize p.ticksDue now = rounds
  induction rounds generalizing p a with
  | zero => rfl
  | succ rounds ih =>
    unfold catchUpRounds
    dsimp only
    split
    · rfl
    · rw [ih, timers_beginRound]
      rfl

-- Without loops one round is all.
theorem catchUp_of_loops_eq_nil {p : Prober} (h : p.loops = []) (a : α) :
    (p.catchUp now record pings a).1 = { p with flights := p.flights.filter (now < ·.ends) } := by
  have hticks : p.ticksDue now = 1 := by simp [ticksDue, h]
  unfold catchUp
  rw [hticks]
  unfold catchUpRounds
  simp [h]

end
end Prober

namespace Coordinator

/-! ## 2. What stays while a run is on -/

theorem now_handle {e : Event} (c : Coordinator) (he : e.IsInstant) : (c.handle e).now = c.now := by
  cases e with
  | elapse ms =>
    cases he
    exact now_elapse c 0
  | dispatch kind =>
    rw [← steps_stepsOf]
    exact now_step c (.dispatch kind c.monitor.alive)
  | answer n outcome => exact now_step c (.answer n outcome)
  | probed worker answered => rfl
  | attend => rfl

/-- The coordinator has the given settings, and its books are in order. -/
structure Keeps (config : Config) (c : Coordinator) : Prop where
  regular : c.Regular
  config : c.config = config

theorem Keeps.handle {config : Config} {c : Coordinator} (h : c.Keeps config) (e : Event) :
    (c.handle e).Keeps config := by
  rw [← steps_stepsOf]
  exact ⟨regular_steps h.regular _, (config_steps h.regular _).trans h.config⟩

end Coordinator

namespace Simulation

variable {σ : Type} {s : Simulation σ} {config : Config} {due : Time}

/-! ## 3. Stages of a run -/

/-- What holds in a stage of a run after its first probes. A run that schedules has a period for its passes, and its
probe loop is there unless the probes have no period. -/
inductive Started (config : Config) (p : Prober) : RunStage → Prop
  | scheduling (loop : Option Nat) (tick : Time) (hperiod : config.scheduleInterval ≠ 0)
      (hloop : loop = none ↔ config.probeInterval = 0)
      (htimers : p.timers = loop.toList.map (·, config.probeInterval)) :
      Started config p (.scheduling loop tick)
  | ended (result : RunEnd) (time : Time) (hperiod : config.scheduleInterval ≠ 0)
      (hresult : ∀ f, result ≠ .failed (.fault f)) : Started config p (.ended result time)
  | crashed (time : Time) (hzero : config.scheduleInterval = 0) :
      Started config p (.ended (.failed (.fault .zeroPeriod)) time)

/-- What holds in a stage of a run whose first probes are over by some time. -/
inductive Stands (config : Config) (due : Time) (p : Prober) : RunStage → Prop
  | probing (source : Nat) (hloops : p.loops = []) (hflights : ∀ f ∈ p.flights, f.ends ≤ due) :
      Stands config due p (.probing source)
  | started {stage : RunStage} (h : Started config p stage) : Stands config due p stage

/-- The first probes of the run are over. -/
def HasStarted (config : Config) (s : Simulation σ) : Prop :=
  ∃ stage, s.run = some stage ∧ Started config s.prober stage

/-- A run with the given settings is on or has ended, and its first probes are over by some time. -/
structure Proceeds (config : Config) (due : Time) (s : Simulation σ) : Prop where
  keeps : s.coordinator.Keeps config
  stands : ∃ stage, s.run = some stage ∧ Stands config due s.prober stage

theorem Started.catchUp {p : Prober} {stage : RunStage} (h : Started config p stage) {α : Type} (now : Time)
    (record : α → Flight → α) (pings : α → List (Address × PingFate)) (a : α) :
    Started config (p.catchUp now record pings a).1 stage := by
  cases h with
  | scheduling loop tick hperiod hloop htimers =>
    exact .scheduling loop tick hperiod hloop ((Prober.timers_catchUp now record pings p a).trans htimers)
  | ended result time hperiod hresult => exact .ended result time hperiod hresult
  | crashed time hzero => exact .crashed time hzero

theorem HasStarted.proceeds (h : s.HasStarted config) (hkeeps : s.coordinator.Keeps config) :
    s.Proceeds config due := by
  obtain ⟨stage, hrun, hstarted⟩ := h
  exact ⟨hkeeps, stage, hrun, .started hstarted⟩

/-! ## 4. What is due at one moment -/

theorem run_beginCalls (s : Simulation σ) : s.beginCalls.run = s.run ∧ s.beginCalls.prober = s.prober := by
  refine List.foldlRecOn
    (motive := fun s' : Simulation σ => s'.run = s.run ∧ s'.prober = s.prober) _ _ ⟨rfl, rfl⟩ ?_
  exact fun _ h _ _ => h

theorem run_finishCall (s : Simulation σ) (r : Return) :
    (s.finishCall r).run = s.run ∧ (s.finishCall r).prober = s.prober := by
  unfold finishCall
  split
  · exact ⟨rfl, rfl⟩
  · split <;> exact ⟨rfl, rfl⟩

theorem run_finishCalls (s : Simulation σ) : s.finishCalls.run = s.run ∧ s.finishCalls.prober = s.prober := by
  refine List.foldlRecOn
    (motive := fun s' : Simulation σ => s'.run = s.run ∧ s'.prober = s.prober) _ _ ⟨rfl, rfl⟩ ?_
  intro s' h r _
  obtain ⟨hrun, hprober⟩ := run_finishCall s' r
  exact ⟨hrun.trans h.1, hprober.trans h.2⟩

theorem beforeRun_eq (s : Simulation σ) : s.beforeRun.run = s.run ∧
    s.beforeRun.prober = (s.prober.catchUp s.now (fun c flight => c.handle (.probed flight.worker flight.answered))
      (fun c => s.beginCalls.pings c.monitor.workers) s.coordinator).1 := by
  obtain ⟨hrun, hprober⟩ := run_beginCalls s
  obtain ⟨hrun', hprober'⟩ := run_finishCalls (s.beginCalls.catchUpProbes.happen (.elapse 0))
  refine ⟨hrun'.trans hrun, hprober'.trans ?_⟩
  show (s.beginCalls.prober.catchUp s.beginCalls.coordinator.now _ _ s.beginCalls.coordinator).1 = _
  rw [hprober, coordinator_beginCalls]
  rfl

-- What is still under way before the run is taken on ends later than now.
theorem Proceeds.beforeRun (h : s.Proceeds config due) :
    s.beforeRun.Proceeds config due ∧ ∀ source, s.beforeRun.run = some (.probing source) →
      ∀ f ∈ s.beforeRun.prober.flights, s.now < f.ends := by
  obtain ⟨hrun, hprober⟩ := beforeRun_eq s
  obtain ⟨stage, hstage, hstands⟩ := h.stands
  have hkeeps : s.beforeRun.coordinator.Keeps config :=
    beforeRun_induct (fun _ e _ hc => hc.handle e) h.keeps
  cases hstands with
  | probing source hloops hflights =>
    rw [Prober.catchUp_of_loops_eq_nil _ _ _ hloops] at hprober
    refine ⟨⟨hkeeps, _, hrun.trans hstage, ?_⟩, ?_⟩
    · rw [hprober]
      exact .probing source hloops fun f hf => hflights f (List.mem_filter.1 hf).1
    · intro _ _ f hf
      rw [hprober] at hf
      exact of_decide_eq_true (List.mem_filter.1 hf).2
  | started hstarted =>
    refine ⟨⟨hkeeps, _, hrun.trans hstage, .started ?_⟩, ?_⟩
    · rw [hprober]
      exact hstarted.catchUp _ _ _ _
    · intro source hprobing
      rw [hrun, hstage] at hprobing
      cases hprobing
      cases hstarted

/-! ## 5. The run -/

theorem started_pass {loop : Option Nat} (hperiod : config.scheduleInterval ≠ 0)
    (hloop : loop = none ↔ config.probeInterval = 0)
    (htimers : s.prober.timers = loop.toList.map (·, config.probeInterval)) (tick : Time) :
    (s.pass loop tick).HasStarted config := by
  unfold pass
  simp only
  split
  · exact ⟨_, rfl, .ended _ _ hperiod nofun⟩
  · split
    · exact ⟨_, rfl, .ended _ _ hperiod nofun⟩
    · exact ⟨_, rfl, .ended _ _ hperiod nofun⟩
  · split
    · exact ⟨_, rfl, .ended _ _ hperiod nofun⟩
    · exact ⟨_, rfl, .scheduling loop tick hperiod hloop htimers⟩

theorem started_startScheduling (hconfig : s.coordinator.config = config) (hloops : s.prober.loops = []) :
    s.startScheduling.HasStarted config := by
  subst hconfig
  have hstart : ∀ interval, ((s.prober.startLoop s.now interval).1 = none ↔ interval = 0) ∧
      (s.prober.startLoop s.now interval).2.timers =
        (s.prober.startLoop s.now interval).1.toList.map (·, interval) := by
    intro interval
    unfold Prober.startLoop Prober.timers
    split
    · rename_i hzero
      simp [hzero, hloops]
    · rename_i hne
      simp [hne, hloops, Prober.freshSource]
  unfold startScheduling
  dsimp only
  split
  · rename_i hzero
    exact ⟨_, rfl, .crashed _ hzero⟩
  · rename_i hperiod
    exact started_pass hperiod (hstart _).1 (hstart _).2 _

-- Only probes that are under way keep a run from its start.
theorem Proceeds.stepRun (h : s.Proceeds config due) :
    s.stepRun.HasStarted config ∨ s.stepRun = s ∧ ∃ source, s.run = some (.probing source) ∧
      s.prober.isWaiting source = true := by
  obtain ⟨stage, hrun, hstands⟩ := h.stands
  unfold Simulation.stepRun
  rw [hrun]
  cases hstands with
  | probing source hloops hflights =>
    dsimp only
    split
    · rename_i hwaiting
      exact .inr ⟨rfl, source, rfl, hwaiting⟩
    · exact .inl (started_startScheduling h.keeps.config hloops)
  | started hstarted =>
    apply Or.inl
    cases hstarted with
    | scheduling loop tick hperiod hloop htimers =>
      dsimp only
      split
      · exact started_pass hperiod hloop htimers _
      · split
        · exact started_pass hperiod hloop htimers _
        · exact ⟨_, hrun, .scheduling loop tick hperiod hloop htimers⟩
    | ended result time hperiod hresult => exact ⟨_, hrun, .ended result time hperiod hresult⟩
    | crashed time hzero => exact ⟨_, hrun, .crashed time hzero⟩

/-! ## 6. The clock -/

theorem now_sweep (s : Simulation σ) : s.sweep.now = s.now :=
  sweep_induct (P := fun c => c.now = s.now) (fun c _ he hc => (c.now_handle he).trans hc) rfl

theorem now_catchUp (s : Simulation σ) : s.catchUp.now = s.now :=
  catchUpSweeps_induct (P := fun c => c.now = s.now) (fun c _ he hc => (c.now_handle he).trans hc) rfl _

theorem Proceeds.sweep (h : s.Proceeds config due) :
    s.sweep.Proceeds config due ∧ (s.now < due ∨ s.sweep.HasStarted config) := by
  obtain ⟨hbefore, hlater⟩ := h.beforeRun
  rcases hbefore.stepRun with hstarted | ⟨heq, source, hrun, hwaiting⟩
  · exact ⟨hstarted.proceeds (sweep_induct (fun _ e _ hc => hc.handle e) h.keeps), .inr hstarted⟩
  · have hsweep : s.sweep = s.beforeRun := heq
    rw [hsweep]
    refine ⟨hbefore, .inl ?_⟩
    obtain ⟨f, hf, -⟩ := List.any_eq_true.1 hwaiting
    obtain ⟨stage, hstage, hstands⟩ := hbefore.stands
    rw [hrun, Option.some.injEq] at hstage
    subst hstage
    cases hstands with
    | probing _ _ hflights => exact (hlater source hrun f hf).trans_le (hflights f hf)
    | started hstarted => cases hstarted

theorem Proceeds.catchUp (h : s.Proceeds config due) :
    s.catchUp.Proceeds config due ∧ (s.now < due ∨ s.catchUp.HasStarted config) := by
  have hsweeps : ∀ (sweeps : Nat) {s : Simulation σ}, s.Proceeds config due →
      (s.catchUpSweeps (sweeps + 1)).Proceeds config due ∧
        (s.now < due ∨ (s.catchUpSweeps (sweeps + 1)).HasStarted config) := by
    intro sweeps
    induction sweeps with
    | zero =>
      intro s h
      have heq : s.catchUpSweeps 1 = s.sweep := by
        unfold catchUpSweeps catchUpSweeps
        exact ite_self _
      rw [heq]
      exact h.sweep
    | succ sweeps ih =>
      intro s h
      unfold catchUpSweeps
      dsimp only
      split
      · rw [← now_sweep s]
        exact ih h.sweep.1
      · exact h.sweep
  exact hsweeps _ h

theorem Proceeds.hasStarted_of_runEnded (h : s.Proceeds config due) (hended : s.runEnded = true) :
    s.HasStarted config := by
  obtain ⟨stage, hrun, hstands⟩ := h.stands
  cases hstands with
  | probing source =>
    unfold runEnded at hended
    rw [hrun] at hended
    cases hended
  | started hstarted => exact ⟨stage, hrun, hstarted⟩

-- The clock comes to the limit, unless the run ends before.
theorem Proceeds.advanceSteps (h : s.Proceeds config due) {limit : Time} {steps : Nat}
    (hsteps : limit ≤ s.now + steps) : (s.advanceSteps limit steps).Proceeds config due ∧
      (limit < due ∨ (s.advanceSteps limit steps).HasStarted config) := by
  induction steps generalizing s with
  | zero =>
    obtain ⟨hcatchUp, hstarted⟩ := h.catchUp
    exact ⟨hcatchUp, hstarted.imp_left fun hlt => hsteps.trans_lt hlt⟩
  | succ steps ih =>
    obtain ⟨hcatchUp, hstarted⟩ := h.catchUp
    have hnow := now_catchUp s
    unfold Simulation.advanceSteps
    generalize s.catchUp = s' at hcatchUp hstarted hnow ⊢
    dsimp only
    split
    · rename_i hstop
      refine ⟨hcatchUp, ?_⟩
      rw [Bool.or_eq_true, decide_eq_true_iff] at hstop
      rcases hstop with hended | hlimit
      · exact .inr (hcatchUp.hasStarted_of_runEnded hended)
      · exact hstarted.imp_left fun hlt => (hnow ▸ hlimit).trans_lt hlt
    · rename_i hgo
      rw [Bool.or_eq_true, decide_eq_true_iff, not_or] at hgo
      apply ih
      · exact ⟨hcatchUp.keeps.handle (.elapse _), hcatchUp.stands⟩
      · show limit ≤ (s'.coordinator.elapse _).now + steps
        rw [Coordinator.now_elapse]
        show limit ≤ s'.now + _ + steps
        lia

/-! ## 7. Runs -/

/-- Begins a run, with one probe of every worker. -/
def beginRun (s : Simulation σ) : Simulation σ :=
  { s with
    prober := s.prober.freshSource.2.launch s.now s.prober.freshSource.1 (s.pings s.coordinator.monitor.workers)
    run := some (.probing s.prober.freshSource.1) }

/-- The simulation with a run that has been on for so long, or has ended before. -/
def underRun (s : Simulation σ) (limit : Time) : Simulation σ :=
  s.beginRun.advance limit

theorem runFor_fst (s : Simulation σ) (limit : Time) : (s.runFor limit).1 =
    match (s.underRun limit).run with
    | some (.ended result time) => some (result, time)
    | _ => none := by
  show (match (s.underRun limit).run with
    | some (.ended result time) => (some (result, time), _)
    | _ => (none, _) : Option (RunEnd × Time) × Simulation σ).1 = _
  split <;> rfl

-- Every one of the first probes ends with its timeout at the latest.
theorem Proceeds.beginRun (hkeeps : s.coordinator.Keeps config) (hflights : s.prober.flights = [])
    (hloops : s.prober.loops = []) : s.beginRun.Proceeds config (s.now + s.prober.timeout) := by
  refine ⟨hkeeps, _, rfl, .probing _ ?_ ?_⟩
  · exact (Prober.loops_launch _ _ _ _).trans hloops
  · intro f hf
    change f ∈ (Prober.launch _ _ _ _).flights at hf
    rw [Prober.flights_launch, show s.prober.freshSource.2.flights = [] from hflights, List.nil_append,
      List.mem_map] at hf
    obtain ⟨ping, _, rfl⟩ := hf
    exact Nat.add_le_add_left (PingFate.duration_le _ _) _

theorem proceeds_underRun (t : Transport σ) (world : σ) {c : Coordinator} (h : c.Keeps config) (limit : Time) :
    ((start t world c).underRun limit).Proceeds config (c.now + config.probeTimeout) ∧
      (config.probeTimeout ≤ limit → ((start t world c).underRun limit).HasStarted config) := by
  have hbegin := Proceeds.beginRun (s := start t world c) h rfl rfl
  have htimeout : (start t world c).prober.timeout = config.probeTimeout := by
    rw [← h.config]
    rfl
  rw [htimeout] at hbegin
  have hsteps : c.now + limit ≤ (start t world c).beginRun.now + (c.now + limit - c.now) := by
    show c.now + limit ≤ c.now + (c.now + limit - c.now)
    lia
  obtain ⟨hproceeds, hstarted⟩ := hbegin.advanceSteps hsteps
  refine ⟨hproceeds, fun hle => hstarted.resolve_left ?_⟩
  show ¬ c.now + limit < c.now + config.probeTimeout
  lia

theorem Proceeds.eq_zero_of_crashed (h : s.Proceeds config due) {f : Fault} {time : Time}
    (hrun : s.run = some (.ended (.failed (.fault f)) time)) : config.scheduleInterval = 0 := by
  obtain ⟨stage, hstage, hstands⟩ := h.stands
  obtain rfl := Option.some.inj (hrun.symm.trans hstage)
  cases hstands with
  | started hstarted =>
    cases hstarted with
    | ended _ _ _ hresult => exact absurd rfl (hresult f)
    | crashed _ hzero => exact hzero

theorem HasStarted.crashed (h : s.HasStarted config) (hzero : config.scheduleInterval = 0) :
    ∃ time, s.run = some (.ended (.failed (.fault .zeroPeriod)) time) := by
  obtain ⟨stage, hrun, hstarted⟩ := h
  cases hstarted with
  | scheduling _ _ hperiod => exact absurd hzero hperiod
  | ended _ _ hperiod => exact absurd hzero hperiod
  | crashed time => exact ⟨time, hrun⟩

theorem HasStarted.scheduling_or_ended (h : s.HasStarted config) :
    (∃ loop tick, s.run = some (.scheduling loop tick)) ∨ ∃ result time, s.run = some (.ended result time) := by
  obtain ⟨stage, hrun, hstarted⟩ := h
  cases hstarted with
  | scheduling loop tick => exact .inl ⟨loop, tick, hrun⟩
  | ended result time => exact .inr ⟨result, time, hrun⟩
  | crashed time => exact .inr ⟨_, time, hrun⟩

theorem Proceeds.loops_of_scheduling (h : s.Proceeds config due) {loop : Option Nat} {tick : Time}
    (hrun : s.run = some (.scheduling loop tick)) :
    (config.probeInterval ≠ 0 → ∃ l, s.prober.loops = [l] ∧ loop = some l.source ∧
      l.interval = config.probeInterval) ∧
    (config.probeInterval = 0 → loop = none ∧ s.prober.loops = []) := by
  obtain ⟨stage, hstage, hstands⟩ := h.stands
  obtain rfl := Option.some.inj (hrun.symm.trans hstage)
  cases hstands with
  | started hstarted =>
    cases hstarted with
    | scheduling _ _ _ hloop htimers =>
      cases loop with
      | none => exact ⟨fun hne => absurd (hloop.1 rfl) hne, fun _ => ⟨rfl, List.map_eq_nil_iff.1 htimers⟩⟩
      | some source =>
        refine ⟨fun _ => ?_, fun hzero => nomatch hloop.2 hzero⟩
        obtain ⟨l, hl, htimer⟩ := List.map_eq_singleton_iff.1 htimers
        rw [Prod.mk.injEq] at htimer
        exact ⟨l, hl, congrArg some htimer.1.symm, htimer.2⟩

/-- The probe loop and the next tick of a run that schedules. -/
def ticks? (s : Simulation σ) : Option (Option Nat × Time) :=
  match s.run with
  | some (.scheduling loop tick) => some (loop, tick)
  | _ => none

theorem run_eq_of_ticks {loop : Option Nat} {tick : Time} (h : s.ticks? = some (loop, tick)) :
    s.run = some (.scheduling loop tick) := by
  unfold ticks? at h
  split at h
  · rename_i hrun
    cases h
    exact hrun
  · cases h

end Simulation

namespace Coordinator

theorem keeps_steps {job : Job} {workers : List Address} {config : Config} {c₀ : Coordinator}
    (h : create? job workers config = .ok c₀) (run : List Step) : (c₀.steps run).Keeps config := by
  have hregular := regular_of_create? h
  exact ⟨regular_steps hregular run, (config_steps hregular run).trans (create?_eq_ok h).2.1⟩

/-! ## 8. Settings from the environment -/

/-- Unless the environment sets the period of the scheduling passes to zero, no run crashes; if it does, every run
crashes that goes on until its first probes are over. From then on a run schedules if it has not ended. While it
schedules, its probe loop is there, unless the environment sets the period of the probes to zero; then there is
none. -/
theorem runs_need_periods {job : Job} {workers : List Address} {lookup : String → Option String}
    {c₀ : Coordinator} (h : create? job workers (.ofEnvironment lookup) = .ok c₀) (run : List Step)
    {σ : Type} (t : Transport σ) (world : σ) (limit : Time) :
    let config := Config.ofEnvironment lookup
    let s := Simulation.start t world (c₀.steps run)
    (Setting.scheduleInterval.read? lookup ≠ some 0 →
      ∀ f time, (s.runFor limit).1 ≠ some (.failed (.fault f), time)) ∧
    (Setting.scheduleInterval.read? lookup = some 0 → config.probeTimeout ≤ limit →
      ∃ time, (s.runFor limit).1 = some (.failed (.fault .zeroPeriod), time)) ∧
    (config.probeTimeout ≤ limit → (s.runFor limit).1 = none →
      ∃ loop tick, (s.underRun limit).run = some (.scheduling loop tick)) ∧
    ∀ loop tick, (s.underRun limit).run = some (.scheduling loop tick) →
      (Setting.probeInterval.read? lookup ≠ some 0 → ∃ l, (s.underRun limit).prober.loops = [l] ∧
        loop = some l.source ∧ l.interval = config.probeInterval) ∧
      (Setting.probeInterval.read? lookup = some 0 → loop = none ∧ (s.underRun limit).prober.loops = []) := by
  intro config s
  -- Neither default is zero.
  have hschedule : config.scheduleInterval = 0 ↔ Setting.scheduleInterval.read? lookup = some 0 :=
    Option.getD_eq_iff.trans (or_iff_left fun h => absurd h.2 (by decide))
  have hprobe : config.probeInterval = 0 ↔ Setting.probeInterval.read? lookup = some 0 :=
    Option.getD_eq_iff.trans (or_iff_left fun h => absurd h.2 (by decide))
  obtain ⟨hproceeds, hstarted⟩ := Simulation.proceeds_underRun t world (keeps_steps h run) limit
  simp only [Simulation.runFor_fst, ne_eq, ← hschedule, ← hprobe]
  refine ⟨?_, ?_, ?_, ?_⟩
  · intro hperiod f time hend
    split at hend
    · rename_i hrun
      cases hend
      exact hperiod (hproceeds.eq_zero_of_crashed hrun)
    · cases hend
  · intro hzero hle
    obtain ⟨time, hrun⟩ := (hstarted hle).crashed hzero
    rw [hrun]
    exact ⟨time, rfl⟩
  · intro hle hnone
    apply (hstarted hle).scheduling_or_ended.resolve_right
    rintro ⟨result, time, hrun⟩
    rw [hrun] at hnone
    cases hnone
  · exact fun loop tick => hproceeds.loops_of_scheduling

/-- An environment with one variable. -/
def oneVariable (name value : String) : String → Option String :=
  fun other => if other = name then some value else none

/-- A new coordinator for a job with two splits, without workers and in that environment. -/
def startIn (name value : String) : Coordinator :=
  { pairStart with
    config := .ofEnvironment (oneVariable name value)
    monitor := .ofWorkers []
    log := [.configured 2 1 0] }

theorem create?_startIn (name value : String) :
    create? pairStart.job [] (.ofEnvironment (oneVariable name value)) = .ok (startIn name value) := rfl

def simulationIn (name value : String) : Simulation Unit :=
  .start .disconnected () (startIn name value)

/-- A run is on with a period of its own for its probes, one has crashed without a period for its passes, and one goes
on without a period for its probes. -/
theorem runs_with_one_setting :
    (∀ f time, ((simulationIn "MR_PROBE_INTERVAL_MS" "5").runFor 10).1 ≠ some (.failed (.fault f), time)) ∧
      (∃ l, ((simulationIn "MR_PROBE_INTERVAL_MS" "5").underRun 10).run = some (.scheduling (some l.source) 200) ∧
        ((simulationIn "MR_PROBE_INTERVAL_MS" "5").underRun 10).prober.loops = [l] ∧ l.interval = 5) ∧
      (∃ time, ((simulationIn "MR_SCHEDULE_INTERVAL_MS" "0").runFor 500).1 =
        some (.failed (.fault .zeroPeriod), time)) ∧
      ((simulationIn "MR_PROBE_INTERVAL_MS" "0").underRun 10).run = some (.scheduling none 200) ∧
      ((simulationIn "MR_PROBE_INTERVAL_MS" "0").underRun 10).prober.loops = [] := by
  have hgood := runs_need_periods (create?_startIn "MR_PROBE_INTERVAL_MS" "5") [] .disconnected () 10
  have hcrash := runs_need_periods (create?_startIn "MR_SCHEDULE_INTERVAL_MS" "0") [] .disconnected () 500
  have hsilent := runs_need_periods (create?_startIn "MR_PROBE_INTERVAL_MS" "0") [] .disconnected () 10
  have hrun : ((simulationIn "MR_PROBE_INTERVAL_MS" "5").underRun 10).run = some (.scheduling (some 1) 200) :=
    Simulation.run_eq_of_ticks (by decide +kernel)
  have hrun' : ((simulationIn "MR_PROBE_INTERVAL_MS" "0").underRun 10).run = some (.scheduling none 200) :=
    Simulation.run_eq_of_ticks (by decide +kernel)
  have hcrashed := hcrash.2.1 rfl (by decide +kernel)
  have hnone := (hsilent.2.2.2 none 200 hrun').2 rfl
  obtain ⟨l, hl, hsource, hinterval⟩ := (hgood.2.2.2 (some 1) 200 hrun).1 (by decide +kernel)
  rw [hsource] at hrun
  exact ⟨hgood.1 (by decide +kernel), ⟨l, hrun, hl, hinterval⟩, hcrashed, hrun', hnone.2⟩

/-- Zeros are taken for periods: the one run crashes at once, and the other one schedules without a probe loop. -/
theorem zeros_are_read_as_periods :
    ((simulationIn "MR_SCHEDULE_INTERVAL_MS" "0").runFor 0).1 = some (.failed (.fault .zeroPeriod), 0) ∧
      ((simulationIn "MR_PROBE_INTERVAL_MS" "0").underRun 10).run = some (.scheduling none 200) ∧
      ((simulationIn "MR_PROBE_INTERVAL_MS" "0").underRun 10).prober.loops = [] :=
  ⟨rfl, rfl, rfl⟩

end Coordinator
end Foreman
