import Foreman.Proofs.Results
import Foreman.Simulation

/-!
# Runs on the clock

A simulation changes its coordinator through events alone, and the answers that it passes on are those
of its transport. So if the workers are honest, every coordinator that a simulation comes to is one
that honest answers lead to (`Simulation.Faithful`), and so is the one whose results a run ends with.
-/

namespace Foreman

namespace Coordinator

/-! ## 1. Coordinators that honest answers lead to -/

/-- Some run of steps leads there in which every output is an honest answer. -/
def Reaches (c₀ : Coordinator) (answers : Request → Output → Prop) (c : Coordinator) : Prop :=
  ∃ run, c₀.Honest answers run ∧ c₀.steps run = c

/-- The call of that number has been made, with that request. -/
def Asks (c : Coordinator) (n : Nat) (request : Request) : Prop :=
  ∃ call, c.calls[n]? = some call ∧ call.request = request

-- No step takes back what a call asks for.
theorem Effect.asks {c c' : Coordinator} {accepted : Option (TaskId × Output)}
    (he : Effect c accepted c') {n : Nat} {request : Request} (h : c.Asks n request) :
    c'.Asks n request := by
  have ⟨call, hcall, hrequest⟩ := h
  cases he with
  | idle => exact h
  | hands =>
    refine ⟨call, ?_, hrequest⟩
    change (c.calls ++ _)[n]? = _
    rw [List.getElem?_append_left (List.getElem?_eq_some_iff.1 hcall).1]
    exact hcall
  | ends m _ _ state =>
    change ∃ found, (c.calls.modify m _)[n]? = some found ∧ _
    rw [List.getElem?_modify, hcall]
    refine ⟨_, rfl, ?_⟩
    split
    · exact hrequest
    · exact hrequest

section

variable {c₀ c : Coordinator} {answers : Request → Output → Prop}

theorem Reaches.regular (h : c₀.Reaches answers c) (h₀ : c₀.Regular) : c.Regular := by
  have ⟨run, _, hrun⟩ := h
  rw [← hrun]
  exact regular_steps h₀ run

theorem Reaches.job (h : c₀.Reaches answers c) (h₀ : c₀.Regular) : c.job = c₀.job := by
  have ⟨run, _, hrun⟩ := h
  rw [← hrun]
  exact job_steps h₀ run

theorem Reaches.step (h : c₀.Reaches answers c) (s : Step)
    (honest : ∀ e, c.output? s = some e → answers e.1.request e.2) :
    c₀.Reaches answers (c.step s) := by
  have ⟨run, hhonest, hrun⟩ := h
  refine ⟨run ++ [s], ?_, by rw [steps_append, hrun]; rfl⟩
  intro e he
  rw [trace_append, hrun, List.mem_append] at he
  rcases he with he | he
  · exact hhonest e he
  · change e ∈ (c.output? s).toList ++ [] at he
    rw [List.append_nil, Option.mem_toList] at he
    exact honest e he

end

/-! ## 2. Events of a simulation -/

/-- A state of a simulation's coordinator, with the answers that are on their way: it has been reached
by honest answers, and those on their way are honest too. -/
structure Awaits (c₀ : Coordinator) (answers : Request → Output → Prop) (c : Coordinator)
    (returns : List Return) : Prop where
  reached : c₀.Reaches answers c
  pending : ∀ r ∈ returns, ∃ request, c.Asks r.call request ∧
    ∀ output, r.outcome = some (.ok output) → answers request output

theorem handle_dispatch {c : Coordinator} {kind : Kind} {found : Option TaskId} {next : Coordinator}
    (h : c.dispatchOne kind = .ok (found, next)) : c.handle (.dispatch kind) = next := by
  simp only [handle, h]

-- A scheduling pass is one dispatch after the other.
theorem dispatchUpTo_induct {P : Coordinator → Prop} {kind : Kind}
    (hP : ∀ c, P c → P (c.handle (.dispatch kind))) {limit : Nat} {ids : List TaskId} {c c' : Coordinator}
    (h : P c) (hc' : c.dispatchUpTo kind limit = .ok (ids, c')) : P c' := by
  induction limit generalizing c ids with
  | zero =>
    cases hc'
    exact h
  | succ limit ih =>
    unfold Coordinator.dispatchUpTo at hc'
    cases hfound : c.dispatchOne kind with
    | error e =>
      rw [hfound] at hc'
      cases hc'
    | ok result =>
      obtain ⟨found, next⟩ := result
      rw [hfound] at hc'
      have hnext : P next := by
        rw [← handle_dispatch hfound]
        exact hP c h
      cases found with
      | none =>
        cases hc'
        exact hnext
      | some id =>
        simp only at hc'
        split at hc'
        · cases hc'
        · rename_i rest last hrest
          cases hc'
          exact ih hnext hrest

section

variable {c₀ c : Coordinator} {answers : Request → Output → Prop} {returns : List Return}
  (h₀ : c₀.Regular)

include h₀

theorem Awaits.step (h : c₀.Awaits answers c returns) (s : Step)
    (honest : ∀ e, c.output? s = some e → answers e.1.request e.2) :
    c₀.Awaits answers (c.step s) returns := by
  refine ⟨h.reached.step s honest, ?_⟩
  intro r hr
  have ⟨request, hasks, ha⟩ := h.pending r hr
  exact ⟨request, (step_effect (h.reached.regular h₀) s).asks hasks, ha⟩

-- Steps other than answers bring no output, so nothing has to be shown of them.
theorem Awaits.quietSteps (h : c₀.Awaits answers c returns) {run : List Step}
    (quiet : ∀ s ∈ run, ∀ c' : Coordinator, c'.output? s = none) :
    c₀.Awaits answers (c.steps run) returns := by
  induction run generalizing c with
  | nil => exact h
  | cons s run ih =>
    apply ih
    · apply h.step h₀
      intro e he
      rw [quiet s List.mem_cons_self c] at he
      cases he
    · exact fun s' hs' => quiet s' (List.mem_cons_of_mem s hs')

theorem Awaits.handle (h : c₀.Awaits answers c returns) {e : Event}
    (quiet : ∀ n outcome, e ≠ .answer n outcome) : c₀.Awaits answers (c.handle e) returns := by
  rw [← steps_stepsOf]
  apply h.quietSteps h₀
  intro s hs c'
  cases e with
  | answer n outcome => exact absurd rfl (quiet n outcome)
  | elapse ms =>
    rcases List.mem_cons.1 hs with heq | hexpire
    · rw [heq]
      rfl
    · have ⟨n, _, hn⟩ := List.mem_map.1 hexpire
      rw [← hn]
      rfl
  | dispatch kind =>
    rw [List.mem_singleton.1 hs]
    rfl
  | probed worker answered =>
    rw [List.mem_singleton.1 hs]
    rfl
  | attend =>
    rw [List.mem_singleton.1 hs]
    rfl

theorem Awaits.answer (h : c₀.Awaits answers c returns) {n : Nat} {request : Request}
    (hasks : c.Asks n request) {outcome : Outcome}
    (honest : ∀ output, outcome = .ok output → answers request output) :
    c₀.Awaits answers (c.handle (.answer n outcome)) returns := by
  apply h.step h₀ (.answer n outcome)
  intro e he
  have ⟨call, hcall, hrequest⟩ := hasks
  cases outcome with
  | error err => cases he
  | ok output =>
    have ⟨found, hfound, heq⟩ := Option.map_eq_some_iff.1 he
    have hc : c.calls[n]? = some found := (Option.filter_eq_some_iff.1 hfound).1
    rw [hcall] at hc
    cases hc
    rw [← heq, hrequest]
    exact honest output rfl

theorem Awaits.dispatchUpTo {kind : Kind} {limit : Nat} {ids : List TaskId} {c' : Coordinator}
    (h : c₀.Awaits answers c returns) (hc' : c.dispatchUpTo kind limit = .ok (ids, c')) :
    c₀.Awaits answers c' returns := by
  refine dispatchUpTo_induct (P := fun c => c₀.Awaits answers c returns) ?_ h hc'
  exact fun _ hc => hc.handle h₀ fun _ _ he => nomatch he

end

end Coordinator
/-! ## 3. Honest transports -/

/-- A transport that answers the requests of a job honestly, as long as its state keeps to `inv`. -/
structure Transport.Honest {σ : Type} (t : Transport σ) (job : Job)
    (answers : Request → Output → Prop) (inv : σ → Prop) : Prop where
  begins : ∀ world worker input, inv world →
    inv (t.callFate world worker (.ofInput job input)).1 ∧
    ∀ after output, (t.callFate world worker (.ofInput job input)).2 = .returns after (.ok output) →
      answers (.ofInput job input) output
  ends : ∀ world worker input, inv world →
    inv (t.outcome world worker (.ofInput job input)).1 ∧
    ∀ output, (t.outcome world worker (.ofInput job input)).2 = .ok output →
      answers (.ofInput job input) output

-- Probes do to a state only what their outcomes do to it.
theorem Prober.catchUpRounds_induct {α : Type} {P : α → Prop} {now : Time} {record : α → Flight → α}
    {pings : α → List (Address × PingFate)} (hrecord : ∀ a flight, P a → P (record a flight))
    (rounds : Nat) (p : Prober) {a : α} (ha : P a) :
    P (p.catchUpRounds now record pings rounds a).2 := by
  induction rounds generalizing p a with
  | zero => exact ha
  | succ rounds ih =>
    have hflights : P ((p.flights.filter (·.ends ≤ now)).foldl record a) :=
      List.foldlRecOn _ _ ha fun b hb flight _ => hrecord b flight hb
    unfold catchUpRounds
    simp only
    split
    · exact hflights
    · exact ih _ hflights

namespace Simulation

/-- How a run that has come to a coordinator can end there: with the results of a job that is done, with
an error that was kept or that a dispatch is, or because passes are due without a period. -/
inductive EndsAt (c : Coordinator) : RunEnd → Prop
  | done {results : Results} (h : c.results? = some results) : EndsAt c (.done results)
  | kept {e : Error} (h : c.ledger.fatal = some e) : EndsAt c (.failed (.error e))
  | incomplete (hp : c.phase = .done) (h : c.results? = none) : EndsAt c (.failed (.error .aborted))
  | refused (kind : Kind) {e : Error} (h : c.dispatchPass kind = .error e) :
      EndsAt c (.failed (.error e))
  | noPeriod (h : c.config.scheduleInterval = 0) : EndsAt c (.failed (.fault .zeroPeriod))

/-- Nothing has come to the coordinator but honest answers, and nothing else is on its way. A run that
has ended did so at a coordinator that honest answers led to. -/
structure Faithful {σ : Type} (c₀ : Coordinator) (answers : Request → Output → Prop)
    (inv : σ → Prop) (s : Simulation σ) : Prop where
  transport : s.transport.Honest c₀.job answers inv
  world : inv s.world
  coordinator : c₀.Awaits answers s.coordinator s.returns
  ended : ∀ result time, s.run = some (.ended result time) →
    ∃ c, c₀.Reaches answers c ∧ EndsAt c result

section

variable {σ : Type} {c₀ : Coordinator} {answers : Request → Output → Prop} {inv : σ → Prop}
  {s : Simulation σ} (h₀ : c₀.Regular)

/-! ## 4. Ends of runs -/

theorem Faithful.endRun (h : s.Faithful c₀ answers inv) (loop : Option Nat) {result : RunEnd}
    (hresult : EndsAt s.coordinator result) : (s.endRun loop result).Faithful c₀ answers inv := by
  refine ⟨h.transport, h.world, h.coordinator, ?_⟩
  intro result time hrun
  cases hrun
  exact ⟨s.coordinator, h.coordinator.reached, hresult⟩

theorem phase_eq_done_of_kind {c : Coordinator} (h : c.phase.kind = none) : c.phase = .done := by
  cases hp : c.phase with
  | mapping =>
    rw [hp] at h
    cases h
  | reducing =>
    rw [hp] at h
    cases h
  | done => rfl

/-! ## 5. What is due at one moment -/

include h₀

theorem Faithful.ofInput (h : s.Faithful c₀ answers inv) {n : Nat} {call : Call}
    (hcall : s.coordinator.calls[n]? = some call) :
    ∃ input, call.request = .ofInput c₀.job input := by
  have ⟨task, _, hrequest⟩ :=
    (h.coordinator.reached.regular h₀).known call (List.mem_of_getElem? hcall)
  rw [h.coordinator.reached.job h₀] at hrequest
  exact ⟨task.input, hrequest⟩

theorem Faithful.beginCall (h : s.Faithful c₀ answers inv) {n : Nat} {call : Call}
    (hcall : s.coordinator.calls[n]? = some call) (begun : Nat) {world : σ} {fate : Fate} :
    s.transport.callFate s.world call.worker call.request = (world, fate) →
    Faithful c₀ answers inv { s with
      world, begun
      returns := s.returns ++ match fate with
        | .hangs => []
        | .returns after outcome => [⟨n, s.now + after, some outcome⟩]
        | .decides after => [⟨n, s.now + after, none⟩] } := by
  intro hfate
  have ⟨input, hinput⟩ := h.ofInput h₀ hcall
  have ⟨hworld, hanswers⟩ := h.transport.begins s.world call.worker input h.world
  rw [← hinput, hfate] at hworld hanswers
  refine ⟨h.transport, hworld, ⟨h.coordinator.reached, ?_⟩, h.ended⟩
  intro r hr
  rcases List.mem_append.1 hr with hold | hnew
  · exact h.coordinator.pending r hold
  · refine ⟨call.request, ?_⟩
    cases fate with
    | hangs => cases hnew
    | returns after outcome =>
      rw [List.mem_singleton.1 hnew]
      refine ⟨⟨call, hcall, rfl⟩, ?_⟩
      intro output hout
      cases hout
      exact hanswers after output rfl
    | decides after =>
      rw [List.mem_singleton.1 hnew]
      exact ⟨⟨call, hcall, rfl⟩, fun _ hout => nomatch hout⟩

theorem Faithful.beginCalls (h : s.Faithful c₀ answers inv) :
    s.beginCalls.Faithful c₀ answers inv := by
  have hall : s.beginCalls.Faithful c₀ answers inv ∧ s.beginCalls.coordinator = s.coordinator := by
    refine List.foldlRecOn (motive := fun s' =>
      Faithful c₀ answers inv s' ∧ s'.coordinator = s.coordinator) _ _ ⟨h, rfl⟩ ?_
    intro s' ⟨h', hc⟩ ⟨call, n⟩ hmem
    have ⟨hle, hget⟩ := List.mk_mem_zipIdx_iff_le_and_getElem?_sub.1 hmem
    rw [List.getElem?_drop, Nat.add_sub_cancel' hle, ← hc] at hget
    exact ⟨h'.beginCall h₀ hget (n + 1) rfl, hc⟩
  exact hall.1

theorem Faithful.happen (h : s.Faithful c₀ answers inv) {e : Event}
    (quiet : ∀ n outcome, e ≠ .answer n outcome) : (s.happen e).Faithful c₀ answers inv :=
  ⟨h.transport, h.world, h.coordinator.handle h₀ quiet, h.ended⟩

theorem Faithful.catchUpProbes (h : s.Faithful c₀ answers inv) :
    s.catchUpProbes.Faithful c₀ answers inv := by
  refine ⟨h.transport, h.world, ?_, h.ended⟩
  apply Prober.catchUpRounds_induct (P := fun c => c₀.Awaits answers c s.returns)
  · intro c flight hc
    exact hc.handle h₀ fun _ _ he => nomatch he
  · exact h.coordinator

theorem Faithful.finishCall (h : s.Faithful c₀ answers inv) {r : Return} {request : Request}
    (hasks : s.coordinator.Asks r.call request)
    (hr : ∀ output, r.outcome = some (.ok output) → answers request output) :
    (s.finishCall r).Faithful c₀ answers inv := by
  unfold Simulation.finishCall
  cases hout : r.outcome with
  | some outcome =>
    refine ⟨h.transport, h.world, h.coordinator.answer h₀ hasks ?_, h.ended⟩
    intro output heq
    exact hr output (by rw [hout, heq])
  | none =>
    -- The transport decides now, and it is honest.
    have ⟨call, hcall, _⟩ := hasks
    have ⟨input, hinput⟩ := h.ofInput h₀ hcall
    have ⟨hworld, hanswers⟩ := h.transport.ends s.world call.worker input h.world
    rw [← hinput] at hworld hanswers
    simp only [hcall]
    exact ⟨h.transport, hworld, h.coordinator.answer h₀ ⟨call, hcall, rfl⟩ hanswers, h.ended⟩

omit h₀ in
theorem asks_finishCall (hregular : s.coordinator.Regular) (r : Return) {n : Nat}
    {request : Request} (h : s.coordinator.Asks n request) :
    (s.finishCall r).coordinator.Asks n request := by
  unfold Simulation.finishCall
  split
  · exact (Coordinator.step_effect hregular (.answer r.call _)).asks h
  · split
    · exact h
    · exact (Coordinator.step_effect hregular (.answer r.call _)).asks h

theorem Faithful.finishEach {due : List Return} (h : s.Faithful c₀ answers inv)
    (hdue : ∀ r ∈ due, ∃ request, s.coordinator.Asks r.call request ∧
      ∀ output, r.outcome = some (.ok output) → answers request output) :
    (due.foldl Simulation.finishCall s).Faithful c₀ answers inv := by
  induction due generalizing s with
  | nil => exact h
  | cons r due ih =>
    have ⟨request, hasks, hr⟩ := hdue r List.mem_cons_self
    apply ih (h.finishCall h₀ hasks hr)
    -- While one call returns, what the others ask for stays.
    intro r' hr'
    have ⟨request', hasks', ha'⟩ := hdue r' (List.mem_cons_of_mem r hr')
    exact ⟨request', asks_finishCall (h.coordinator.reached.regular h₀) r hasks', ha'⟩

theorem Faithful.finishCalls (h : s.Faithful c₀ answers inv) :
    s.finishCalls.Faithful c₀ answers inv := by
  refine Faithful.finishEach h₀ ⟨h.transport, h.world, ⟨h.coordinator.reached, ?_⟩, h.ended⟩ ?_
  · exact fun r hr => h.coordinator.pending r (List.mem_of_mem_filter hr)
  · exact fun r hr => h.coordinator.pending r (List.mem_of_mem_filter hr)

/-! ## 6. The run -/

theorem Faithful.pass (h : s.Faithful c₀ answers inv) (loop : Option Nat) (tick : Time) :
    (s.pass loop tick).Faithful c₀ answers inv := by
  have hs : (s.happen .attend).Faithful c₀ answers inv := h.happen h₀ fun _ _ he => nomatch he
  unfold Simulation.pass
  generalize s.happen .attend = s' at hs ⊢
  simp only
  split
  · rename_i hfatal
    exact hs.endRun loop (.kept hfatal)
  · rename_i hkind
    split
    · rename_i results hresults
      exact hs.endRun loop (.done hresults)
    · rename_i hnone
      exact hs.endRun loop (.incomplete (phase_eq_done_of_kind hkind) hnone)
  · split
    · rename_i he
      exact hs.endRun loop (.refused _ he)
    · rename_i ids c' hc'
      exact ⟨hs.transport, hs.world, hs.coordinator.dispatchUpTo h₀ hc', fun _ _ he => nomatch he⟩

theorem Faithful.stepRun (h : s.Faithful c₀ answers inv) : s.stepRun.Faithful c₀ answers inv := by
  unfold Simulation.stepRun
  split
  · split
    · exact h
    · unfold Simulation.startScheduling
      have hs : ∀ prober, Faithful c₀ answers inv { s with prober } :=
        fun _ => ⟨h.transport, h.world, h.coordinator, h.ended⟩
      simp only
      split
      · rename_i hzero
        exact (hs _).endRun _ (.noPeriod hzero)
      · exact (hs _).pass h₀ _ _
  · split
    · exact h.pass h₀ _ _
    · split
      · exact h.pass h₀ _ _
      · exact h
  · exact h

/-! ## 7. The clock -/

theorem Faithful.sweep (h : s.Faithful c₀ answers inv) : s.sweep.Faithful c₀ answers inv := by
  have hprobed := (h.beginCalls h₀).catchUpProbes h₀
  have helapsed := hprobed.happen h₀ (e := .elapse 0) fun _ _ he => nomatch he
  exact (helapsed.finishCalls h₀).stepRun h₀

theorem Faithful.catchUpSweeps (h : s.Faithful c₀ answers inv) (sweeps : Nat) :
    (s.catchUpSweeps sweeps).Faithful c₀ answers inv := by
  induction sweeps generalizing s with
  | zero => exact h
  | succ sweeps ih =>
    unfold Simulation.catchUpSweeps
    simp only
    split
    · exact ih (h.sweep h₀)
    · exact h.sweep h₀

theorem Faithful.advanceSteps (h : s.Faithful c₀ answers inv) (limit : Time) (steps : Nat) :
    (s.advanceSteps limit steps).Faithful c₀ answers inv := by
  induction steps generalizing s with
  | zero => exact h.catchUpSweeps h₀ _
  | succ steps ih =>
    have hs : s.catchUp.Faithful c₀ answers inv := h.catchUpSweeps h₀ _
    unfold Simulation.advanceSteps
    simp only
    split
    · exact hs
    · apply ih
      exact hs.happen h₀ fun _ _ he => nomatch he

end

-- What a run ends with is what it can end with at a coordinator that honest answers led to.
theorem endsAt_of_runFor {σ : Type} {c₀ : Coordinator} {answers : Request → Output → Prop}
    {inv : σ → Prop} {s : Simulation σ} (h₀ : c₀.Regular) (h : s.Faithful c₀ answers inv)
    {limit time : Time} {result : RunEnd} (hend : (s.runFor limit).1 = some (result, time)) :
    ∃ c, c₀.Reaches answers c ∧ EndsAt c result := by
  have hstart : ∀ prober source,
      Faithful c₀ answers inv { s with prober, run := some (.probing source) } :=
    fun _ _ => ⟨h.transport, h.world, h.coordinator, fun _ _ he => nomatch he⟩
  unfold runFor at hend
  simp only at hend
  split at hend
  · rename_i hrun
    cases hend
    exact ((hstart _ _).advanceSteps h₀ _ _).ended result time hrun
  · cases hend

/-! ## 8. What a run leaves -/

section

variable {σ : Type} {c₀ : Coordinator} {answers : Request → Output → Prop} {inv : σ → Prop}
  {s : Simulation σ}

theorem Faithful.forgetRun (h : s.Faithful c₀ answers inv) (prober : Prober) :
    Faithful c₀ answers inv { s with prober, run := none } :=
  ⟨h.transport, h.world, h.coordinator, fun _ _ he => nomatch he⟩

theorem Faithful.runFor (h₀ : c₀.Regular) (h : s.Faithful c₀ answers inv) (limit : Time) :
    (s.runFor limit).2.Faithful c₀ answers inv := by
  have hstart : ∀ prober source,
      Faithful c₀ answers inv { s with prober, run := some (.probing source) } :=
    fun _ _ => ⟨h.transport, h.world, h.coordinator, fun _ _ he => nomatch he⟩
  unfold Simulation.runFor
  dsimp only
  generalize hs' : advance _ limit = s'
  have h' : s'.Faithful c₀ answers inv := by
    rw [← hs']
    exact (hstart _ _).advanceSteps h₀ _ _
  split
  · exact (h'.forgetRun s'.prober).catchUpSweeps h₀ _
  · unfold dropRun
    split
    · exact h'.forgetRun _
    · exact h'.forgetRun s'.prober

end

-- Nothing is asked of the workers, so every transport will do, and every answer.
theorem faithful_start {σ : Type} (t : Transport σ) (world : σ) (c : Coordinator) :
    (Simulation.start t world c).Faithful c (fun _ _ => True) (fun _ => True) := by
  refine ⟨⟨?_, ?_⟩, trivial, ⟨⟨[], fun _ _ => trivial, rfl⟩, fun _ hr => nomatch hr⟩, ?_⟩
  · exact fun _ _ _ _ => ⟨trivial, fun _ _ _ => trivial⟩
  · exact fun _ _ _ _ => ⟨trivial, fun _ _ => trivial⟩
  · exact fun _ _ he => nomatch he

-- Whatever the workers answer during a run, it leaves a coordinator that some steps lead to.
theorem steps_of_runFor {σ : Type} (t : Transport σ) (world : σ) {c : Coordinator}
    (hregular : c.Regular) (limit : Time) :
    ∃ run, c.steps run = ((Simulation.start t world c).runFor limit).2.coordinator := by
  have ⟨run, _, hrun⟩ := ((faithful_start t world c).runFor hregular limit).coordinator.reached
  exact ⟨run, hrun⟩

end Simulation
end Foreman
