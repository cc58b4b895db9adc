import Foreman.Proofs.Running

/-!
# Histories, and runs on the clock

In a history of events no deadline takes effect before it has come, so histories are timely runs of steps
(`timely_after`). A simulation changes its coordinator through events alone, and only through such as take
no time while the clock stands (`sweep_induct`, `advanceSteps_induct`). So whatever a run of a coordinator does,
with its probe loop, its scheduling passes and the answers of whatever workers, it leaves a coordinator that some
history of events leads to (`becomes_runFor`).
-/

namespace Foreman

namespace Coordinator

/-! ## 1. The clock -/

-- Nothing moves the clock but time.
theorem now_step (c : Coordinator) (s : Step) :
    (c.step s).now = match s with
      | .tick ms => c.now + ms
      | _ => c.now := by
  cases s with
  | dispatch kind alive =>
    show (c.assign kind alive).now = c.now
    unfold assign
    split <;> rfl
  | answer n outcome =>
    show (c.answer n outcome).now = c.now
    unfold answer
    split
    · rfl
    · split
      · rfl
      · split <;> rfl
  | expire n =>
    show (c.expire n).now = c.now
    unfold expire passDeadline
    split
    · split <;> rfl
    · rfl
  | probed worker answered => rfl
  | tick ms => rfl
  | attend => rfl

theorem now_le_step (c : Coordinator) (s : Step) : c.now ≤ (c.step s).now := by
  rw [now_step]
  cases s with
  | tick ms => exact Nat.le_add_right c.now ms
  | _ => exact Nat.le_refl c.now

/-! ## 2. Timely runs -/

/-- The call whose deadline a step lets take effect, and when it does. -/
def lapse? (c : Coordinator) : Step → Option (Call × Time)
  | .expire n => (c.calls[n]?.filter Call.isWatched).map (·, c.now)
  | _ => none

/-- No deadline takes effect before it has come. -/
def Timely (c : Coordinator) (run : List Step) : Prop :=
  ∀ e ∈ c.trace lapse? run, e.1.deadline ≤ e.2

theorem timely_cons {c : Coordinator} {s : Step} {run : List Step} :
    c.Timely (s :: run) ↔
      (∀ e, c.lapse? s = some e → e.1.deadline ≤ e.2) ∧ (c.step s).Timely run := by
  simp [Timely, trace, or_imp, forall_and]

theorem timely_nil (c : Coordinator) : c.Timely [] :=
  fun _ he => nomatch he

theorem timely_append {c : Coordinator} {first second : List Step} :
    c.Timely (first ++ second) ↔ c.Timely first ∧ (c.steps first).Timely second := by
  simp only [Timely, trace_append, List.mem_append, or_imp, forall_and]

theorem timely_expire (ns : List Nat) (c : Coordinator)
    (h : ∀ n ∈ ns, ∀ call, c.calls[n]? = some call → call.deadline ≤ c.now) :
    c.Timely (ns.map .expire) := by
  induction ns generalizing c with
  | nil => exact c.timely_nil
  | cons n ns ih =>
    rw [List.map_cons, timely_cons]
    constructor
    · intro e he
      obtain ⟨call, hcall, rfl⟩ := Option.map_eq_some_iff.1 he
      exact h n List.mem_cons_self call (Option.filter_eq_some_iff.1 hcall).1
    · apply ih
      intro m hm call hcall
      have hle := h m (List.mem_cons_of_mem n hm)
      -- The deadline of another call stays when this one takes effect.
      change (c.expire n).calls[m]? = some call at hcall
      rw [show (c.step (.expire n)).now = c.now from c.now_step (.expire n)]
      unfold expire at hcall
      split at hcall
      · rw [calls_passDeadline, List.getElem?_modify] at hcall
        obtain ⟨old, hold, rfl⟩ := Option.map_eq_some_iff.1 hcall
        have hdue := hle old hold
        split <;> exact hdue
      · exact hle call hcall

theorem timely_stepsOf (c : Coordinator) (e : Event) : c.Timely (c.stepsOf e) := by
  cases e with
  | elapse ms =>
    rw [stepsOf, timely_cons]
    refine ⟨?_, timely_expire _ _ ?_⟩
    · intro e he
      cases he
    · intro n hn call hcall
      simp only [overdueCalls, List.mem_map, List.mem_filter, Prod.exists] at hn
      obtain ⟨due, _, ⟨hmem, hdue⟩, rfl⟩ := hn
      cases (List.mk_mem_zipIdx_iff_getElem?.1 hmem).symm.trans hcall
      exact of_decide_eq_true (Bool.and_eq_true_iff.1 hdue).2
  | _ =>
    rw [stepsOf, timely_cons]
    refine ⟨?_, timely_nil _⟩
    intro e he
    cases he

/-- Every history of events is a timely run of steps. -/
theorem timely_after (c : Coordinator) (history : List Event) :
    ∃ run, c.Timely run ∧ c.after history = c.steps run := by
  induction history generalizing c with
  | nil => exact ⟨[], c.timely_nil, rfl⟩
  | cons e history ih =>
    obtain ⟨run, htimely, hrun⟩ := ih (c.handle e)
    refine ⟨c.stepsOf e ++ run, ?_, ?_⟩
    · rw [timely_append, steps_stepsOf]
      exact ⟨c.timely_stepsOf e, htimely⟩
    · rw [steps_append, steps_stepsOf]
      exact hrun

/-! ## 3. Histories -/

/-- Some history of events leads from the one to the other. -/
def Becomes (c₀ c : Coordinator) : Prop :=
  ∃ history : List Event, c₀.after history = c

section

variable {c₀ c : Coordinator}

theorem Becomes.refl (c : Coordinator) : c.Becomes c :=
  ⟨[], rfl⟩

theorem Becomes.handle (h : c₀.Becomes c) (e : Event) : c₀.Becomes (c.handle e) := by
  obtain ⟨history, hhistory⟩ := h
  refine ⟨history ++ [e], ?_⟩
  unfold after at hhistory ⊢
  rw [List.foldl_append, hhistory]
  rfl

end

end Coordinator

/-- The event takes no time. -/
def Event.IsInstant : Event → Prop
  | .elapse ms => ms = 0
  | _ => True

namespace Simulation

section

variable {σ : Type} {P : Coordinator → Prop} {s : Simulation σ}

/-! ## 4. What is due at one moment -/

/-- The simulation when all has been done in a sweep but the run. -/
def beforeRun (s : Simulation σ) : Simulation σ :=
  (s.beginCalls.catchUpProbes.happen (.elapse 0)).finishCalls

theorem coordinator_beginCalls (s : Simulation σ) : s.beginCalls.coordinator = s.coordinator := by
  refine List.foldlRecOn (motive := fun s' : Simulation σ => s'.coordinator = s.coordinator) _ _ rfl ?_
  exact fun _ h _ _ => h

section

variable (hP : ∀ (c : Coordinator) (e : Event), e.IsInstant → P c → P (c.handle e))

include hP

theorem catchUpProbes_induct (h : P s.coordinator) : P s.catchUpProbes.coordinator := by
  refine Prober.catchUpRounds_induct (P := P) ?_ _ _ h
  exact fun c _ hc => hP c _ trivial hc

theorem finishCall_induct (h : P s.coordinator) (r : Return) : P (s.finishCall r).coordinator := by
  unfold finishCall
  split
  · exact hP _ (.answer r.call _) trivial h
  · split
    · exact h
    · exact hP _ (.answer r.call _) trivial h

theorem finishCalls_induct (h : P s.coordinator) : P s.finishCalls.coordinator := by
  refine List.foldlRecOn (motive := fun s' : Simulation σ => P s'.coordinator) _ _ h ?_
  exact fun _ hs r _ => finishCall_induct hP hs r

theorem pass_induct (h : P s.coordinator) (loop : Option Nat) (tick : Time) :
    P (s.pass loop tick).coordinator := by
  have hattend : P (s.happen .attend).coordinator := hP _ .attend trivial h
  unfold pass
  generalize s.happen .attend = s' at hattend ⊢
  simp only
  split
  · exact hattend
  · split
    · exact hattend
    · exact hattend
  · split
    · exact hattend
    · rename_i ids c' hc'
      exact Coordinator.dispatchUpTo_induct (fun c hc => hP c _ trivial hc) hattend hc'

theorem stepRun_induct (h : P s.coordinator) : P s.stepRun.coordinator := by
  unfold stepRun
  split
  · split
    · exact h
    · unfold startScheduling
      simp only
      split
      · exact h
      · refine pass_induct hP ?_ _ _
        exact h
  · split
    · exact pass_induct hP h _ _
    · split
      · exact pass_induct hP h _ _
      · exact h
  · exact h

theorem beforeRun_induct (h : P s.coordinator) : P s.beforeRun.coordinator := by
  rw [← coordinator_beginCalls] at h
  have helapsed : P (s.beginCalls.catchUpProbes.happen (.elapse 0)).coordinator :=
    hP _ (.elapse 0) rfl (catchUpProbes_induct hP h)
  exact finishCalls_induct hP helapsed

theorem sweep_induct (h : P s.coordinator) : P s.sweep.coordinator :=
  stepRun_induct hP (beforeRun_induct hP h)

theorem catchUpSweeps_induct (h : P s.coordinator) (sweeps : Nat) :
    P (s.catchUpSweeps sweeps).coordinator := by
  induction sweeps generalizing s with
  | zero => exact h
  | succ sweeps ih =>
    unfold catchUpSweeps
    simp only
    split
    · exact ih (sweep_induct hP h)
    · exact sweep_induct hP h

end

/-! ## 5. Time -/

theorem advanceSteps_induct (hP : ∀ (c : Coordinator) (e : Event), P c → P (c.handle e))
    (h : P s.coordinator) (limit : Time) (steps : Nat) : P (s.advanceSteps limit steps).coordinator := by
  have hinstant : ∀ (c : Coordinator) (e : Event), e.IsInstant → P c → P (c.handle e) :=
    fun c e _ => hP c e
  induction steps generalizing s with
  | zero => exact catchUpSweeps_induct hinstant h _
  | succ steps ih =>
    have hs : P s.catchUp.coordinator := catchUpSweeps_induct hinstant h _
    unfold advanceSteps
    simp only
    split
    · exact hs
    · apply ih
      exact hP _ (.elapse _) hs

/-! ## 6. Runs -/

theorem becomes_runFor {c₀ : Coordinator} (h : c₀.Becomes s.coordinator) (limit : Time) :
    c₀.Becomes (s.runFor limit).2.coordinator := by
  have hkept : ∀ (c : Coordinator) (e : Event), c₀.Becomes c → c₀.Becomes (c.handle e) :=
    fun _ e hc => hc.handle e
  unfold runFor
  dsimp only
  generalize hs' : advance _ limit = s'
  have h' : c₀.Becomes s'.coordinator := by
    rw [← hs']
    refine advanceSteps_induct hkept ?_ _ _
    exact h
  split
  · refine catchUpSweeps_induct (fun c e _ => hkept c e) ?_ _
    exact h'
  · unfold dropRun
    split
    · exact h'
    · exact h'

end

end Simulation
end Foreman
