import Foreman.Coordinator

/-!
# Steps: one thing at a time

An event can stand for several things: when time passes, every deadline that is reached takes effect,
one after the other. A step is a single one of them. Steps may come in any order and at any time: a
dispatch may go by an older view of who is alive, and a deadline may take effect late, after a call
that returned meanwhile. So histories of events are runs of steps (`after_eq_steps`), and what holds
after every run of steps holds after every history.
-/

namespace Foreman

/-- A single thing that happens to a coordinator. -/
inductive Step
  /-- A task of the kind is dispatched to one of the workers that somebody saw alive. -/
  | dispatch (kind : Kind) (alive : List Address)
  /-- The call of that number returns. -/
  | answer (call : Nat) (outcome : Outcome)
  /-- The deadline of the call of that number takes effect. -/
  | expire (call : Nat)
  /-- A probe of the worker ends. -/
  | probed (worker : Address) (answered : Bool)
  /-- Time passes, and nothing else happens yet. -/
  | tick (ms : Time)
  /-- A scheduling pass begins. -/
  | attend

/-- Outputs that have been accepted, each with its task. -/
abbrev Acceptances := List (TaskId × Output)

/-- The records that an output brings; the text of a reduced partition brings none. -/
def Output.emitted : Output → List Record
  | .records rs => rs
  | .value _ => []

/-- All records that were accepted, in the order of acceptance. -/
def Acceptances.emitted (accepted : Acceptances) : List Record :=
  accepted.flatMap fun e => e.2.emitted

theorem Acceptances.emitted_concat (accepted : Acceptances) (id : TaskId) (output : Output) :
    Acceptances.emitted (accepted ++ [(id, output)]) = accepted.emitted ++ output.emitted := by
  simp [emitted]

namespace Coordinator

/-! ## 1. Runs of steps -/

/-- Dispatches the next task of the kind to one of the given workers, if there are both. -/
def assign (c : Coordinator) (kind : Kind) (alive : List Address) : Coordinator :=
  match c.ledger.assign? c.job c.config c.now alive kind with
  | .ok (some (call, ledger)) => { c with ledger, calls := c.calls ++ [call] }
  | _ => c

/-- Lets the deadline of a call take effect; nothing watches a call that has returned or expired. -/
def expire (c : Coordinator) (n : Nat) : Coordinator :=
  if c.calls[n]?.any Call.isWatched then c.passDeadline n else c

/-- What a step does. -/
def step (c : Coordinator) : Step → Coordinator
  | .dispatch kind alive => c.assign kind alive
  | .answer n outcome => c.answer n outcome
  | .expire n => c.expire n
  | .probed worker answered => c.probed worker answered
  | .tick ms => { c with now := c.now + ms }
  | .attend => c.attend

/-- The coordinator after a run of steps. -/
def steps (c : Coordinator) (run : List Step) : Coordinator :=
  run.foldl step c

theorem steps_cons (c : Coordinator) (s : Step) (run : List Step) :
    c.steps (s :: run) = (c.step s).steps run := rfl

theorem steps_append (c : Coordinator) (first second : List Step) :
    c.steps (first ++ second) = (c.steps first).steps second :=
  List.foldl_append

-- Probes are all that the monitor takes note of.
theorem monitor_step (c : Coordinator) (s : Step) :
    (c.step s).monitor = match s with
      | .probed worker answered => c.monitor.note c.now worker answered
      | _ => c.monitor := by
  cases s with
  | dispatch kind alive =>
    show (c.assign kind alive).monitor = _
    unfold assign
    split
    · rfl
    · rfl
  | answer n outcome =>
    show (c.answer n outcome).monitor = _
    unfold answer
    split
    · rfl
    · split
      · rfl
      · split
        · rfl
        · rfl
        · rfl
        · rfl
  | expire n =>
    show (c.expire n).monitor = _
    unfold expire passDeadline
    split
    · split
      · rfl
      · rfl
    · rfl
  | probed worker answered => rfl
  | tick ms => rfl
  | attend => rfl

/-! ## 2. What a run shows -/

/-- What is seen of the steps of a run, in their order. -/
def trace {α : Type} (view : Coordinator → Step → Option α) : Coordinator → List Step → List α
  | _, [] => []
  | c, s :: run => (view c s).toList ++ trace view (c.step s) run

theorem trace_append {α : Type} (view : Coordinator → Step → Option α) (c : Coordinator)
    (first second : List Step) :
    c.trace view (first ++ second) = c.trace view first ++ (c.steps first).trace view second := by
  induction first generalizing c with
  | nil => rfl
  | cons s first ih => rw [List.cons_append, trace, trace, ih, List.append_assoc, steps_cons]

/-- The output that a step brings, and the call that returns with it: the call has to be open, and the
output of the kind of its task. -/
def output? (c : Coordinator) : Step → Option (Call × Output)
  | .answer n (.ok output) =>
    (c.calls[n]?.filter fun call => call.isOpen && call.admits (.ok output)).map (·, output)
  | _ => none

/-- The output that a step has accepted, and its task: the task has to be dispatched when the output
arrives, under whatever lease. -/
def accepted? (c : Coordinator) (s : Step) : Option (TaskId × Output) :=
  ((c.output? s).filter fun found =>
    (c.ledger.tasks.get? found.1.task).any (·.status.stage = .dispatched)).map
    fun found => (found.1.task, found.2)

/-- The outputs that a run of steps has accepted, in the order of acceptance. -/
def accepted (c : Coordinator) (run : List Step) : Acceptances :=
  c.trace accepted? run

theorem accepted_cons (c : Coordinator) (s : Step) (run : List Step) :
    c.accepted (s :: run) = (c.accepted? s).toList ++ (c.step s).accepted run := rfl

/-! ## 3. Events are runs of steps -/

/-- The steps that an event stands for. -/
def stepsOf (c : Coordinator) : Event → List Step
  | .dispatch kind => [.dispatch kind c.monitor.alive]
  | .answer n outcome => [.answer n outcome]
  | .probed worker answered => [.probed worker answered]
  | .elapse ms => .tick ms :: ({ c with now := c.now + ms }.overdueCalls.map .expire)
  | .attend => [.attend]

theorem calls_passDeadline (c : Coordinator) (n : Nat) :
    (c.passDeadline n).calls = c.calls.modify n fun call => { call with state := .overdue } := by
  unfold passDeadline
  cases h : c.calls[n]? with
  | none => rw [List.modify_eq_self (List.getElem?_eq_none_iff.1 h)]
  | some call => rfl

theorem mem_overdueCalls {c : Coordinator} {n : Nat} (h : n ∈ c.overdueCalls) :
    c.calls[n]?.any Call.isWatched = true := by
  simp only [overdueCalls, List.mem_map, List.mem_filter, Prod.exists] at h
  obtain ⟨call, _, ⟨hmem, hw⟩, rfl⟩ := h
  rw [List.mk_mem_zipIdx_iff_getElem?.1 hmem]
  exact (Bool.and_eq_true_iff.1 hw).1

theorem overdueCalls_nodup (c : Coordinator) : c.overdueCalls.Nodup := by
  have hz : (c.calls.zipIdx.map (·.2)).Nodup := by
    rw [List.zipIdx_map_snd]
    exact List.nodup_range'
  exact hz.sublist (List.filter_sublist.map _)

-- Deadlines that pass together take effect one by one: the calls that come later in the list are
-- still watched when their turn comes.
theorem steps_expire (ns : List Nat) (c : Coordinator) (hnd : ns.Nodup)
    (hw : ∀ n ∈ ns, c.calls[n]?.any Call.isWatched = true) :
    c.steps (ns.map .expire) = ns.foldl passDeadline c := by
  induction ns generalizing c with
  | nil => rfl
  | cons n ns ih =>
    have hn : c.expire n = c.passDeadline n := by
      rw [expire, if_pos (hw n List.mem_cons_self)]
    rw [List.map_cons, steps_cons, List.foldl_cons]
    change (c.expire n).steps _ = _
    rw [hn]
    apply ih _ (List.nodup_cons.1 hnd).2
    intro m hm
    have hne : n ≠ m := fun h => (List.nodup_cons.1 hnd).1 (h ▸ hm)
    rw [calls_passDeadline, List.getElem?_modify_ne _ _ hne]
    exact hw m (List.mem_cons_of_mem n hm)

theorem steps_stepsOf (c : Coordinator) (e : Event) : c.steps (c.stepsOf e) = c.handle e := by
  cases e with
  | dispatch kind =>
    change c.assign kind c.monitor.alive = _
    simp only [assign, handle, dispatchOne]
    cases c.ledger.assign? c.job c.config c.now c.monitor.alive kind with
    | error e => rfl
    | ok found => cases found <;> rfl
  | elapse ms =>
    change ({ c with now := c.now + ms } : Coordinator).steps _ = _
    exact steps_expire _ _ (overdueCalls_nodup _) fun n hn => mem_overdueCalls hn
  | _ => rfl

/-- Every history of events is a run of steps. -/
theorem after_eq_steps (c : Coordinator) (history : List Event) :
    ∃ run, c.after history = c.steps run := by
  induction history generalizing c with
  | nil => exact ⟨[], rfl⟩
  | cons e history ih =>
    obtain ⟨run, hrun⟩ := ih (c.handle e)
    refine ⟨c.stepsOf e ++ run, ?_⟩
    rw [steps_append, steps_stepsOf]
    exact hrun

/-! ## 4. An example -/

/-- A new coordinator for a job with two splits and one partition, and with two workers. -/
def pairStart : Coordinator where
  job := ⟨["a", "b"], "word_count", "sum", 1, Nat.one_pos⟩
  config := {}
  ledger := { tasks := .ofSplits ["a", "b"] }
  monitor := .ofWorkers [.loopback 1, .loopback 2]
  published := .mapping
  log := [.configured 2 1 2]

/-- The first map task is dispatched twice and completed by its first attempt, late. The reduce task is
dispatched twice too, and between its attempts the other answer to the first map task comes in. -/
def pairRun : List Step :=
  [.dispatch .map [.loopback 1], .expire 0, .dispatch .map [.loopback 1],
    .answer 0 (.ok (.records [⟨"b", "1"⟩, ⟨"a", "1"⟩])), .dispatch .map [.loopback 2],
    .answer 2 (.ok (.records [⟨"a", "2"⟩, ⟨"b", "2"⟩])), .dispatch .reduce [.loopback 2],
    .expire 3, .answer 1 (.ok (.records [⟨"c", "1"⟩])), .dispatch .reduce [.loopback 1]]

end Coordinator
end Foreman
