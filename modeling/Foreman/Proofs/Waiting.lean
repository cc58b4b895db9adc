import Mathlib.Algebra.Order.BigOperators.Group.List
import Mathlib.Algebra.Order.Ring.Nat
import Foreman.Proofs.Watches

/-!
# Watches on the clock

A watch that waits moves its clock from one thing that is due to the next. Nothing is passed over on the way, and
nothing is left over at the end. So whatever is done with a watch is a history of it, and what happens to probes
in it can be told (`Watch.Orderly.unfolds_after`).
-/

namespace Foreman
namespace Watch

/-! ## 1. What is due now -/

/-- The probes that are due now. -/
def due (w : Watch) : List Flight :=
  w.prober.flights.filter (·.ends ≤ w.now)

/-- All of them end. -/
def finishDue (w : Watch) : Watch :=
  { w with
    monitor := w.due.foldl (fun m flight => m.note w.now flight.worker flight.answered) w.monitor
    prober := { w.prober with flights := w.prober.flights.filter (w.now < ·.ends) } }

/-- What is due now is done, in so many rounds at most. -/
def rounds (w : Watch) (n : Nat) : Watch :=
  let (prober, monitor) := w.prober.catchUpRounds w.now
    (fun m flight => m.note w.now flight.worker flight.answered)
    (fun m => w.pings m.workers) n w.monitor
  { w with prober, monitor }

theorem catchUp_eq (w : Watch) : w.catchUp = w.rounds (w.prober.ticksDue w.now) :=
  rfl

theorem rounds_succ (w : Watch) (n : Nat) : w.rounds (n + 1) =
    match w.prober.loops.find? (·.next ≤ w.now) with
    | none => w.finishDue
    | some loop => (w.finishDue.beginRound loop).rounds n := by
  unfold rounds
  rw [Prober.catchUpRounds]
  simp only
  cases w.prober.loops.find? (·.next ≤ w.now) <;> rfl

/-- What happens to probes in these rounds. -/
def inRounds (w : Watch) : Nat → List Happening
  | 0 => []
  | n + 1 =>
    w.due.map (.ended w.now) ++
      match w.prober.loops.find? (·.next ≤ w.now) with
      | none => []
      | some loop =>
        w.finishDue.asks loop.source w.finishDue.monitor.workers ++ (w.finishDue.beginRound loop).inRounds n

/-- What happens to probes when all that is due now is done. -/
def inCatchUp (w : Watch) : List Happening :=
  w.inRounds (w.prober.ticksDue w.now)

section

variable {allowed : Act → Prop} {w : Watch}

-- The induction is on the probes that are due: the first of them ends, and the others are due as before.
theorem unfolds_finishDue : Unfolds allowed w (w.due.map (.ended w.now)) w.finishDue := by
  generalize hdue : w.due = due
  induction due generalizing w with
  | nil =>
    have hlater : w.prober.flights.filter (w.now < ·.ends) = w.prober.flights := by
      apply List.filter_eq_self.2
      intro f hf
      have := List.filter_eq_nil_iff.1 hdue f hf
      simpa using this
    have heq : w.finishDue = w := by
      unfold finishDue
      rw [hdue, hlater]
      rfl
    rw [heq]
    exact .start
  | cons f due ih =>
    have hmem : f ∈ w.due := hdue ▸ List.mem_cons_self
    obtain ⟨hf, hends⟩ := List.mem_filter.1 hmem
    simp only [decide_eq_true_eq] at hends
    have hrest : (w.finish f).due = due := by
      show (w.prober.flights.erase f).filter _ = due
      rw [← List.erase_filter]
      show w.due.erase f = due
      rw [hdue, List.erase_cons_head]
    have hlater : (w.finish f).prober.flights.filter ((w.finish f).now < ·.ends) =
        w.prober.flights.filter (w.now < ·.ends) := by
      show (w.prober.flights.erase f).filter (w.now < ·.ends) = _
      rw [← List.erase_filter, List.erase_of_not_mem]
      simp [hends]
    have heq : (w.finish f).finishDue = w.finishDue := by
      unfold finishDue
      rw [hrest, hlater, hdue]
      rfl
    rw [← heq]
    exact (Unfolds.start.ends hf hends).trans (ih hrest)

theorem Orderly.finishDue (h : w.Orderly) : w.finishDue.Orderly :=
  have hpast : Unfolds (fun _ => True) w _ w.finishDue := unfolds_finishDue
  h.unfolds hpast

theorem Orderly.not_waiting {loop : ProbeLoop} (h : w.Orderly) (hloop : loop ∈ w.prober.loops)
    (hdue : loop.next ≤ w.now) : w.finishDue.prober.isWaiting loop.source = false := by
  rw [Prober.isWaiting_eq_false_iff]
  intro f hf hsource
  obtain ⟨hf, hlater⟩ := List.mem_filter.1 hf
  have hends := h.within loop hloop f hf hsource
  simp only [decide_eq_true_eq] at hlater
  lia

theorem Orderly.unfolds_rounds (h : w.Orderly) (n : Nat) :
    Unfolds allowed w (w.inRounds n) (w.rounds n) := by
  induction n generalizing w with
  | zero => exact .start
  | succ n ih =>
    rw [rounds_succ, inRounds]
    split
    · rw [List.append_nil]
      exact unfolds_finishDue
    · rename_i loop hfind
      have hloop : loop ∈ w.prober.loops := List.mem_of_find?_eq_some hfind
      have hdue : loop.next ≤ w.now := by simpa using List.find?_some hfind
      have hover := h.not_waiting hloop hdue
      rw [← List.append_assoc]
      exact (unfolds_finishDue.round hloop hdue hover).trans (ih (h.finishDue.beginRound hloop hover))

end

/-- The number of ticks that can be due by now. -/
def dueTicks (w : Watch) : Nat :=
  (w.prober.loops.map fun l => w.now + 1 - l.tick).sum

theorem ticksDue_eq (w : Watch) : w.prober.ticksDue w.now = w.dueTicks + 1 := by
  unfold Prober.ticksDue dueTicks
  induction w.prober.loops with
  | nil => rfl
  | cons l loops ih =>
    rw [List.map_cons, List.foldr_cons, ih, List.sum_cons, Nat.add_assoc]

section

variable {w : Watch} (h : w.Orderly)

include h

-- A round uses up a tick of its loop.
theorem Orderly.dueTicks_beginRound {loop : ProbeLoop} (hloop : loop ∈ w.prober.loops)
    (hdue : loop.next ≤ w.now) : (w.beginRound loop).dueTicks < w.dueTicks := by
  have htick := h.tick loop hloop
  have hinterval := h.interval loop hloop
  unfold dueTicks
  rw [loops_beginRound, List.map_map]
  apply List.sum_lt_sum
  · intro l hl
    show w.now + 1 - (if l.source = loop.source then _ else l : ProbeLoop).tick ≤ w.now + 1 - l.tick
    split
    · rename_i hsource
      have heq : l = loop := List.inj_on_of_nodup_map h.sources hl hloop hsource
      rw [heq]
      show w.now + 1 - (loop.tick + loop.interval) ≤ w.now + 1 - loop.tick
      lia
    · exact Nat.le_refl _
  · refine ⟨loop, hloop, ?_⟩
    show w.now + 1 - (if loop.source = loop.source then _ else loop : ProbeLoop).tick < w.now + 1 - loop.tick
    rw [if_pos rfl]
    show w.now + 1 - (loop.tick + loop.interval) < w.now + 1 - loop.tick
    lia

theorem Orderly.rests_rounds {n : Nat} (hn : w.dueTicks < n) : (w.rounds n).Rests := by
  induction n generalizing w with
  | zero => lia
  | succ n ih =>
    rw [rounds_succ]
    split
    · rename_i hfind
      constructor
      · intro f hf
        exact of_decide_eq_true (List.mem_filter.1 hf).2
      · intro l hl
        have hlater := List.find?_eq_none.1 hfind l hl
        exact Nat.lt_of_not_le fun hle => hlater (decide_eq_true hle)
    · rename_i loop hfind
      have hloop : loop ∈ w.prober.loops := List.mem_of_find?_eq_some hfind
      have hdue : loop.next ≤ w.now := by simpa using List.find?_some hfind
      apply ih (h.finishDue.beginRound hloop (h.not_waiting hloop hdue))
      have hless : (w.finishDue.beginRound loop).dueTicks < w.dueTicks :=
        h.finishDue.dueTicks_beginRound hloop hdue
      lia

theorem Orderly.unfolds_catchUp (allowed : Act → Prop) : Unfolds allowed w w.inCatchUp w.catchUp := by
  rw [catchUp_eq]
  exact h.unfolds_rounds _

theorem Orderly.rests_catchUp : w.catchUp.Rests := by
  rw [catchUp_eq, ticksDue_eq]
  exact h.rests_rounds (Nat.lt_succ_self _)

end

/-! ## 2. Waiting -/

theorem unfolds_later {allowed : Act → Prop} {w : Watch} {n : Nat}
    (hflights : ∀ f ∈ w.prober.flights, w.now + n ≤ f.ends)
    (hloops : ∀ l ∈ w.prober.loops, w.now + n ≤ l.next) :
    Unfolds allowed w [] { w with now := w.now + n } := by
  induction n with
  | zero => exact .start
  | succ n ih =>
    have hpast := ih (fun f hf => (Nat.le_succ _).trans (hflights f hf))
      fun l hl => (Nat.le_succ _).trans (hloops l hl)
    exact hpast.passes ⟨hflights, hloops⟩

theorem nextDue_le (w : Watch) (limit : Time) :
    (∀ f ∈ w.prober.flights, w.prober.nextDue.getD limit ≤ f.ends) ∧
      ∀ l ∈ w.prober.loops, w.prober.nextDue.getD limit ≤ l.next := by
  have hle : ∀ t ∈ w.prober.flights.map Flight.ends ++ w.prober.loops.map ProbeLoop.next,
      w.prober.nextDue.getD limit ≤ t := by
    intro t ht
    cases hmin : w.prober.nextDue with
    | none =>
      rw [Prober.nextDue, List.min?_eq_none_iff] at hmin
      rw [hmin] at ht
      cases ht
    | some m => exact (List.min?_eq_some_iff.1 hmin).2 t ht
  constructor
  · intro f hf
    exact hle _ (List.mem_append_left _ (List.mem_map_of_mem hf))
  · intro l hl
    exact hle _ (List.mem_append_right _ (List.mem_map_of_mem hl))

/-- The moment to which the clock moves from a moment at which nothing is due: that of what is due next, or the
limit if this comes first. -/
def nextStop (w : Watch) (limit : Time) : Time :=
  min limit (max (w.now + 1) (w.prober.nextDue.getD limit))

theorem advanceSteps_succ (limit : Time) (steps : Nat) (w : Watch) : advanceSteps limit (steps + 1) w =
    if limit ≤ w.now then w.catchUp
    else advanceSteps limit steps { w.catchUp with now := w.catchUp.nextStop limit } :=
  rfl

/-- What happens to probes until the limit. -/
def inSteps (limit : Time) : Nat → Watch → List Happening
  | 0, w => w.inCatchUp
  | steps + 1, w =>
    w.inCatchUp ++
      if limit ≤ w.now then [] else inSteps limit steps { w.catchUp with now := w.catchUp.nextStop limit }

/-- What happens to probes until the given moment. -/
def inAdvance (w : Watch) (limit : Time) : List Happening :=
  inSteps limit (limit - w.now) w

-- The clock does not move past anything that is due.
theorem Rests.unfolds_nextStop {allowed : Act → Prop} {w : Watch} (h : w.Rests) {limit : Time}
    (hlimit : w.now < limit) : Unfolds allowed w [] { w with now := w.nextStop limit } := by
  obtain ⟨hflights, hloops⟩ := w.nextDue_le limit
  have hstop : w.now + (w.nextStop limit - w.now) = w.nextStop limit := by
    unfold nextStop
    lia
  rw [← hstop]
  apply unfolds_later
  · intro f hf
    have hdue := hflights f hf
    have hlater := h.1 f hf
    unfold nextStop
    lia
  · intro l hl
    have hdue := hloops l hl
    have hlater := h.2 l hl
    unfold nextStop
    lia

section

variable {w : Watch} (h : w.Orderly)

include h

theorem Orderly.advanceSteps (allowed : Act → Prop) {limit : Time} {steps : Nat}
    (hlimit : limit - w.now ≤ steps) :
    Unfolds allowed w (inSteps limit steps w) (advanceSteps limit steps w) ∧
      (advanceSteps limit steps w).Rests ∧ (advanceSteps limit steps w).now = max w.now limit := by
  induction steps generalizing w with
  | zero =>
    refine ⟨h.unfolds_catchUp allowed, h.rests_catchUp, ?_⟩
    show w.now = max w.now limit
    lia
  | succ steps ih =>
    have hpast := h.unfolds_catchUp allowed
    have hrests := h.rests_catchUp
    rw [advanceSteps_succ, inSteps]
    split
    · rw [List.append_nil]
      refine ⟨hpast, hrests, ?_⟩
      show w.now = max w.now limit
      lia
    · rename_i hmore
      have hlater : w.catchUp.now < limit := Nat.lt_of_not_le hmore
      have hstop := hpast.trans (hrests.unfolds_nextStop hlater)
      rw [List.append_nil] at hstop
      have hnext : w.now < w.catchUp.nextStop limit ∧ w.catchUp.nextStop limit ≤ limit := by
        show w.catchUp.now < _ ∧ _
        unfold nextStop
        lia
      obtain ⟨hrest, hrests', hnow⟩ := ih (h.unfolds hstop) (by lia)
      refine ⟨hstop.trans hrest, hrests', ?_⟩
      rw [hnow]
      show max (w.catchUp.nextStop limit) limit = max w.now limit
      lia

theorem Orderly.unfolds_advanceTo (allowed : Act → Prop) (limit : Time) :
    Unfolds allowed w (w.inAdvance limit) (w.advanceTo limit) :=
  (h.advanceSteps allowed (Nat.le_refl _)).1

theorem Orderly.rests_advanceTo (limit : Time) : (w.advanceTo limit).Rests :=
  (h.advanceSteps (fun _ => True) (Nat.le_refl _)).2.1

theorem Orderly.now_advanceTo (limit : Time) : (w.advanceTo limit).now = max w.now limit :=
  (h.advanceSteps (fun _ => True) (Nat.le_refl _)).2.2

end

/-! ## 3. Operations -/

/-- What can be done with a watch, waiting for it included. -/
inductive Op
  | act (a : Act)
  | wait (ms : Time)
  | probeOne (worker : Address)
  | probeKnown
  | runLoop (ms : Time)

def perform (w : Watch) : Op → Watch
  | .act a => w.act a
  | .wait ms => w.advance ms
  | .probeOne worker => (w.probeOne worker).2
  | .probeKnown => w.probeKnown
  | .runLoop ms => (w.runLoop ms).2

theorem probeEach_eq (w : Watch) (workers : List Address) : w.probeEach workers =
    (w.act (.probe workers)).advanceTo (w.prober.roundEnd w.now (w.pings workers)) :=
  rfl

theorem runLoop_eq (w : Watch) (ms : Time) : (w.runLoop ms).2 =
    if w.interval = 0 then w.advance ms
    else ((w.act .startLoop).advance ms).act (.stop w.prober.sources) := by
  show (w.runLoop ms).2 = if w.interval = 0 then _ else (w.startLoop.2.advance ms).stopLoop w.prober.sources
  unfold runLoop
  by_cases h : w.interval = 0
  · rw [startLoop_of_eq_zero h, if_pos h]
  · rw [startLoop_of_ne_zero h, if_neg h]

/-- What happens while some workers are probed at once. -/
def inProbeEach (w : Watch) (workers : List Address) : List Happening :=
  w.happens (.probe workers) ++
    (w.act (.probe workers)).inAdvance (w.prober.roundEnd w.now (w.pings workers))

/-- What happens to probes while an operation is performed. -/
def inOp (w : Watch) : Op → List Happening
  | .act a => w.happens a
  | .wait ms => w.inAdvance (w.now + ms)
  | .probeOne worker => w.inProbeEach [worker]
  | .probeKnown => w.inProbeEach w.monitor.workers
  | .runLoop ms =>
    if w.interval = 0 then w.inAdvance (w.now + ms)
    else
      let loop := w.act .startLoop
      loop.inAdvance (loop.now + ms) ++ (loop.advance ms).happens (.stop w.prober.sources)

/-- The watch after some operations. -/
def after (w : Watch) (ops : List Op) : Watch :=
  ops.foldl perform w

theorem after_append (w : Watch) (ops more : List Op) : w.after (ops ++ more) = (w.after ops).after more :=
  List.foldl_append

/-- What happens to probes while they are performed. -/
def trace (w : Watch) : List Op → List Happening
  | [] => []
  | op :: ops => w.inOp op ++ (w.perform op).trace ops

/-- Whether an operation does nothing from outside that is not allowed. -/
def Op.Allowed (allowed : Act → Prop) : Op → Prop
  | .act a => allowed a
  | .wait _ => True
  | .probeOne worker => allowed (.probe [worker])
  | .probeKnown => ∀ workers, allowed (.probe workers)
  | .runLoop _ => allowed .startLoop ∧ ∀ source, allowed (.stop source)

theorem unfolds_act {allowed : Act → Prop} (w : Watch) {a : Act} (ha : allowed a) :
    Unfolds allowed w (w.happens a) (w.act a) :=
  Unfolds.start.acts ha

section

variable {w : Watch} (h : w.Orderly) {allowed : Act → Prop}

include h

theorem Orderly.unfolds_probeEach {workers : List Address} (ha : allowed (.probe workers)) :
    Unfolds allowed w (w.inProbeEach workers) (w.probeEach workers) := by
  rw [probeEach_eq]
  exact (w.unfolds_act ha).trans ((h.act _).unfolds_advanceTo allowed _)

theorem Orderly.unfolds_perform {op : Op} (hop : op.Allowed allowed) :
    Unfolds allowed w (w.inOp op) (w.perform op) := by
  cases op with
  | act a => exact w.unfolds_act hop
  | wait ms => exact h.unfolds_advanceTo allowed _
  | probeOne worker => exact h.unfolds_probeEach hop
  | probeKnown => exact h.unfolds_probeEach (hop _)
  | runLoop ms =>
    obtain ⟨hstart, hstop⟩ := hop
    show Unfolds allowed w (w.inOp (.runLoop ms)) (w.runLoop ms).2
    rw [runLoop_eq, inOp]
    split
    · exact h.unfolds_advanceTo allowed _
    · have hwait := (h.act .startLoop).unfolds_advanceTo allowed ((w.act .startLoop).now + ms)
      exact ((w.unfolds_act hstart).trans hwait).trans (unfolds_act _ (hstop w.prober.sources))

/-- Whatever is done with a watch is a history. -/
theorem Orderly.unfolds_after {ops : List Op} (hops : ∀ op ∈ ops, op.Allowed allowed) :
    Unfolds allowed w (w.trace ops) (w.after ops) := by
  induction ops generalizing w with
  | nil => exact .start
  | cons op ops ih =>
    have hop := h.unfolds_perform (hops op List.mem_cons_self)
    exact hop.trans (ih (h.unfolds hop) fun o ho => hops o (List.mem_cons_of_mem op ho))

theorem Orderly.unfolds_after_of_all (ops : List Op) :
    Unfolds (fun _ => True) w (w.trace ops) (w.after ops) := by
  apply h.unfolds_after
  intro op _
  cases op <;> simp [Op.Allowed]

end

end Watch
end Foreman
