import Mathlib.Data.List.Nodup
import Foreman.Liveness.Watch

/-!
# What happens to probes

A watch that is left to itself ends the probes that are due, one after the other, begins the rounds of its loops,
and lets time pass when nothing is due. From outside, pings can be scripted, probes and loops begun, and both
stopped, at any moment. All of this together, in whatever order things of one moment happen, is a history of the
watch, with a record of what happens to probes (`Watch.Unfolds`).
-/

namespace Foreman

/-- What is done with a watch from outside. Probes that are begun are not waited for. -/
inductive Watch.Act
  | setPing (worker : Address) (fate : PingFate)
  | probe (workers : List Address)
  | startLoop
  | stop (source : Nat)

/-- What happens to a probe. -/
inductive Happening
  /-- A ping is sent for a source, and this will become of it. -/
  | asked (time : Time) (source : Nat) (worker : Address) (fate : PingFate)
  /-- A probe runs to its end, and its outcome is recorded. -/
  | ended (time : Time) (flight : Flight)
  /-- A probe is given up, because its source is stopped. -/
  | givenUp (flight : Flight)
deriving DecidableEq, Repr

/-! ## 1. Probes that begin -/

namespace Prober

variable (p : Prober) (now : Time) (source : Nat)

theorem launch_eq (pings : List (Address × PingFate)) :
    (p.launch now source pings).flights =
        p.flights ++ pings.map (fun ping => p.flight now source ping.1 ping.2) ∧
      (p.launch now source pings).timeout = p.timeout ∧
      (p.launch now source pings).loops = p.loops ∧
      (p.launch now source pings).sources = p.sources := by
  induction pings generalizing p with
  | nil => simp [launch]
  | cons ping pings ih =>
    obtain ⟨hflights, htimeout, hloops, hsources⟩ :=
      ih { p.countPing ping.1 with flights := p.flights ++ [p.flight now source ping.1 ping.2] }
    refine ⟨?_, htimeout, hloops, hsources⟩
    show (launch { p.countPing ping.1 with
      flights := p.flights ++ [p.flight now source ping.1 ping.2] } now source pings).flights = _
    rw [hflights, List.map_cons, List.append_assoc]
    rfl

theorem flights_launch (pings : List (Address × PingFate)) : (p.launch now source pings).flights =
    p.flights ++ pings.map fun ping => p.flight now source ping.1 ping.2 :=
  (p.launch_eq now source pings).1

@[simp] theorem timeout_launch (pings : List (Address × PingFate)) :
    (p.launch now source pings).timeout = p.timeout :=
  (p.launch_eq now source pings).2.1

@[simp] theorem loops_launch (pings : List (Address × PingFate)) :
    (p.launch now source pings).loops = p.loops :=
  (p.launch_eq now source pings).2.2.1

@[simp] theorem sources_launch (pings : List (Address × PingFate)) :
    (p.launch now source pings).sources = p.sources :=
  (p.launch_eq now source pings).2.2.2

variable {p now} in
-- A round ends with the last of its probes.
theorem roundEnd_le_iff {pings : List (Address × PingFate)} {t : Time} :
    p.roundEnd now pings ≤ t ↔ now ≤ t ∧ ∀ ping ∈ pings, now + ping.2.duration p.timeout ≤ t := by
  have hfold : ∀ start, pings.foldl (fun t ping => max t (now + ping.2.duration p.timeout)) start ≤ t ↔
      start ≤ t ∧ ∀ ping ∈ pings, now + ping.2.duration p.timeout ≤ t := by
    induction pings with
    | nil => simp
    | cons ping pings ih =>
      intro start
      rw [List.foldl_cons, ih, List.forall_mem_cons, ← and_assoc, Nat.max_le]
  exact hfold now

theorem isWaiting_eq_false_iff {p : Prober} {source : Nat} :
    p.isWaiting source = false ↔ ∀ f ∈ p.flights, f.source ≠ source := by
  simp [isWaiting]

-- If no other source has probes, none are left.
theorem flights_eq_nil_of_not_waiting {p : Prober} {source : Nat} (h : p.isWaiting source = false)
    (hall : ∀ f ∈ p.flights, f.source = source) : p.flights = [] := by
  apply List.eq_nil_iff_forall_not_mem.2
  exact fun f hf => isWaiting_eq_false_iff.1 h f hf (hall f hf)

end Prober

theorem PingFate.duration_le (timeout : Time) (fate : PingFate) : fate.duration timeout ≤ timeout := by
  cases fate with
  | answers after => exact Nat.min_le_right _ _
  | fails after => exact Nat.min_le_right _ _
  | silent => exact Nat.le_refl _

/-! ## 2. Histories -/

namespace Watch

/-- Pings that are sent now for a source. -/
def asks (w : Watch) (source : Nat) (workers : List Address) : List Happening :=
  workers.map fun worker => .asked w.now source worker (w.fate worker)

/-- The watch after something has been done with it. -/
def act (w : Watch) : Act → Watch
  | .setPing worker fate => w.setPing worker fate
  | .probe workers =>
    let (source, prober) := w.prober.freshSource
    { w with prober := prober.launch w.now source (w.pings workers) }
  | .startLoop => w.startLoop.2
  | .stop source => w.stopLoop source

/-- What happens to probes by it. -/
def happens (w : Watch) : Act → List Happening
  | .probe workers => w.asks w.prober.sources workers
  | .stop source => (w.prober.flights.filter (·.source = source)).map .givenUp
  | _ => []

/-- Nothing is done but to script pings. -/
def IsScripting : Act → Prop
  | .setPing .. => True
  | _ => False

theorem IsScripting.ne_stop {a : Act} {source : Nat} (ha : IsScripting a) : a ≠ .stop source := by
  rintro rfl
  exact ha

/-- A probe ends now. -/
def finish (w : Watch) (f : Flight) : Watch :=
  { w with
    monitor := w.monitor.note w.now f.worker f.answered
    prober := { w.prober with flights := w.prober.flights.erase f } }

/-- A round of a loop begins now. -/
def beginRound (w : Watch) (loop : ProbeLoop) : Watch :=
  { w with prober := w.prober.beginRound w.now loop (w.pings w.monitor.workers) }

/-- Nothing is due now. -/
def Rests (w : Watch) : Prop :=
  (∀ f ∈ w.prober.flights, w.now < f.ends) ∧ ∀ l ∈ w.prober.loops, w.now < l.next

/-- The watch becomes another one, and this happens to probes on the way. Things that are due at one moment
happen in any order, but a round begins only after the round before it; time passes when nothing is due. -/
inductive Unfolds (allowed : Act → Prop) (w₀ : Watch) : List Happening → Watch → Prop
  | start : Unfolds allowed w₀ [] w₀
  | ends {past : List Happening} {w : Watch} (h : Unfolds allowed w₀ past w) {f : Flight}
      (hf : f ∈ w.prober.flights) (hdue : f.ends ≤ w.now) :
      Unfolds allowed w₀ (past ++ [.ended w.now f]) (w.finish f)
  | round {past : List Happening} {w : Watch} (h : Unfolds allowed w₀ past w) {loop : ProbeLoop}
      (hloop : loop ∈ w.prober.loops) (hdue : loop.next ≤ w.now)
      (hover : w.prober.isWaiting loop.source = false) :
      Unfolds allowed w₀ (past ++ w.asks loop.source w.monitor.workers) (w.beginRound loop)
  | passes {past : List Happening} {w : Watch} (h : Unfolds allowed w₀ past w) (hrests : w.Rests) :
      Unfolds allowed w₀ past { w with now := w.now + 1 }
  | acts {past : List Happening} {w : Watch} (h : Unfolds allowed w₀ past w) {a : Act} (ha : allowed a) :
      Unfolds allowed w₀ (past ++ w.happens a) (w.act a)

section

variable {allowed : Act → Prop} {w₀ w w' : Watch} {past more : List Happening}

theorem Unfolds.trans (h : Unfolds allowed w₀ past w) (h' : Unfolds allowed w more w') :
    Unfolds allowed w₀ (past ++ more) w' := by
  induction h' with
  | start => rwa [List.append_nil]
  | ends _ hf hdue ih =>
    rw [← List.append_assoc]
    exact ih.ends hf hdue
  | round _ hloop hdue hover ih =>
    rw [← List.append_assoc]
    exact ih.round hloop hdue hover
  | passes _ hrests ih => exact ih.passes hrests
  | acts _ ha ih =>
    rw [← List.append_assoc]
    exact ih.acts ha

theorem Unfolds.mono {allowed' : Act → Prop} (h : Unfolds allowed w₀ past w)
    (hmore : ∀ a, allowed a → allowed' a) : Unfolds allowed' w₀ past w := by
  induction h with
  | start => exact .start
  | ends _ hf hdue ih => exact ih.ends hf hdue
  | round _ hloop hdue hover ih => exact ih.round hloop hdue hover
  | passes _ hrests ih => exact ih.passes hrests
  | acts _ ha ih => exact ih.acts (hmore _ ha)

end

/-! ## 3. What is kept -/

@[simp] theorem flights_beginRound (w : Watch) (loop : ProbeLoop) : (w.beginRound loop).prober.flights =
    w.prober.flights ++ w.monitor.workers.map fun worker =>
      w.prober.flight w.now loop.source worker (w.fate worker) := by
  show (w.prober.launch w.now loop.source (w.pings w.monitor.workers)).flights = _
  rw [Prober.flights_launch, pings, List.map_map]
  rfl

theorem loops_beginRound (w : Watch) (loop : ProbeLoop) : (w.beginRound loop).prober.loops =
    w.prober.loops.map fun l => if l.source = loop.source then
      { l with
        tick := loop.tick + loop.interval
        next := max (loop.tick + loop.interval) (w.prober.roundEnd w.now (w.pings w.monitor.workers)) }
      else l := by
  show (w.prober.launch w.now loop.source (w.pings w.monitor.workers)).loops.map _ = _
  rw [Prober.loops_launch]

@[simp] theorem timeout_beginRound (w : Watch) (loop : ProbeLoop) :
    (w.beginRound loop).prober.timeout = w.prober.timeout :=
  Prober.timeout_launch ..

@[simp] theorem sources_beginRound (w : Watch) (loop : ProbeLoop) :
    (w.beginRound loop).prober.sources = w.prober.sources :=
  Prober.sources_launch ..

-- A loop without an interval is not started.
theorem startLoop_of_eq_zero {w : Watch} (h : w.interval = 0) : w.startLoop = (none, w) := by
  simp only [startLoop, Prober.startLoop, if_pos h]

theorem startLoop_of_ne_zero {w : Watch} (h : w.interval ≠ 0) : w.startLoop =
    (some w.prober.sources, { w with prober := { w.prober with
      sources := w.prober.sources + 1
      loops := w.prober.loops ++ [⟨w.prober.sources, w.interval, w.now, w.now⟩] } }) := by
  simp only [startLoop, Prober.startLoop, Prober.freshSource, if_neg h]

theorem flights_startLoop (w : Watch) : (w.act .startLoop).prober.flights = w.prober.flights := by
  show w.startLoop.2.prober.flights = _
  by_cases h : w.interval = 0
  · rw [startLoop_of_eq_zero h]
  · rw [startLoop_of_ne_zero h]

theorem flights_probe (w : Watch) (workers : List Address) : (w.act (.probe workers)).prober.flights =
    w.prober.flights ++ workers.map fun worker =>
      w.prober.flight w.now w.prober.sources worker (w.fate worker) := by
  show (w.prober.freshSource.2.launch w.now w.prober.sources (w.pings workers)).flights = _
  rw [Prober.flights_launch, pings, List.map_map]
  rfl

theorem loops_probe (w : Watch) (workers : List Address) :
    (w.act (.probe workers)).prober.loops = w.prober.loops :=
  Prober.loops_launch ..

theorem sources_probe (w : Watch) (workers : List Address) :
    (w.act (.probe workers)).prober.sources = w.prober.sources + 1 :=
  Prober.sources_launch ..

theorem act_eq (w : Watch) (a : Act) : (w.act a).now = w.now ∧ (w.act a).monitor = w.monitor ∧
    (w.act a).prober.timeout = w.prober.timeout := by
  cases a with
  | probe workers => exact ⟨rfl, rfl, Prober.timeout_launch ..⟩
  | startLoop =>
    show w.startLoop.2.now = _ ∧ w.startLoop.2.monitor = _ ∧ w.startLoop.2.prober.timeout = _
    by_cases h : w.interval = 0
    · rw [startLoop_of_eq_zero h]
      exact ⟨rfl, rfl, rfl⟩
    · rw [startLoop_of_ne_zero h]
      exact ⟨rfl, rfl, rfl⟩
  | setPing | stop => exact ⟨rfl, rfl, rfl⟩

theorem Unfolds.timeout_eq {allowed : Act → Prop} {w₀ w : Watch} {past : List Happening}
    (h : Unfolds allowed w₀ past w) : w.prober.timeout = w₀.prober.timeout := by
  induction h with
  | start => rfl
  | ends _ _ _ ih => exact ih
  | round _ _ _ _ ih => rw [timeout_beginRound, ih]
  | passes _ _ ih => exact ih
  | acts _ _ ih => rw [(act_eq _ _).2.2, ih]

/-- Sources have names of their own, no probe is overdue, and the probes of a loop end before its next round,
which begins with a tick or later. -/
structure Orderly (w : Watch) : Prop where
  interval : ∀ l ∈ w.prober.loops, 0 < l.interval
  tick : ∀ l ∈ w.prober.loops, l.tick ≤ l.next
  sources : (w.prober.loops.map ProbeLoop.source).Nodup
  freshLoop : ∀ l ∈ w.prober.loops, l.source < w.prober.sources
  freshFlight : ∀ f ∈ w.prober.flights, f.source < w.prober.sources
  inTime : ∀ f ∈ w.prober.flights, w.now ≤ f.ends
  within : ∀ l ∈ w.prober.loops, ∀ f ∈ w.prober.flights, f.source = l.source → f.ends ≤ l.next

/-- No probe is under way, and no loop is running. -/
structure IsIdle (w : Watch) : Prop where
  flights : w.prober.flights = []
  loops : w.prober.loops = []

theorem IsIdle.orderly {w : Watch} (h : w.IsIdle) : w.Orderly := by
  constructor <;> simp [h.flights, h.loops]

section

variable {w : Watch} (h : w.Orderly)

include h

theorem Orderly.finish (f : Flight) : (w.finish f).Orderly where
  interval := h.interval
  tick := h.tick
  sources := h.sources
  freshLoop := h.freshLoop
  freshFlight g hg := h.freshFlight g (List.mem_of_mem_erase hg)
  inTime g hg := h.inTime g (List.mem_of_mem_erase hg)
  within l hl g hg := h.within l hl g (List.mem_of_mem_erase hg)

theorem Orderly.mem_loops_beginRound {loop l : ProbeLoop} (hl : l ∈ (w.beginRound loop).prober.loops)
    (hloop : loop ∈ w.prober.loops) :
    (l ∈ w.prober.loops ∧ l.source ≠ loop.source) ∨
      l = { loop with
        tick := loop.tick + loop.interval
        next := max (loop.tick + loop.interval) (w.prober.roundEnd w.now (w.pings w.monitor.workers)) } := by
  rw [loops_beginRound, List.mem_map] at hl
  obtain ⟨l, hl, rfl⟩ := hl
  by_cases hsource : l.source = loop.source
  · have heq : l = loop := List.inj_on_of_nodup_map h.sources hl hloop hsource
    subst heq
    simp
  · simp [hsource, hl]

theorem Orderly.beginRound {loop : ProbeLoop} (hloop : loop ∈ w.prober.loops)
    (hover : w.prober.isWaiting loop.source = false) : (w.beginRound loop).Orderly := by
  have hloops := fun l (hl : l ∈ (w.beginRound loop).prober.loops) => h.mem_loops_beginRound hl hloop
  have hends : ∀ worker ∈ w.monitor.workers, w.now + (w.fate worker).duration w.prober.timeout ≤
      w.prober.roundEnd w.now (w.pings w.monitor.workers) := by
    intro worker hworker
    have hping : (worker, w.fate worker) ∈ w.pings w.monitor.workers := List.mem_map_of_mem hworker
    exact (Prober.roundEnd_le_iff.1 (Nat.le_refl _)).2 _ hping
  constructor
  · intro l hl
    rcases hloops l hl with ⟨hl, -⟩ | rfl
    · exact h.interval l hl
    · exact h.interval loop hloop
  · intro l hl
    rcases hloops l hl with ⟨hl, -⟩ | rfl
    · exact h.tick l hl
    · exact Nat.le_max_left _ _
  · have hsame : (w.beginRound loop).prober.loops.map ProbeLoop.source =
        w.prober.loops.map ProbeLoop.source := by
      rw [loops_beginRound, List.map_map]
      apply List.map_congr_left
      intro l _
      simp only [Function.comp_apply]
      split <;> rfl
    rw [hsame]
    exact h.sources
  · intro l hl
    rw [sources_beginRound]
    rcases hloops l hl with ⟨hl, -⟩ | rfl
    · exact h.freshLoop l hl
    · exact h.freshLoop loop hloop
  · intro f hf
    rw [flights_beginRound, List.mem_append, List.mem_map] at hf
    rw [sources_beginRound]
    rcases hf with hf | ⟨worker, -, rfl⟩
    · exact h.freshFlight f hf
    · exact h.freshLoop loop hloop
  · intro f hf
    rw [flights_beginRound, List.mem_append, List.mem_map] at hf
    rcases hf with hf | ⟨worker, -, rfl⟩
    · exact h.inTime f hf
    · exact Nat.le_add_right _ _
  · intro l hl f hf hsource
    rw [flights_beginRound, List.mem_append, List.mem_map] at hf
    rcases hloops l hl with ⟨hl, hne⟩ | rfl
    · rcases hf with hf | ⟨worker, -, rfl⟩
      · exact h.within l hl f hf hsource
      · exact absurd hsource.symm hne
    · rcases hf with hf | ⟨worker, hworker, rfl⟩
      · -- No probe of the round before is left.
        exact absurd hsource (Prober.isWaiting_eq_false_iff.1 hover f hf)
      · exact Nat.le_trans (hends worker hworker) (Nat.le_max_right _ _)

theorem Orderly.passes (hrests : w.Rests) : Orderly { w with now := w.now + 1 } :=
  { h with inTime := hrests.1 }

theorem Orderly.probe (workers : List Address) : (w.act (.probe workers)).Orderly := by
  have hflights : ∀ f ∈ (w.act (.probe workers)).prober.flights,
      f ∈ w.prober.flights ∨ (f.source = w.prober.sources ∧ w.now ≤ f.ends) := by
    intro f hf
    rw [flights_probe, List.mem_append, List.mem_map] at hf
    rcases hf with hf | ⟨worker, -, rfl⟩
    · exact .inl hf
    · exact .inr ⟨rfl, Nat.le_add_right _ _⟩
  constructor
  · rw [loops_probe]
    exact h.interval
  · rw [loops_probe]
    exact h.tick
  · rw [loops_probe]
    exact h.sources
  · rw [loops_probe, sources_probe]
    exact fun l hl => Nat.lt_succ_of_lt (h.freshLoop l hl)
  · rw [sources_probe]
    intro f hf
    rcases hflights f hf with hf | ⟨hsource, -⟩
    · exact Nat.lt_succ_of_lt (h.freshFlight f hf)
    · omega
  · intro f hf
    rcases hflights f hf with hf | ⟨-, hends⟩
    · exact h.inTime f hf
    · exact hends
  · rw [loops_probe]
    intro l hl f hf hsame
    rcases hflights f hf with hf | ⟨hsource, -⟩
    · exact h.within l hl f hf hsame
    · -- No loop has the new source.
      have := h.freshLoop l hl
      omega

theorem Orderly.startLoop : (w.act .startLoop).Orderly := by
  show w.startLoop.2.Orderly
  by_cases hinterval : w.interval = 0
  · rw [startLoop_of_eq_zero hinterval]
    exact h
  rw [startLoop_of_ne_zero hinterval]
  have hloops : ∀ l ∈ w.prober.loops ++ [⟨w.prober.sources, w.interval, w.now, w.now⟩],
      l ∈ w.prober.loops ∨ l = ⟨w.prober.sources, w.interval, w.now, w.now⟩ := by
    intro l hl
    simpa using hl
  constructor
  · intro l hl
    rcases hloops l hl with hl | rfl
    · exact h.interval l hl
    · exact Nat.pos_of_ne_zero hinterval
  · intro l hl
    rcases hloops l hl with hl | rfl
    · exact h.tick l hl
    · exact Nat.le_refl _
  · show ((w.prober.loops ++ [_]).map ProbeLoop.source).Nodup
    rw [List.map_append, List.nodup_append]
    refine ⟨h.sources, by simp, ?_⟩
    intro source hsource source' hsource' heq
    obtain ⟨l, hl, rfl⟩ := List.mem_map.1 hsource
    have := h.freshLoop l hl
    simp at hsource'
    omega
  · intro l hl
    rcases hloops l hl with hl | rfl
    · exact Nat.lt_succ_of_lt (h.freshLoop l hl)
    · exact Nat.lt_succ_self _
  · exact fun f hf => Nat.lt_succ_of_lt (h.freshFlight f hf)
  · exact h.inTime
  · intro l hl f hf hsame
    rcases hloops l hl with hl | rfl
    · exact h.within l hl f hf hsame
    · have := h.freshFlight f hf
      simp at hsame
      omega

theorem Orderly.stop (source : Nat) : (w.act (.stop source)).Orderly where
  interval l hl := h.interval l (List.mem_filter.1 hl).1
  tick l hl := h.tick l (List.mem_filter.1 hl).1
  sources := h.sources.sublist (List.filter_sublist.map _)
  freshLoop l hl := h.freshLoop l (List.mem_filter.1 hl).1
  freshFlight f hf := h.freshFlight f (List.mem_filter.1 hf).1
  inTime f hf := h.inTime f (List.mem_filter.1 hf).1
  within l hl f hf := h.within l (List.mem_filter.1 hl).1 f (List.mem_filter.1 hf).1

theorem Orderly.act (a : Act) : (w.act a).Orderly := by
  cases a with
  | setPing worker fate =>
    exact ⟨h.interval, h.tick, h.sources, h.freshLoop, h.freshFlight, h.inTime, h.within⟩
  | probe workers => exact h.probe workers
  | startLoop => exact h.startLoop
  | stop source => exact h.stop source

theorem Orderly.unfolds {allowed : Act → Prop} {past : List Happening} {w' : Watch}
    (hpast : Unfolds allowed w past w') : w'.Orderly := by
  induction hpast with
  | start => exact h
  | ends _ _ _ ih => exact ih.finish _
  | round _ hloop _ hover ih => exact ih.beginRound hloop hover
  | passes _ hrests ih => exact ih.passes hrests
  | acts _ _ ih => exact ih.act _

end

end Watch
end Foreman
