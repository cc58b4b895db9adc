import Foreman.Proofs.Completion
import Foreman.Proofs.Dispatches
import Foreman.Proofs.Waiting

/-!
# How soon a probe loop finds out

A probe loop learns of a worker in rounds, and a round waits for its slowest probe. So what it has of a worker goes
back to the round that is on or to the one before, and rounds begin at most as far apart as the interval or the
timeout, whichever is longer. From some moment on all pings to a worker may fail, or all may be answered: one such
stretch and a timeout later, the worker is no longer alive, or alive again (`loop_finds_out_in_time`).
-/

namespace Foreman

/-- The worker is known, and its health is what a probe with that outcome makes of it. -/
def Monitor.Shows (m : Monitor) (worker : Address) (answered : Bool) : Prop :=
  ∃ e, m.endpoints[worker]? = some e ∧ e.health = .ofProbe answered

namespace Monitor

variable {m : Monitor} {worker : Address}

theorem shows_note_self (now : Time) (answered : Bool) :
    (m.note now worker answered).Shows worker answered :=
  ⟨_, m.endpoint_note_self now worker answered, rfl⟩

theorem shows_note_of_ne {other : Address} (now : Time) {answered b : Bool} (h : other ≠ worker) :
    (m.note now other answered).Shows worker b ↔ m.Shows worker b := by
  unfold Shows
  rw [m.endpoint_note_of_ne now answered h]

theorem mem_alive_iff_shows : worker ∈ m.alive ↔ m.Shows worker true := by
  rw [mem_alive]
  rfl

theorem not_mem_alive_of_shows (h : m.Shows worker false) : worker ∉ m.alive := by
  rw [mem_alive]
  rintro ⟨e, he, halive⟩
  obtain ⟨e', he', hhealth⟩ := h
  rw [he, Option.some.injEq] at he'
  rw [← he', halive] at hhealth
  cases hhealth

end Monitor

namespace Watch

/-! ## 1. A loop that is left alone -/

/-- The outcome, if it is in time, of every ping that is sent to the worker from a moment on. -/
def ComesOut (T t₀ : Time) (a : Address) (b : Bool) (past : List Happening) : Prop :=
  ∀ t source fate, .asked t source a fate ∈ past → t₀ ≤ t → fate.answered T = b

instance (T t₀ : Time) (a : Address) (b : Bool) : DecidablePred (ComesOut T t₀ a b) := fun past =>
  let agrees : Happening → Bool
    | .asked t _ worker fate => worker = a → t₀ ≤ t → fate.answered T = b
    | _ => true
  decidable_of_iff (past.all agrees) <| by
    rw [List.all_eq_true]
    constructor
    · exact fun h t source fate hmem ht => of_decide_eq_true (h _ hmem) rfl ht
    · rintro h (⟨t, source, worker, fate⟩ | _ | _) hmem
      · exact decide_eq_true fun hworker => h t source fate (hworker ▸ hmem)
      · rfl
      · rfl

theorem ComesOut.of_append {T t₀ : Time} {a : Address} {b : Bool} {past more : List Happening}
    (h : ComesOut T t₀ a b (past ++ more)) : ComesOut T t₀ a b past :=
  fun t source fate hmem => h t source fate (List.mem_append_left more hmem)

section

variable (s t₀ : Time) (a : Address) (b : Bool)

/-- The loop is the only one, and its round that began at `r` is on or is the latest. What the monitor has of
worker `a` is from this round once its probe is over, and from an earlier one until then. -/
structure InRound (l : ProbeLoop) (r : Time) (w : Watch) : Prop where
  loops : w.prober.loops = [l]
  known : a ∈ w.monitor.workers
  began : r ≤ w.now
  tick : l.tick ≤ r + l.interval
  ticked : l.tick ≤ l.next
  next : l.next ≤ r + max l.interval w.prober.timeout
  now : w.now ≤ l.next
  flights : ∀ f ∈ w.prober.flights, f.source = l.source ∧ f.ends ≤ r + w.prober.timeout ∧
    (f.worker = a → t₀ ≤ r → f.answered = b)
  fresh : t₀ ≤ r → (∀ f ∈ w.prober.flights, f.worker ≠ a) → w.monitor.Shows a b
  settled : max s t₀ + max l.interval w.prober.timeout ≤ r → w.monitor.Shows a b

variable {s t₀ a b} {l : ProbeLoop} {r : Time} {w : Watch}

-- A round may begin if no probe is under way; what is known of the worker by then may still be old.
theorem inRound_beginRound (hloops : w.prober.loops = [l]) (hknown : a ∈ w.monitor.workers)
    (hflights : w.prober.flights = []) (htick : l.tick ≤ w.now)
    (hsettled : max s t₀ + max l.interval w.prober.timeout ≤ w.now → w.monitor.Shows a b)
    (hfate : t₀ ≤ w.now → (w.fate a).answered w.prober.timeout = b) :
    ∃ l', l'.interval = l.interval ∧ InRound s t₀ a b l' w.now (w.beginRound l) := by
  generalize hend : w.prober.roundEnd w.now (w.pings w.monitor.workers) = e
  have hend_le : e ≤ w.now + w.prober.timeout := by
    rw [← hend, Prober.roundEnd_le_iff]
    refine ⟨Nat.le_add_right _ _, fun ping _ => Nat.add_le_add_left (ping.2.duration_le _) _⟩
  have hle_end : w.now ≤ e := hend ▸ (Prober.roundEnd_le_iff.1 (Nat.le_refl _)).1
  have hflight : ∀ f ∈ (w.beginRound l).prober.flights, ∃ worker ∈ w.monitor.workers,
      f = w.prober.flight w.now l.source worker (w.fate worker) := by
    intro f hf
    rw [flights_beginRound, hflights, List.nil_append, List.mem_map] at hf
    obtain ⟨worker, hworker, rfl⟩ := hf
    exact ⟨worker, hworker, rfl⟩
  refine ⟨{ l with tick := l.tick + l.interval, next := max (l.tick + l.interval) e }, rfl, ?_⟩
  constructor
  · rw [loops_beginRound, hloops, hend]
    simp
  · exact hknown
  · exact Nat.le_refl _
  · exact Nat.add_le_add_right htick _
  · exact Nat.le_max_left _ _
  · rw [timeout_beginRound]
    show max (l.tick + l.interval) e ≤ w.now + max l.interval w.prober.timeout
    lia
  · show w.now ≤ max (l.tick + l.interval) e
    lia
  · intro f hf
    rw [timeout_beginRound]
    obtain ⟨worker, -, rfl⟩ := hflight f hf
    refine ⟨rfl, Nat.add_le_add_left ((w.fate worker).duration_le _) _, ?_⟩
    rintro rfl hlate
    exact hfate hlate
  · intro _ hnone
    -- The round has a probe of this worker.
    have hmem : w.prober.flight w.now l.source a (w.fate a) ∈ (w.beginRound l).prober.flights := by
      rw [flights_beginRound, List.mem_append]
      exact .inr (List.mem_map_of_mem hknown)
    exact absurd rfl (hnone _ hmem)
  · rw [timeout_beginRound]
    exact hsettled

section

variable (h : InRound s t₀ a b l r w)

include h

theorem InRound.finish {f : Flight} (hf : f ∈ w.prober.flights) : InRound s t₀ a b l r (w.finish f) := by
  obtain ⟨-, -, hanswer⟩ := h.flights f hf
  have hnoted : ∀ c, (f.worker = a → f.answered = c) → (f.worker ≠ a → w.monitor.Shows a c) →
      (w.finish f).monitor.Shows a c := by
    intro c hself hother
    by_cases ha : f.worker = a
    · subst ha
      rw [← hself rfl]
      exact Monitor.shows_note_self ..
    · exact (Monitor.shows_note_of_ne w.now ha).2 (hother ha)
  refine ⟨h.loops, ?_, h.began, h.tick, h.ticked, h.next, h.now, ?_, ?_, ?_⟩
  · exact (Monitor.mem_workers_note _ _ _ _ _).2 (.inr h.known)
  · exact fun g hg => h.flights g (List.mem_of_mem_erase hg)
  · intro hlate hnone
    refine hnoted b (fun ha => hanswer ha hlate) ?_
    intro ha
    apply h.fresh hlate
    intro g hg hga
    have hne : g ≠ f := fun heq => ha (heq ▸ hga)
    exact hnone g ((List.mem_erase_of_ne hne).2 hg) hga
  · intro hlong
    have hlong : max s t₀ + max l.interval w.prober.timeout ≤ r := hlong
    have hlate : t₀ ≤ r := by lia
    exact hnoted b (fun ha => hanswer ha hlate) fun _ => h.settled hlong

theorem InRound.beginRound (hdue : l.next ≤ w.now) (hover : w.prober.isWaiting l.source = false)
    (hfate : t₀ ≤ w.now → (w.fate a).answered w.prober.timeout = b) :
    ∃ l', l'.interval = l.interval ∧ InRound s t₀ a b l' w.now (w.beginRound l) := by
  have hflights : w.prober.flights = [] :=
    Prober.flights_eq_nil_of_not_waiting hover fun f hf => (h.flights f hf).1
  have htick := h.ticked
  have hnext := h.next
  have hnow := h.now
  apply inRound_beginRound h.loops h.known hflights (by lia) _ hfate
  -- The round that is over began a stretch ago at most, so its outcome counts.
  intro hlong
  have hlate : t₀ ≤ r := by lia
  apply h.fresh hlate
  simp [hflights]

theorem InRound.passes (hrests : w.Rests) : InRound s t₀ a b l r { w with now := w.now + 1 } := by
  have hlater : w.now < l.next := hrests.2 l (by simp [h.loops])
  exact { h with
    began := Nat.le_succ_of_le h.began
    now := hlater }

theorem InRound.setPing (worker : Address) (fate : PingFate) :
    InRound s t₀ a b l r (w.setPing worker fate) :=
  ⟨h.loops, h.known, h.began, h.tick, h.ticked, h.next, h.now, h.flights, h.fresh, h.settled⟩

-- If the probe of the worker is under way, its round began a timeout ago at most, and the one before it a stretch
-- earlier; if it is over, its round began a stretch ago at most.
theorem InRound.shows (hrests : w.Rests)
    (hnow : max s t₀ + max l.interval w.prober.timeout + w.prober.timeout ≤ w.now) : w.monitor.Shows a b := by
  have hlater : w.now < l.next := hrests.2 l (by simp [h.loops])
  have hnext := h.next
  by_cases hover : ∀ f ∈ w.prober.flights, f.worker ≠ a
  · exact h.fresh (by lia) hover
  · simp only [not_forall, not_not] at hover
    obtain ⟨f, hf, -⟩ := hover
    have hends := (h.flights f hf).2.1
    have hunder : w.now < f.ends := hrests.1 f hf
    exact h.settled (by lia)

end

/-! ## 2. From the start of the loop -/

variable {past : List Happening}

theorem timeout_startLoop {w' : Watch} {past : List Happening} (h : Unfolds IsScripting w.startLoop.2 past w') :
    w'.prober.timeout = w.prober.timeout :=
  h.timeout_eq.trans (w.act_eq .startLoop).2.2

-- Either the first round is still to begin, or some round has begun.
theorem inRound_of_unfolds (hidle : w.IsIdle) (hinterval : 0 < w.interval) (hknown : a ∈ w.monitor.workers)
    {w' : Watch} (h : Unfolds IsScripting w.startLoop.2 past w')
    (hpast : ComesOut w.prober.timeout t₀ a b past) :
    (w'.now = w.now ∧ w'.prober.loops = [⟨w.prober.sources, w.interval, w.now, w.now⟩] ∧
        w'.prober.flights = [] ∧ a ∈ w'.monitor.workers) ∨
      ∃ l r, l.interval = w.interval ∧ InRound w.now t₀ a b l r w' := by
  have hasked : ∀ {more : List Happening} {v : Watch} {source : Nat}, Unfolds IsScripting w.startLoop.2 more v →
      a ∈ v.monitor.workers →
      ComesOut w.prober.timeout t₀ a b (more ++ v.asks source v.monitor.workers) →
      t₀ ≤ v.now → (v.fate a).answered v.prober.timeout = b := by
    intro more v source hmore ha hcomes hlate
    rw [timeout_startLoop hmore]
    exact hcomes v.now source _ (List.mem_append_right _ (List.mem_map_of_mem ha)) hlate
  induction h with
  | start =>
    rw [startLoop_of_ne_zero (Nat.ne_of_gt hinterval)]
    refine .inl ⟨rfl, ?_, hidle.flights, hknown⟩
    simp [hidle.loops]
  | ends _ hf hdue ih =>
    obtain ⟨-, -, hflights, -⟩ | ⟨l, r, hl, hround⟩ := ih hpast.of_append
    · rw [hflights] at hf
      cases hf
    · exact .inr ⟨l, r, hl, hround.finish hf⟩
  | @round past v h loop hloop hdue hover ih =>
    right
    obtain ⟨hnow, hloops, hflights, ha⟩ | ⟨l, r, hl, hround⟩ := ih hpast.of_append
    · rw [hloops, List.mem_singleton] at hloop
      subst hloop
      have hlong : max w.now t₀ + max w.interval v.prober.timeout ≤ v.now → v.monitor.Shows a b := by
        lia
      obtain ⟨l', hl', hround⟩ :=
        inRound_beginRound (s := w.now) hloops ha hflights (by rw [hnow]) hlong (hasked h ha hpast)
      exact ⟨l', v.now, hl', hround⟩
    · rw [hround.loops, List.mem_singleton] at hloop
      subst hloop
      obtain ⟨l', hl', hnext⟩ := hround.beginRound hdue hover (hasked h hround.known hpast)
      exact ⟨l', v.now, hl'.trans hl, hnext⟩
  | passes _ hrests ih =>
    obtain ⟨hnow, hloops, -⟩ | ⟨l, r, hl, hround⟩ := ih hpast
    · -- The first round is due already.
      have hlater := hrests.2 _ (by rw [hloops]; exact List.mem_singleton_self _)
      have hlater : _ < w.now := hlater
      lia
    · exact .inr ⟨l, r, hl, hround.passes hrests⟩
  | @acts past v _ act ha ih =>
    cases act with
    | setPing worker fate =>
      obtain hfirst | ⟨l, r, hl, hround⟩ := ih hpast.of_append
      · exact .inl hfirst
      · exact .inr ⟨l, r, hl, hround.setPing worker fate⟩
    | probe | startLoop | stop => exact ha.elim

end

-- Whoever waits for a loop has it done what is due.
theorem Orderly.rests_after {w : Watch} (h : w.Orderly) {ops : List Op}
    (hops : ∀ op ∈ ops, op.Allowed IsScripting) (hnow : w.Rests ∨ w.now < (w.after ops).now) :
    (w.after ops).Rests := by
  induction ops generalizing w with
  | nil =>
    rcases hnow with hrests | hlt
    · exact hrests
    · exact absurd hlt (Nat.lt_irrefl _)
  | cons op ops ih =>
    have hop := hops op List.mem_cons_self
    have hrest := fun o ho => hops o (List.mem_cons_of_mem op ho)
    cases op with
    | act a =>
      cases a with
      | setPing worker fate => exact ih (h.act (.setPing worker fate)) hrest hnow
      | probe | startLoop | stop => exact hop.elim
    | wait ms =>
      have hpast := h.unfolds_advanceTo IsScripting (w.now + ms)
      exact ih (h.unfolds hpast) hrest (.inl (h.rests_advanceTo _))
    | probeOne => exact hop.elim
    | probeKnown => exact (hop []).elim
    | runLoop => exact hop.1.elim

/-- A probe loop with an interval is started where nothing else is probing, and later nothing is done but to
script pings and to wait. If all pings to a known worker that are sent at `t₀` or later fail to be answered in
time, the worker is not alive at any moment that comes as late as the bound, once what is due has been done; if
they are all answered in time, it is alive then. This is so in whatever order things of one moment happen. -/
theorem loop_finds_out_in_time {w : Watch} (hidle : w.IsIdle) (hinterval : 0 < w.interval) {a : Address}
    (hknown : a ∈ w.monitor.workers) (t₀ : Time) :
    let T := w.prober.timeout
    let bound := max w.now t₀ + max w.interval T + T
    let loop := w.startLoop.2
    (∀ past w', Unfolds IsScripting loop past w' → w'.Rests → bound ≤ w'.now →
      (ComesOut T t₀ a false past → a ∉ w'.monitor.alive) ∧
      (ComesOut T t₀ a true past → a ∈ w'.monitor.alive)) ∧
    ∀ ops, (∀ op ∈ ops, op.Allowed IsScripting) → bound ≤ (loop.after ops).now →
      (ComesOut T t₀ a false (loop.trace ops) → a ∉ (loop.after ops).monitor.alive) ∧
      (ComesOut T t₀ a true (loop.trace ops) → a ∈ (loop.after ops).monitor.alive) := by
  intro T bound loop
  have hshows : ∀ b past w', Unfolds IsScripting loop past w' → w'.Rests → bound ≤ w'.now →
      ComesOut T t₀ a b past → w'.monitor.Shows a b := by
    intro b past w' hpast hrests hbound hcomes
    obtain ⟨hnow, -⟩ | ⟨l, r, hl, hround⟩ := inRound_of_unfolds hidle hinterval hknown hpast hcomes
    · -- By then the first round has begun.
      lia
    · apply hround.shows hrests
      rw [hl, timeout_startLoop hpast]
      exact hbound
  have hfinds : ∀ past w', Unfolds IsScripting loop past w' → w'.Rests → bound ≤ w'.now →
      (ComesOut T t₀ a false past → a ∉ w'.monitor.alive) ∧
        (ComesOut T t₀ a true past → a ∈ w'.monitor.alive) := by
    intro past w' hpast hrests hbound
    constructor
    · exact fun hfails => Monitor.not_mem_alive_of_shows (hshows false past w' hpast hrests hbound hfails)
    · exact fun hanswers => Monitor.mem_alive_iff_shows.2 (hshows true past w' hpast hrests hbound hanswers)
  refine ⟨hfinds, ?_⟩
  intro ops hops hbound
  have horderly : loop.Orderly := hidle.orderly.act .startLoop
  have hnow : loop.now = w.now := by
    show w.startLoop.2.now = w.now
    rw [startLoop_of_ne_zero (Nat.ne_of_gt hinterval)]
  exact hfinds _ _ (horderly.unfolds_after hops) (horderly.rests_after hops (.inr (by lia))) hbound

/-- A worker answers at once, and another one never does, so the rounds are longer than the interval. Later the
first worker falls silent too. -/
def twoWorkers : Watch :=
  ((start [.loopback 1, .loopback 2] 20 50).setPing (.loopback 1) (.answers 0)).setPing (.loopback 2) .silent

theorem worker_falls_silent :
    let loop := twoWorkers.startLoop.2
    let ops : List Op := [.wait 100, .act (.setPing (.loopback 1) .silent), .wait 101]
    twoWorkers.IsIdle ∧ 0 < twoWorkers.interval ∧ .loopback 1 ∈ twoWorkers.monitor.workers ∧
      (loop.after (ops.take 1)).now = 100 ∧ ComesOut 50 0 (.loopback 1) true (loop.trace (ops.take 1)) ∧
      .loopback 1 ∈ (loop.after (ops.take 1)).monitor.alive ∧
      (loop.after ops).now = 201 ∧ ComesOut 50 101 (.loopback 1) false (loop.trace ops) ∧
      .loopback 1 ∉ (loop.after ops).monitor.alive := by
  intro loop ops
  have hidle : twoWorkers.IsIdle := ⟨rfl, rfl⟩
  have hknown : .loopback 1 ∈ twoWorkers.monitor.workers := by decide +kernel
  have hops : ∀ op ∈ ops, op.Allowed IsScripting := by simp [ops, Op.Allowed, IsScripting]
  have hstart : ComesOut 50 0 (.loopback 1) true (loop.trace (ops.take 1)) := by decide +kernel
  have hlater : ComesOut 50 101 (.loopback 1) false (loop.trace ops) := by decide +kernel
  have hnow : (loop.after (ops.take 1)).now = 100 := by decide +kernel
  have hnow' : (loop.after ops).now = 201 := by decide +kernel
  refine ⟨hidle, by decide, hknown, hnow, hstart, ?_, hnow', hlater, ?_⟩
  · have hfinds := (loop_finds_out_in_time hidle (by decide) hknown 0).2 (ops.take 1)
      (fun op hop => hops op (List.mem_of_mem_take hop)) (Nat.le_of_eq hnow.symm)
    exact hfinds.2 hstart
  · have hfinds := (loop_finds_out_in_time hidle (by decide) hknown 101).2 ops hops (Nat.le_of_eq hnow'.symm)
    exact hfinds.1 hlater

end Watch
end Foreman
