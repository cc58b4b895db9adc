import Foreman.Proofs.Waiting

/-!
# Probing all workers at once

Probes that begin at once run side by side, and they can end in any order. Together they take as long as the slowest
of them. What is known of the workers afterwards is a function of how each of them answered its ping, whatever the
order (`Watch.probing_all_ends_with_slowest_probe`).
-/

namespace Foreman

/-- What a ping that is sent now makes of an endpoint. -/
def Endpoint.pinged (e : Endpoint) (now timeout : Time) : PingFate → Endpoint
  | .answers after =>
    if after ≤ timeout then ⟨.alive, some (now + after)⟩ else { e with health := .unresponsive }
  | .fails _ | .silent => { e with health := .unresponsive }

-- A probe that ends in its time makes the same of it.
theorem Monitor.endpoint_note_of_fate {m : Monitor} {worker : Address} {e : Endpoint}
    (he : m.endpoints[worker]? = some e) (now timeout : Time) (fate : PingFate) :
    (m.note (now + fate.duration timeout) worker (fate.answered timeout)).endpoints[worker]? =
      some (e.pinged now timeout fate) := by
  rw [endpoint_note_self, Std.ExtTreeMap.getD_eq_getD_getElem?, he]
  cases fate with
  | answers after =>
    by_cases h : after ≤ timeout
    · simp [PingFate.answered, PingFate.duration, Endpoint.pinged, Health.ofProbe, h]
    · simp [PingFate.answered, Endpoint.pinged, Health.ofProbe, h]
  | fails after => rfl
  | silent => rfl

namespace Watch

/-! ## 1. The slowest probe -/

/-- How long it takes to probe some workers at once: as long as the longest probe. It lasts until the worker answers
or refuses, at most for the timeout, which it takes in full if the worker is silent. -/
def slowest (w : Watch) (workers : List Address) : Time :=
  (workers.map fun a => match w.fate a with
    | .answers after | .fails after => min after w.prober.timeout
    | .silent => w.prober.timeout).foldr max 0

/-- The endpoints after each of them has been pinged once. -/
def pingedEndpoints (w : Watch) : Std.ExtTreeMap Address Endpoint :=
  w.monitor.endpoints.map fun a e => e.pinged w.now w.prober.timeout (w.fate a)

section

variable {w : Watch} {workers : List Address}

theorem slowest_eq (w : Watch) (workers : List Address) :
    w.slowest workers = (workers.map fun a => (w.fate a).duration w.prober.timeout).foldr max 0 :=
  rfl

theorem slowest_le_iff {t : Time} :
    w.slowest workers ≤ t ↔ ∀ a ∈ workers, (w.fate a).duration w.prober.timeout ≤ t := by
  rw [slowest_eq]
  induction workers with
  | nil => simp
  | cons a workers ih => rw [List.map_cons, List.foldr_cons, Nat.max_le, ih, List.forall_mem_cons]

theorem slowest_of_perm {order : List Address} (h : order.Perm workers) :
    w.slowest order = w.slowest workers := by
  apply eq_of_forall_ge_iff
  intro t
  rw [slowest_le_iff, slowest_le_iff]
  exact forall_congr' fun a => by rw [h.mem_iff]

theorem roundEnd_eq (w : Watch) (workers : List Address) :
    w.prober.roundEnd w.now (w.pings workers) = w.now + w.slowest workers := by
  apply eq_of_forall_ge_iff
  intro t
  have hpings : (∀ ping ∈ w.pings workers, w.now + ping.2.duration w.prober.timeout ≤ t) ↔
      ∀ a ∈ workers, w.now + (w.fate a).duration w.prober.timeout ≤ t := by
    simp [pings]
  rw [Prober.roundEnd_le_iff, hpings]
  constructor
  · rintro ⟨hnow, hall⟩
    have hslowest : w.slowest workers ≤ t - w.now := slowest_le_iff.2 fun a ha => Nat.le_sub_of_add_le' (hall a ha)
    lia
  · intro hle
    refine ⟨Nat.le_of_add_right_le hle, ?_⟩
    intro a ha
    have hslowest := slowest_le_iff.1 (Nat.le_refl (w.slowest workers)) a ha
    lia

end

/-! ## 2. Waiting for the last outcome -/

/-- The probe of a worker that begins now, for a source that is new. -/
def probeOf (w : Watch) (a : Address) : Flight :=
  w.prober.flight w.now w.prober.sources a (w.fate a)

/-- Some workers were probed at once, and the watch has become another one since. Those of the probes that are
still under way are the only ones of their source, and the others are over. -/
structure AwaitsLast (w : Watch) (order : List Address) (w' : Watch) : Prop where
  began : w.now ≤ w'.now
  ours : ∀ f ∈ w'.prober.flights, f.source = w.prober.sources → ∃ a ∈ order, f = w.probeOf a
  rest : ∀ a ∈ order, w.probeOf a ∈ w'.prober.flights ∨ (w.probeOf a).ends ≤ w'.now
  loops : ∀ l ∈ w'.prober.loops, l.source ≠ w.prober.sources
  sources : w.prober.sources < w'.prober.sources

section

variable {w w' : Watch} {order : List Address} {past : List Happening}

theorem AwaitsLast.act (h : AwaitsLast w order w') {a : Act} (ha : a ≠ .stop w.prober.sources) :
    AwaitsLast w order (w'.act a) := by
  cases a with
  | setPing => exact ⟨h.began, h.ours, h.rest, h.loops, h.sources⟩
  | probe workers =>
    refine ⟨h.began, ?_, ?_, ?_, ?_⟩
    · intro f hf hsource
      rw [flights_probe, List.mem_append, List.mem_map] at hf
      rcases hf with hf | ⟨b, -, rfl⟩
      · exact h.ours f hf hsource
      · exact absurd hsource (Nat.ne_of_gt h.sources)
    · intro b hb
      rw [flights_probe]
      exact (h.rest b hb).imp_left (List.mem_append_left _)
    · rw [loops_probe]
      exact h.loops
    · rw [sources_probe]
      exact Nat.lt_succ_of_lt h.sources
  | startLoop =>
    show AwaitsLast w order w'.startLoop.2
    by_cases hinterval : w'.interval = 0
    · rw [startLoop_of_eq_zero hinterval]
      exact h
    · rw [startLoop_of_ne_zero hinterval]
      refine ⟨h.began, h.ours, h.rest, ?_, Nat.lt_succ_of_lt h.sources⟩
      intro l hl
      rcases List.mem_append.1 hl with hl | hl
      · exact h.loops l hl
      · rw [List.mem_singleton.1 hl]
        exact Nat.ne_of_gt h.sources
  | stop source =>
    have hother : w.prober.sources ≠ source := fun heq => ha (heq ▸ rfl)
    refine ⟨h.began, fun f hf => h.ours f (List.mem_filter.1 hf).1, ?_,
      fun l hl => h.loops l (List.mem_filter.1 hl).1, h.sources⟩
    intro b hb
    exact (h.rest b hb).imp_left fun hf => List.mem_filter.2 ⟨hf, decide_eq_true hother⟩

theorem awaitsLast_of_unfolds (h : w.Orderly)
    (hpast : Unfolds (· ≠ .stop w.prober.sources) (w.act (.probe order)) past w') : AwaitsLast w order w' := by
  induction hpast with
  | start =>
    refine ⟨Nat.le_refl _, ?_, ?_, ?_, ?_⟩
    · intro f hf hsource
      rw [flights_probe, List.mem_append, List.mem_map] at hf
      rcases hf with hf | ⟨a, ha, rfl⟩
      · have hold := h.freshFlight f hf
        omega
      · exact ⟨a, ha, rfl⟩
    · intro a ha
      rw [flights_probe]
      exact .inl (List.mem_append_right _ (List.mem_map_of_mem ha))
    · rw [loops_probe]
      exact fun l hl => Nat.ne_of_lt (h.freshLoop l hl)
    · rw [sources_probe]
      exact Nat.lt_succ_self _
  | @ends past w' _ f hf hdue ih =>
    refine ⟨ih.began, fun g hg => ih.ours g (List.mem_of_mem_erase hg), ?_, ih.loops, ih.sources⟩
    intro a ha
    by_cases heq : w.probeOf a = f
    · exact .inr (heq ▸ hdue)
    · exact (ih.rest a ha).imp_left (List.mem_erase_of_ne heq).2
  | @round past w' _ loop hloop _ _ ih =>
    refine ⟨ih.began, ?_, ?_, ?_, ?_⟩
    · intro f hf hsource
      rw [flights_beginRound, List.mem_append, List.mem_map] at hf
      rcases hf with hf | ⟨a, -, rfl⟩
      · exact ih.ours f hf hsource
      · exact absurd hsource (ih.loops loop hloop)
    · intro a ha
      rw [flights_beginRound]
      exact (ih.rest a ha).imp_left (List.mem_append_left _)
    · intro l hl
      rw [loops_beginRound, List.mem_map] at hl
      obtain ⟨l, hl, rfl⟩ := hl
      split
      · exact ih.loops l hl
      · exact ih.loops l hl
    · rw [sources_beginRound]
      exact ih.sources
  | passes _ _ ih =>
    exact { ih with
      began := Nat.le_succ_of_le ih.began
      rest := fun a ha => (ih.rest a ha).imp_right Nat.le_succ_of_le }
  | acts _ ha ih => exact ih.act ha

/-! ## 3. What is recorded -/

/-- All workers are probed at once and nothing else goes on. Of each worker the monitor has what it had before, or
what its ping has made of this once its probe is over. -/
structure Records (w w' : Watch) : Prop where
  loops : w'.prober.loops = []
  source : ∀ f ∈ w'.prober.flights, f.source = w.prober.sources
  nodup : w'.prober.flights.Nodup
  endpoints : ∀ a, w'.monitor.endpoints[a]? =
    if w.probeOf a ∈ w'.prober.flights then w.monitor.endpoints[a]? else w.pingedEndpoints[a]?

theorem pingedEndpoints_getElem? (w : Watch) (a : Address) : w.pingedEndpoints[a]? =
    w.monitor.endpoints[a]?.map fun e => e.pinged w.now w.prober.timeout (w.fate a) :=
  Std.ExtTreeMap.getElem?_map

theorem probeOf_injective (w : Watch) : Function.Injective w.probeOf :=
  fun _ _ h => congrArg Flight.worker h

section

variable (hidle : w.IsIdle) (horder : order.Perm w.monitor.workers)

include hidle horder

theorem records_probe : Records w (w.act (.probe order)) := by
  have hflights : (w.act (.probe order)).prober.flights = order.map w.probeOf := by
    rw [flights_probe, hidle.flights, List.nil_append]
    rfl
  refine ⟨(loops_probe w order).trans hidle.loops, ?_, ?_, ?_⟩
  · intro f hf
    rw [hflights, List.mem_map] at hf
    obtain ⟨a, -, rfl⟩ := hf
    rfl
  · rw [hflights]
    exact (horder.nodup_iff.2 Std.ExtTreeMap.nodup_keys).map w.probeOf_injective
  · intro a
    show w.monitor.endpoints[a]? = _
    rw [hflights]
    split
    · rfl
    · -- There is nothing to ping.
      rename_i hunknown
      rw [List.mem_map_of_injective w.probeOf_injective, horder.mem_iff] at hunknown
      have hnone : w.monitor.endpoints[a]? = none := by
        rw [Monitor.mem_workers_iff, not_exists] at hunknown
        exact Option.eq_none_iff_forall_ne_some.2 hunknown
      rw [pingedEndpoints_getElem?, hnone]
      rfl

theorem Records.finish (h : Records w w') (hpast : Unfolds IsScripting (w.act (.probe order)) past w')
    {f : Flight} (hf : f ∈ w'.prober.flights) (hdue : f.ends ≤ w'.now) : Records w (w'.finish f) := by
  have hwaits := awaitsLast_of_unfolds hidle.orderly (hpast.mono fun _ ha => ha.ne_stop)
  obtain ⟨b, hb, rfl⟩ := hwaits.ours f hf (h.source f hf)
  have hnow : w'.now = w.now + (w.fate b).duration w.prober.timeout :=
    Nat.le_antisymm (((hidle.orderly.act _).unfolds hpast).inTime _ hf) hdue
  refine ⟨h.loops, fun g hg => h.source g (List.mem_of_mem_erase hg), h.nodup.erase _, ?_⟩
  intro a
  show (w'.monitor.note w'.now b ((w.fate b).answered w.prober.timeout)).endpoints[a]? =
    if w.probeOf a ∈ w'.prober.flights.erase (w.probeOf b) then _ else _
  by_cases hworker : b = a
  · subst hworker
    obtain ⟨e, he⟩ := Monitor.mem_workers_iff.1 (horder.mem_iff.1 hb)
    have hbefore := h.endpoints b
    rw [if_pos hf, he] at hbefore
    rw [if_neg h.nodup.not_mem_erase, pingedEndpoints_getElem?, he, hnow]
    exact Monitor.endpoint_note_of_fate hbefore _ _ _
  · have hne : w.probeOf a ≠ w.probeOf b := fun heq => hworker (w.probeOf_injective heq).symm
    rw [Monitor.endpoint_note_of_ne _ _ _ hworker, h.endpoints a]
    simp only [List.mem_erase_of_ne hne]

theorem records_of_unfolds (hpast : Unfolds IsScripting (w.act (.probe order)) past w') : Records w w' := by
  induction hpast with
  | start => exact records_probe hidle horder
  | ends hpast hf hdue ih => exact ih.finish hidle horder hpast hf hdue
  | round _ hloop _ _ ih =>
    rw [ih.loops] at hloop
    cases hloop
  | passes _ _ ih => exact ⟨ih.loops, ih.source, ih.nodup, ih.endpoints⟩
  | @acts _ _ _ a ha ih =>
    cases a with
    | setPing => exact ⟨ih.loops, ih.source, ih.nodup, ih.endpoints⟩
    | probe | startLoop | stop => exact ha.elim

end

end

/-! ## 4. The round -/

section

variable {w w' : Watch} {order : List Address}

theorem AwaitsLast.isWaiting (h : AwaitsLast w order w') (hnow : w'.now < w.now + w.slowest order) :
    w'.prober.isWaiting w.prober.sources = true := by
  obtain ⟨a, ha, hlong⟩ : ∃ a ∈ order, w'.now < (w.probeOf a).ends := by
    by_contra hnone
    simp only [not_exists, not_and, not_lt] at hnone
    have hslowest : w.slowest order ≤ w'.now - w.now :=
      slowest_le_iff.2 fun a ha => Nat.le_sub_of_add_le' (hnone a ha)
    have hbegan := h.began
    lia
  rcases h.rest a ha with hf | hover
  · exact List.any_eq_true.2 ⟨_, hf, decide_eq_true rfl⟩
  · lia

theorem AwaitsLast.not_waiting (h : AwaitsLast w order w') (hrests : w'.Rests)
    (hnow : w.now + w.slowest order ≤ w'.now) : w'.prober.isWaiting w.prober.sources = false := by
  rw [Prober.isWaiting_eq_false_iff]
  intro f hf hsource
  obtain ⟨a, ha, rfl⟩ := h.ours f hf hsource
  have hlater : w'.now < w.now + (w.fate a).duration w.prober.timeout := hrests.1 _ hf
  have hslowest := slowest_le_iff.1 (Nat.le_refl (w.slowest order)) a ha
  lia

/-- All known workers are probed at once, in whatever order they are listed. Whatever else is done, the wait for
their outcomes ends with the slowest of the probes, and not before. If nothing else goes on, each endpoint is then
what its ping has made of it. -/
theorem probing_all_ends_with_slowest_probe (h : w.Orderly) (horder : order.Perm w.monitor.workers) :
    let source := w.prober.sources
    let round := w.act (.probe order)
    let last := w.now + w.slowest w.monitor.workers
    (∀ past w', Unfolds (· ≠ .stop source) round past w' →
      (w'.now < last → w'.prober.isWaiting source = true) ∧
      (w'.Rests → last ≤ w'.now → w'.prober.isWaiting source = false)) ∧
    (w.probeEach order).now = last ∧ (w.probeEach order).Rests ∧
    (w.IsIdle →
      (∀ past w', Unfolds IsScripting round past w' → w'.Rests → last ≤ w'.now →
        w'.IsIdle ∧ w'.monitor.endpoints = w.pingedEndpoints) ∧
      (w.probeEach order).IsIdle ∧ (w.probeEach order).monitor.endpoints = w.pingedEndpoints) := by
  intro source round last
  have hlast : w.now + w.slowest order = last := by rw [slowest_of_perm horder]
  have hround : round.Orderly := h.act (.probe order)
  have heach : w.probeEach order = round.advanceTo last := by
    rw [probeEach_eq, roundEnd_eq, hlast]
  have hnow : (w.probeEach order).now = last := by
    rw [heach, hround.now_advanceTo]
    show max w.now last = last
    lia
  have hrests : (w.probeEach order).Rests := heach ▸ hround.rests_advanceTo last
  refine ⟨?_, hnow, hrests, ?_⟩
  · intro past w' hpast
    have hwaits := awaitsLast_of_unfolds h hpast
    rw [← hlast]
    exact ⟨hwaits.isWaiting, hwaits.not_waiting⟩
  · intro hidle
    have hover : ∀ past w', Unfolds IsScripting round past w' → w'.Rests → last ≤ w'.now →
        w'.IsIdle ∧ w'.monitor.endpoints = w.pingedEndpoints := by
      intro past w' hpast hrests hlate
      have hwaits := awaitsLast_of_unfolds h (hpast.mono fun _ ha => ha.ne_stop)
      have hrecords := records_of_unfolds hidle horder hpast
      have hnone := hwaits.not_waiting hrests (hlast ▸ hlate)
      have hflights : w'.prober.flights = [] :=
        Prober.flights_eq_nil_of_not_waiting hnone hrecords.source
      refine ⟨⟨hflights, hrecords.loops⟩, ?_⟩
      apply Std.ExtTreeMap.ext_getElem?
      intro a
      rw [hrecords.endpoints a, hflights, if_neg List.not_mem_nil]
    have hpast : Unfolds IsScripting round (round.inAdvance last) (w.probeEach order) := by
      rw [heach]
      exact hround.unfolds_advanceTo IsScripting last
    exact ⟨hover, hover _ _ hpast hrests (Nat.le_of_eq hnow.symm)⟩

end

/-- Three workers are known, and two of them are alive. Now one of these answers at the very end of the timeout, and
the other one a moment later; the third one refuses. -/
def threeWorkers : Watch :=
  let known := (start [.loopback 1, .loopback 2, .loopback 3] 20 50).after
    [.act (.setPing (.loopback 1) (.answers 0)), .act (.setPing (.loopback 2) (.answers 5)), .probeKnown]
  known.after [.act (.setPing (.loopback 1) (.answers 50)), .act (.setPing (.loopback 2) (.answers 51))]

theorem answer_at_end_of_timeout_counts :
    let order := [.loopback 3, .loopback 1, .loopback 2]
    threeWorkers.Orderly ∧ threeWorkers.IsIdle ∧ order.Perm threeWorkers.monitor.workers ∧
      threeWorkers.now = 5 ∧ (threeWorkers.probeEach order).now = 55 ∧
      (threeWorkers.probeEach order).monitor.endpoints = threeWorkers.pingedEndpoints ∧
      threeWorkers.pingedEndpoints.toList = [(.loopback 1, ⟨.alive, some 55⟩),
        (.loopback 2, ⟨.unresponsive, some 5⟩), (.loopback 3, ⟨.unresponsive, none⟩)] := by
  intro order
  have hidle : threeWorkers.IsIdle := ⟨by decide +kernel, by decide +kernel⟩
  have horder : order.Perm threeWorkers.monitor.workers := by decide +kernel
  obtain ⟨-, hnow, -, hrest⟩ := probing_all_ends_with_slowest_probe hidle.orderly horder
  obtain ⟨-, -, hendpoints⟩ := hrest hidle
  have hlast : threeWorkers.now + threeWorkers.slowest threeWorkers.monitor.workers = 55 := by decide +kernel
  exact ⟨hidle.orderly, hidle, horder, by decide +kernel, hnow.trans hlast, hendpoints, by decide +kernel⟩

end Watch
end Foreman
