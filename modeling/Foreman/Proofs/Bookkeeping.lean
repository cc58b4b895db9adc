import Foreman.Proofs.Completion
import Foreman.Proofs.Dispatches
import Foreman.Proofs.Waiting

/-!
# What a monitor remembers

Whatever is probed, in whatever order probes end, and whichever of them are given up, a monitor is what the probes
that ran to their end have made of it, and nothing else. So the endpoint of a worker and the notices about it can be
told from the probes of this worker alone (`Watch.monitor_remembers_probes`).
-/

namespace Foreman

/-! ## 1. Probes that run to their end -/

/-- The probes that have ended, each with when it has. -/
def endings (past : List Happening) : List (Time × Flight) :=
  past.filterMap fun
    | .ended time flight => some (time, flight)
    | _ => none

/-- The probes of a worker that have ended, the latest last. -/
def endingsOf (worker : Address) (past : List Happening) : List (Time × Flight) :=
  (endings past).filter (·.2.worker = worker)

/-- What the latest probe has found out. Without a probe a worker is unresponsive. -/
def latestHealth (probes : List (Time × Flight)) : Health :=
  probes.getLast?.elim .unresponsive fun probe => .ofProbe probe.2.answered

/-- When the latest probe that was answered has ended. -/
def latestAnswer (probes : List (Time × Flight)) : Option Time :=
  (probes.filter (·.2.answered)).getLast?.map Prod.fst

theorem latestHealth_concat (probes : List (Time × Flight)) (probe : Time × Flight) :
    latestHealth (probes ++ [probe]) = .ofProbe probe.2.answered := by
  simp [latestHealth]

theorem latestAnswer_concat (probes : List (Time × Flight)) (probe : Time × Flight) :
    latestAnswer (probes ++ [probe]) =
      if probe.2.answered then some probe.1 else latestAnswer probes := by
  unfold latestAnswer
  by_cases h : probe.2.answered <;> simp [h]

theorem latestAnswer_isSome {probes : List (Time × Flight)} (h : latestHealth probes = .alive) :
    (latestAnswer probes).isSome := by
  rcases probes.eq_nil_or_concat' with rfl | ⟨probes, probe, rfl⟩
  · cases h
  · rw [latestHealth_concat] at h
    have hanswered : probe.2.answered = true := by
      by_contra hfailed
      simp [Health.ofProbe, hfailed] at h
    simp [latestAnswer_concat, hanswered]

theorem latestAnswer_append (probes more : List (Time × Flight)) :
    latestAnswer (probes ++ more) = (latestAnswer more).or (latestAnswer probes) := by
  rw [latestAnswer, List.filter_append, List.getLast?_append, Option.map_or]
  rfl

theorem exists_of_latestAnswer {probes : List (Time × Flight)} {t : Time} (h : latestAnswer probes = some t) :
    ∃ probe ∈ probes, probe.1 = t := by
  obtain ⟨probe, hlast, ht⟩ := Option.map_eq_some_iff.1 h
  exact ⟨probe, List.mem_of_mem_filter (List.mem_of_getLast? hlast), ht⟩

theorem endings_append (past more : List Happening) : endings (past ++ more) = endings past ++ endings more :=
  List.filterMap_append

theorem endingsOf_append (worker : Address) (past more : List Happening) :
    endingsOf worker (past ++ more) = endingsOf worker past ++ endingsOf worker more := by
  rw [endingsOf, endings_append, List.filter_append]
  rfl

theorem mem_endings {past : List Happening} {time : Time} {flight : Flight} :
    (time, flight) ∈ endings past ↔ .ended time flight ∈ past := by
  simp only [endings, List.mem_filterMap]
  constructor
  · rintro ⟨h, hmem, heq⟩
    cases h with
    | ended t f => cases heq; exact hmem
    | asked | givenUp => cases heq
  · exact fun hmem => ⟨_, hmem, rfl⟩

/-! ## 2. A monitor after some probes -/

namespace Monitor

/-- The outcomes of probes that end one after the other are recorded. -/
def noteAll (m : Monitor) (probes : List (Time × Flight)) : Monitor :=
  probes.foldl (fun m probe => m.note probe.1 probe.2.worker probe.2.answered) m

theorem noteAll_concat (m : Monitor) (probes : List (Time × Flight)) (probe : Time × Flight) :
    m.noteAll (probes ++ [probe]) = (m.noteAll probes).note probe.1 probe.2.worker probe.2.answered := by
  rw [noteAll, List.foldl_concat]
  rfl

/-- What is known of a worker; a worker that is not known yet is as good as unresponsive. -/
def endpoint (m : Monitor) (worker : Address) : Endpoint :=
  m.endpoints.getD worker {}

/-- The notices about a worker, the latest last. -/
def lines (m : Monitor) (worker : Address) : List Notice :=
  m.log.reverse.filter fun notice => notice = .alive worker ∨ notice = .unresponsive worker

/-- That a worker is alive and that it is unresponsive, by turns. -/
def alternation (worker : Address) (n : Nat) : List Notice :=
  (List.range n).map fun i => if i % 2 = 0 then .alive worker else .unresponsive worker

theorem alternation_succ (worker : Address) (n : Nat) : alternation worker (n + 1) =
    alternation worker n ++ [if n % 2 = 0 then .alive worker else .unresponsive worker] := by
  rw [alternation, List.range_succ, List.map_append]
  rfl

theorem getLast?_alternation_eq_alive (worker : Address) (n : Nat) :
    (alternation worker n).getLast? = some (.alive worker) ↔ n % 2 = 1 := by
  cases n with
  | zero => simp [alternation]
  | succ n =>
    rw [alternation_succ, List.getLast?_concat]
    by_cases h : n % 2 = 0
    · simp [h]
      omega
    · simp [h]
      omega

theorem endpoint_of_getElem? {m : Monitor} {worker : Address} {e : Endpoint}
    (h : m.endpoints[worker]? = some e) : m.endpoint worker = e := by
  rw [endpoint, Std.ExtTreeMap.getD_eq_getD_getElem?, h]
  rfl

theorem endpoint_ofWorkers (workers : List Address) (worker : Address) :
    (ofWorkers workers).endpoint worker = {} := by
  unfold ofWorkers endpoint
  induction workers using List.reverseRecOn with
  | nil => simp
  | append_singleton workers last ih =>
    rw [List.foldl_concat, Std.ExtTreeMap.getD_insert, ih, ite_self]

section

variable (m : Monitor) (now : Time) (probed worker : Address) (answered : Bool)

theorem endpoint_note : (m.note now probed answered).endpoint worker =
    if probed = worker then ⟨.ofProbe answered, if answered then some now else (m.endpoint worker).lastProbe⟩
    else m.endpoint worker := by
  split
  · rename_i h
    subst h
    exact endpoint_of_getElem? (m.endpoint_note_self now probed answered)
  · rename_i h
    unfold endpoint
    rw [Std.ExtTreeMap.getD_eq_getD_getElem?, m.endpoint_note_of_ne now answered h,
      ← Std.ExtTreeMap.getD_eq_getD_getElem?]

-- Only a change of health is worth a line.
theorem lines_note : (m.note now probed answered).lines worker = m.lines worker ++
    if probed = worker ∧ (m.endpoint worker).health ≠ .ofProbe answered then
      [if answered then .alive worker else .unresponsive worker]
    else [] := by
  have hlog : (m.note now probed answered).log.reverse = m.log.reverse ++
      (if (m.endpoint probed).health = .ofProbe answered then []
        else if answered then [.alive probed] else [.unresponsive probed]).reverse :=
    List.reverse_append
  rw [lines, hlog, List.filter_append]
  congr 1
  by_cases hworker : probed = worker
  · subst hworker
    split <;> cases answered <;> simp_all
  · split <;> cases answered <;> simp [hworker]

end

theorem endpoint_noteAll (workers : List Address) (probes : List (Time × Flight)) (worker : Address) :
    ((ofWorkers workers).noteAll probes).endpoint worker =
      ⟨latestHealth (probes.filter (·.2.worker = worker)),
        latestAnswer (probes.filter (·.2.worker = worker))⟩ := by
  induction probes using List.reverseRecOn with
  | nil => exact endpoint_ofWorkers workers worker
  | append_singleton probes probe ih =>
    rw [noteAll_concat, endpoint_note, ih, List.filter_append]
    by_cases h : probe.2.worker = worker
    · rw [if_pos h, List.filter_singleton, decide_eq_true h]
      show _ = Endpoint.mk (latestHealth (_ ++ [probe])) (latestAnswer (_ ++ [probe]))
      rw [latestHealth_concat, latestAnswer_concat]
    · rw [if_neg h, List.filter_singleton, decide_eq_false h]
      show _ = Endpoint.mk (latestHealth (_ ++ [])) (latestAnswer (_ ++ []))
      rw [List.append_nil]

theorem mem_workers_noteAll (m : Monitor) (probes : List (Time × Flight)) (worker : Address) :
    worker ∈ (m.noteAll probes).workers ↔
      worker ∈ m.workers ∨ probes.filter (·.2.worker = worker) ≠ [] := by
  induction probes using List.reverseRecOn with
  | nil => simp [noteAll]
  | append_singleton probes probe ih =>
    rw [noteAll_concat, mem_workers_note, ih, List.filter_append, List.filter_singleton]
    by_cases h : probe.2.worker = worker
    · simp [h]
    · simp [h, Ne.symm h]

/-- The notices about a worker come by turns, and the last of them tells its health. -/
structure TakesTurns (m : Monitor) (worker : Address) : Prop where
  turns : m.lines worker = alternation worker (m.lines worker).length
  parity : (m.lines worker).length % 2 = 1 ↔ (m.endpoint worker).health = .alive

-- A line of the other kind is added when the health changes.
theorem TakesTurns.add {m m' : Monitor} {worker : Address} (h : m.TakesTurns worker) {answered : Bool}
    (hchange : (m.endpoint worker).health ≠ .ofProbe answered)
    (hlines : m'.lines worker = m.lines worker ++ [if answered then .alive worker else .unresponsive worker])
    (hhealth : (m'.endpoint worker).health = .ofProbe answered) : m'.TakesTurns worker := by
  have hparity := h.parity
  have hlength : (m'.lines worker).length = (m.lines worker).length + 1 := by
    rw [hlines, List.length_append, List.length_singleton]
  cases answered with
  | true =>
    have heven : (m.lines worker).length % 2 = 0 := by
      have hodd : ¬(m.lines worker).length % 2 = 1 := fun hodd => hchange (hparity.1 hodd)
      omega
    constructor
    · rw [hlength, alternation_succ, ← h.turns, if_pos heven]
      exact hlines
    · rw [hlength]
      exact iff_of_true (by omega) hhealth
  | false =>
    have hodd : (m.lines worker).length % 2 = 1 := by
      apply hparity.2
      cases hbefore : (m.endpoint worker).health with
      | alive => rfl
      | unresponsive => exact absurd hbefore hchange
    constructor
    · rw [hlength, alternation_succ, ← h.turns, if_neg (by omega)]
      exact hlines
    · rw [hlength, hhealth]
      exact iff_of_false (by omega) (by decide)

theorem TakesTurns.note {m : Monitor} {worker : Address} (h : m.TakesTurns worker) (now : Time)
    (probed : Address) (answered : Bool) : (m.note now probed answered).TakesTurns worker := by
  have hlines := m.lines_note now probed worker answered
  have hendpoint := m.endpoint_note now probed worker answered
  split at hlines
  · rename_i hnews
    obtain ⟨rfl, hchange⟩ := hnews
    apply h.add hchange hlines
    rw [hendpoint, if_pos rfl]
  · rename_i hsame
    rw [List.append_nil] at hlines
    have hhealth : ((m.note now probed answered).endpoint worker).health = (m.endpoint worker).health := by
      rw [hendpoint]
      split
      · rename_i hworker
        simp only [hworker, true_and, ne_eq, not_not] at hsame
        exact hsame.symm
      · rfl
    constructor
    · rw [hlines]
      exact h.turns
    · rw [hlines, hhealth]
      exact h.parity

theorem takesTurns_noteAll (workers : List Address) (probes : List (Time × Flight)) (worker : Address) :
    ((ofWorkers workers).noteAll probes).TakesTurns worker := by
  induction probes using List.reverseRecOn with
  | nil =>
    constructor
    · rfl
    · rw [noteAll, List.foldl_nil, endpoint_ofWorkers]
      simp [lines, ofWorkers]
  | append_singleton probes probe ih =>
    rw [noteAll_concat]
    exact ih.note _ _ _

theorem isAlive_iff (m : Monitor) (worker : Address) :
    m.IsAlive worker ↔ (m.endpoint worker).health = .alive := by
  constructor
  · rintro ⟨e, he, halive⟩
    rwa [endpoint_of_getElem? he]
  · intro halive
    cases he : m.endpoints[worker]? with
    | some e =>
      rw [endpoint_of_getElem? he] at halive
      exact ⟨e, he, halive⟩
    | none =>
      rw [endpoint, Std.ExtTreeMap.getD_eq_getD_getElem?, he] at halive
      cases halive

end Monitor

namespace Watch

/-! ## 3. Probes in a history -/

/-- The probes that have begun. -/
def begun (timeout : Time) (past : List Happening) : List Flight :=
  past.filterMap fun
    | .asked now source worker fate =>
      some ⟨worker, now + fate.duration timeout, fate.answered timeout, source⟩
    | _ => none

/-- The probes that are over: they have ended, or they were given up. -/
def closed (past : List Happening) : List Flight :=
  past.filterMap fun
    | .ended _ flight => some flight
    | .givenUp flight => some flight
    | .asked .. => none

section

variable {allowed : Act → Prop} {w₀ w : Watch} {past : List Happening}

theorem endings_concat (past : List Happening) (time : Time) (flight : Flight) :
    endings (past ++ [.ended time flight]) = endings past ++ [(time, flight)] :=
  endings_append ..

theorem endings_append_asks (past : List Happening) (w : Watch) (source : Nat) (workers : List Address) :
    endings (past ++ w.asks source workers) = endings past := by
  simp [endings, asks]

theorem endings_append_happens (past : List Happening) (w : Watch) (a : Act) :
    endings (past ++ w.happens a) = endings past := by
  cases a with
  | probe workers => exact endings_append_asks past w _ workers
  | stop source => simp [endings, happens]
  | setPing | startLoop => simp [happens]

-- Nothing but a probe that ends changes a monitor.
theorem Unfolds.monitor_eq (h : Unfolds allowed w₀ past w) :
    w.monitor = w₀.monitor.noteAll (endings past) := by
  induction h with
  | start => rfl
  | @ends past w _ f _ _ ih =>
    rw [endings_concat, Monitor.noteAll_concat, ← ih]
    rfl
  | round _ _ _ _ ih =>
    rw [endings_append_asks]
    exact ih
  | passes _ _ ih => exact ih
  | acts _ _ ih =>
    rw [endings_append_happens, (act_eq _ _).2.1]
    exact ih

theorem Unfolds.now_le (h : Unfolds allowed w₀ past w) :
    w₀.now ≤ w.now ∧ ∀ probe ∈ endings past, w₀.now ≤ probe.1 ∧ probe.1 ≤ w.now := by
  induction h with
  | start => exact ⟨Nat.le_refl _, fun _ h => nomatch h⟩
  | @ends past w _ f _ _ ih =>
    refine ⟨ih.1, ?_⟩
    intro probe hprobe
    rw [endings_concat, List.mem_append, List.mem_singleton] at hprobe
    rcases hprobe with hprobe | rfl
    · exact ih.2 probe hprobe
    · exact ⟨ih.1, Nat.le_refl _⟩
  | round _ _ _ _ ih =>
    rw [endings_append_asks]
    exact ih
  | passes _ _ ih =>
    exact ⟨Nat.le_succ_of_le ih.1, fun probe hprobe =>
      ⟨(ih.2 probe hprobe).1, Nat.le_succ_of_le (ih.2 probe hprobe).2⟩⟩
  | acts _ _ ih =>
    rw [endings_append_happens, (act_eq _ _).1]
    exact ih

-- A probe ends when it has to.
theorem Orderly.punctual (h₀ : w₀.Orderly) (h : Unfolds allowed w₀ past w) :
    ∀ probe ∈ endings past, probe.1 = probe.2.ends := by
  induction h with
  | start => exact fun _ h => nomatch h
  | @ends past w h f hf hdue ih =>
    intro probe hprobe
    rw [endings_concat, List.mem_append, List.mem_singleton] at hprobe
    rcases hprobe with hprobe | rfl
    · exact ih probe hprobe
    · exact Nat.le_antisymm ((h₀.unfolds h).inTime f hf) hdue
  | round _ _ _ _ ih =>
    rw [endings_append_asks]
    exact ih
  | passes _ _ ih => exact ih
  | acts _ _ ih =>
    rw [endings_append_happens]
    exact ih

theorem begun_append (timeout : Time) (past more : List Happening) :
    begun timeout (past ++ more) = begun timeout past ++ begun timeout more :=
  List.filterMap_append

theorem closed_append (past more : List Happening) : closed (past ++ more) = closed past ++ closed more :=
  List.filterMap_append

section

variable {timeout : Time} (h : (begun timeout past).Perm (closed past ++ w.prober.flights))

include h

-- Probes that begin come to those under way.
theorem accounts_asks {source : Nat} {workers : List Address} (htimeout : w.prober.timeout = timeout) :
    (begun timeout (past ++ w.asks source workers)).Perm (closed (past ++ w.asks source workers) ++
      (w.prober.flights ++ workers.map fun worker => w.prober.flight w.now source worker (w.fate worker))) := by
  subst htimeout
  have hbegun : begun w.prober.timeout (w.asks source workers) =
      workers.map fun worker => w.prober.flight w.now source worker (w.fate worker) := by
    simp [begun, asks, Prober.flight]
  have hclosed : closed (w.asks source workers) = [] := by simp [closed, asks]
  rw [begun_append, closed_append, hbegun, hclosed, List.append_nil, ← List.append_assoc]
  exact h.append_right _

-- A probe that ends is not under way any more.
theorem accounts_finish {f : Flight} (hf : f ∈ w.prober.flights) :
    (begun timeout (past ++ [.ended w.now f])).Perm
      (closed (past ++ [.ended w.now f]) ++ (w.finish f).prober.flights) := by
  rw [begun_append, closed_append]
  show (begun timeout past ++ []).Perm (closed past ++ [f] ++ w.prober.flights.erase f)
  rw [List.append_nil, List.append_assoc]
  exact h.trans ((List.perm_cons_erase hf).append_left _)

theorem accounts_stop (source : Nat) :
    (begun timeout (past ++ w.happens (.stop source))).Perm
      (closed (past ++ w.happens (.stop source)) ++ (w.act (.stop source)).prober.flights) := by
  generalize hgone : w.prober.flights.filter (·.source = source) = gone
  have hbegun : begun timeout (gone.map .givenUp) = [] := by simp [begun]
  have hclosed : closed (gone.map .givenUp) = gone := by simp [closed, List.filterMap_map]
  have hsplit : (gone ++ w.prober.flights.filter (·.source ≠ source)).Perm w.prober.flights := by
    rw [← hgone]
    simpa only [ne_eq, decide_not] using List.filter_append_perm (fun f : Flight => decide (f.source = source)) _
  rw [begun_append, closed_append, happens, hgone, hbegun, hclosed, List.append_nil, List.append_assoc]
  exact h.trans (hsplit.symm.append_left _)

end

-- Every probe that has begun has ended, was given up, or is under way.
theorem Unfolds.accounts (h : Unfolds allowed w₀ past w) (hnone : w₀.prober.flights = []) :
    (begun w₀.prober.timeout past).Perm (closed past ++ w.prober.flights) := by
  induction h with
  | start => rw [hnone]; exact .refl _
  | ends _ hf _ ih => exact accounts_finish ih hf
  | round h _ _ _ ih =>
    rw [flights_beginRound]
    exact accounts_asks ih h.timeout_eq
  | passes _ _ ih => exact ih
  | @acts past w h a _ ih =>
    cases a with
    | setPing => simpa only [happens, act, setPing, List.append_nil] using ih
    | probe workers =>
      rw [flights_probe]
      exact accounts_asks ih h.timeout_eq
    | startLoop =>
      rw [flights_startLoop]
      simpa only [happens, List.append_nil] using ih
    | stop source => exact accounts_stop ih source

end

/-! ## 4. What is remembered -/

/-- What the watch remembers of its workers after a history that began when it was told of some of them. What a probe
has found out is what became of its ping, and a probe that was given up leaves nothing behind. -/
structure Remembers (workers : List Address) (past : List Happening) (w : Watch) : Prop where
  /-- A worker is known from the start, or from the first probe that has ended. -/
  known : ∀ a, a ∈ w.monitor.workers ↔ a ∈ workers ∨ endingsOf a past ≠ []
  health : ∀ (a : Address) (e : Endpoint), w.monitor.endpoints[a]? = some e →
    e.health = latestHealth (endingsOf a past)
  lastProbe : ∀ (a : Address) (e : Endpoint), w.monitor.endpoints[a]? = some e →
    e.lastProbe = latestAnswer (endingsOf a past)
  inPast : ∀ (a : Address) (e : Endpoint) t, w.monitor.endpoints[a]? = some e →
    e.lastProbe = some t → t ≤ w.now
  answered : ∀ (a : Address) (e : Endpoint), w.monitor.endpoints[a]? = some e →
    e.health = .alive → e.lastProbe.isSome
  /-- The notices about a worker come by turns, and the first says that it is alive. -/
  turns : ∀ a, w.monitor.lines a = Monitor.alternation a (w.monitor.lines a).length
  lastLine : ∀ a, w.monitor.IsAlive a ↔ (w.monitor.lines a).getLast? = some (.alive a)
  ascending : w.monitor.alive.Pairwise fun a b => compare a b = .lt
  alive : ∀ a, a ∈ w.monitor.alive ↔ w.monitor.IsAlive a
  /-- Every probe that has begun is over, or it is under way. -/
  accounts : (begun w.prober.timeout past).Perm (closed past ++ w.prober.flights)
  punctual : ∀ t f, .ended t f ∈ past → t = f.ends

/-- No worker is forgotten, and no success is dated back. -/
def Keeps (w w' : Watch) : Prop :=
  ∀ (a : Address) (e : Endpoint), w.monitor.endpoints[a]? = some e →
    ∃ e' : Endpoint, w'.monitor.endpoints[a]? = some e' ∧
      ∀ t, e.lastProbe = some t → ∃ t', e'.lastProbe = some t' ∧ t ≤ t'

theorem remembers_of_unfolds {workers : List Address} {interval timeout : Time} {allowed : Act → Prop}
    {past : List Happening} {w : Watch} (h : Unfolds allowed (start workers interval timeout) past w) :
    Remembers workers past w := by
  have hmonitor : w.monitor = (Monitor.ofWorkers workers).noteAll (endings past) := h.monitor_eq
  have hendpoint : ∀ (a : Address) (e : Endpoint), w.monitor.endpoints[a]? = some e →
      e = ⟨latestHealth (endingsOf a past), latestAnswer (endingsOf a past)⟩ := by
    intro a e he
    rw [← Monitor.endpoint_of_getElem? he, hmonitor]
    exact Monitor.endpoint_noteAll workers (endings past) a
  have hturns : ∀ a, w.monitor.TakesTurns a := by
    rw [hmonitor]
    exact Monitor.takesTurns_noteAll workers (endings past)
  constructor
  · intro a
    rw [hmonitor, Monitor.mem_workers_noteAll, Monitor.mem_workers_ofWorkers]
    exact Iff.rfl
  · intro a e he
    rw [hendpoint a e he]
  · intro a e he
    rw [hendpoint a e he]
  · intro a e t he ht
    rw [hendpoint a e he] at ht
    obtain ⟨probe, hprobe, rfl⟩ := exists_of_latestAnswer ht
    exact (h.now_le.2 probe (List.mem_of_mem_filter hprobe)).2
  · intro a e he halive
    rw [hendpoint a e he] at halive ⊢
    exact latestAnswer_isSome halive
  · exact fun a => (hturns a).turns
  · intro a
    rw [Monitor.isAlive_iff, ← (hturns a).parity, (hturns a).turns, Monitor.getLast?_alternation_eq_alive,
      ← (hturns a).turns]
  · exact w.monitor.alive_ascending
  · exact fun a => Monitor.mem_alive
  · rw [h.timeout_eq]
    exact h.accounts rfl
  · intro t f hmem
    have hidle : IsIdle (start workers interval timeout) := ⟨rfl, rfl⟩
    exact hidle.orderly.punctual h (t, f) (mem_endings.2 hmem)

theorem keeps_of_unfolds {workers : List Address} {interval timeout : Time} {allowed : Act → Prop}
    {past more : List Happening} {w w' : Watch} (h : Unfolds allowed (start workers interval timeout) past w)
    (hmore : Unfolds allowed w more w') : w.Keeps w' := by
  intro a e he
  have hold := remembers_of_unfolds h
  have hnew := remembers_of_unfolds (h.trans hmore)
  have hknown : a ∈ w'.monitor.workers := by
    rw [hnew.known, endingsOf_append, ne_eq, List.append_eq_nil_iff, not_and_or, ← or_assoc]
    exact .inl ((hold.known a).1 (Monitor.mem_workers_iff.2 ⟨e, he⟩))
  obtain ⟨e', he'⟩ := Monitor.mem_workers_iff.1 hknown
  refine ⟨e', he', ?_⟩
  intro t ht
  rw [hnew.lastProbe a e' he', endingsOf_append, latestAnswer_append, ← hold.lastProbe a e he, ht]
  cases hlatest : latestAnswer (endingsOf a more) with
  | none => exact ⟨t, rfl, Nat.le_refl t⟩
  | some t' =>
    obtain ⟨probe, hprobe, rfl⟩ := exists_of_latestAnswer hlatest
    refine ⟨probe.1, rfl, ?_⟩
    have hpast := hold.inPast a e t he ht
    have hlater := (hmore.now_le.2 probe (List.mem_of_mem_filter hprobe)).1
    exact Nat.le_trans hpast hlater

/-- Whatever is done with a watch, and in whatever order things of one moment happen, its monitor remembers of
every worker what the probes of this worker that ran to their end have found out, and it only adds to what it
remembers. -/
theorem monitor_remembers_probes (workers : List Address) (interval timeout : Time) :
    let w₀ := start workers interval timeout
    (∀ past w, Unfolds (fun _ => True) w₀ past w →
      Remembers workers past w ∧ ∀ more w', Unfolds (fun _ => True) w more w' → w.Keeps w') ∧
    ∀ ops more, Remembers workers (w₀.trace ops) (w₀.after ops) ∧
      (w₀.after ops).Keeps (w₀.after (ops ++ more)) := by
  intro w₀
  have hremembers : ∀ past w, Unfolds (fun _ => True) w₀ past w →
      Remembers workers past w ∧ ∀ more w', Unfolds (fun _ => True) w more w' → w.Keeps w' :=
    fun past w h => ⟨remembers_of_unfolds h, fun more w' hmore => keeps_of_unfolds h hmore⟩
  refine ⟨hremembers, ?_⟩
  intro ops more
  have hidle : w₀.IsIdle := ⟨rfl, rfl⟩
  have hpast := hidle.orderly.unfolds_after_of_all ops
  have hmore := (hidle.orderly.unfolds hpast).unfolds_after_of_all more
  obtain ⟨hremember, hkeeps⟩ := hremembers _ _ hpast
  rw [after_append]
  exact ⟨hremember, hkeeps _ _ hmore⟩

/-- A worker answers a probe, and then a loop is stopped before its probe of this worker has ended. Later the
worker does not answer any more. -/
theorem stopped_loop_is_not_remembered :
    let w₀ := start [.loopback 1] 20 50
    let ops : List Op := [.act (.setPing (.loopback 1) (.answers 5)), .probeOne (.loopback 1),
      .act (.setPing (.loopback 1) .silent), .runLoop 30, .probeOne (.loopback 2)]
    let more : List Op := [.probeKnown]
    Unfolds (fun _ => True) w₀ (w₀.trace ops) (w₀.after ops) ∧
      Remembers [.loopback 1] (w₀.trace ops) (w₀.after ops) ∧
      endingsOf (.loopback 1) (w₀.trace ops) = [(5, ⟨.loopback 1, 5, true, 0⟩)] ∧
      .givenUp ⟨.loopback 1, 55, false, 1⟩ ∈ w₀.trace ops ∧
      (w₀.after ops).monitor.endpoints[Address.loopback 1]? = some ⟨.alive, some 5⟩ ∧
      (w₀.after ops).Keeps (w₀.after (ops ++ more)) ∧
      (w₀.after (ops ++ more)).monitor.endpoints[Address.loopback 1]? = some ⟨.unresponsive, some 5⟩ := by
  intro w₀ ops more
  have hidle : w₀.IsIdle := ⟨rfl, rfl⟩
  have hpast := hidle.orderly.unfolds_after_of_all ops
  have hmore := (hidle.orderly.unfolds hpast).unfolds_after_of_all more
  obtain ⟨hremember, hkeeps⟩ := (monitor_remembers_probes [.loopback 1] 20 50).1 _ _ hpast
  refine ⟨hpast, hremember, by decide +kernel, by decide +kernel, by decide +kernel, ?_, by decide +kernel⟩
  rw [after_append]
  exact hkeeps _ _ hmore

end Watch
end Foreman
