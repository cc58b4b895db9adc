import Foreman.Proofs.Dispatches
import Foreman.Proofs.Grouping

/-!
# Scheduling passes

A pass makes one dispatch after the other until there is nothing left to dispatch. Every dispatch uses up the
first task that is ready and one of the workers that are free, and makes no other ready or free. So a pass
ends, and when it does, either the tasks or the workers are used up (`pass_uses_up_tasks_or_workers`).
-/

namespace Foreman

namespace Coordinator

/-! ## 1. One dispatch after the other -/

/-- Dispatches of the kind, one after the other, until there is nothing to dispatch. -/
inductive Drains (kind : Kind) : Coordinator → List TaskId → Coordinator → Prop
  | stops {c c' : Coordinator} (h : c.dispatchOne kind = .ok (none, c')) : Drains kind c [] c'
  | goesOn {c c' c'' : Coordinator} {id : TaskId} {ids : List TaskId}
      (h : c.dispatchOne kind = .ok (some id, c')) (rest : Drains kind c' ids c'') :
      Drains kind c (id :: ids) c''

section

variable {kind : Kind} {c c' : Coordinator} {ids : List TaskId}

theorem Drains.unique (h : Drains kind c ids c') {others : List TaskId} {other : Coordinator}
    (h' : Drains kind c others other) : others = ids ∧ other = c' := by
  induction h generalizing others with
  | stops hone =>
    cases h' with
    | stops hone' =>
      cases hone.symm.trans hone'
      exact ⟨rfl, rfl⟩
    | goesOn hone' => cases hone.symm.trans hone'
  | goesOn hone _ ih =>
    cases h' with
    | stops hone' => cases hone.symm.trans hone'
    | goesOn hone' rest' =>
      cases hone.symm.trans hone'
      obtain ⟨rfl, rfl⟩ := ih rest'
      exact ⟨rfl, rfl⟩

theorem eq_of_dispatchOne_eq_none (h : c.dispatchOne kind = .ok (none, c')) : c' = c := by
  rcases c.dispatchOne_cases kind with ⟨_, hone⟩ | ⟨_, _, _, _, _, _, _, _, hone⟩
  · cases hone.symm.trans h
    rfl
  · cases hone.symm.trans h

-- A pass with a limit is a full one if the limit allows for as many dispatches.
theorem Drains.dispatchUpTo_eq (h : Drains kind c ids c') {limit : Nat} (hlimit : ids.length ≤ limit) :
    c.dispatchUpTo kind limit = .ok (ids, c') := by
  induction h generalizing limit with
  | stops hone =>
    cases limit with
    | zero =>
      rw [eq_of_dispatchOne_eq_none hone]
      rfl
    | succ limit =>
      unfold dispatchUpTo
      rw [hone]
  | goesOn hone _ ih =>
    cases limit with
    | zero => cases hlimit
    | succ limit =>
      unfold dispatchUpTo
      rw [hone]
      dsimp only
      rw [ih (Nat.le_of_succ_le_succ hlimit)]

end

/-! ## 2. What a dispatch leaves to the next one -/

section

variable {c : Coordinator} {kind : Kind} {id : TaskId} {task : Task} {worker : Address}

theorem isFree_hand {w : Address} :
    (c.hand id task worker).ledger.IsFree c.monitor w ↔ w ≠ worker ∧ c.ledger.IsFree c.monitor w := by
  have hget : (c.hand id task worker).ledger.reserved[w]? =
      if worker = w then some id else c.ledger.reserved[w]? := by
    show (c.ledger.reserved.insert worker id)[w]? = _
    rw [Std.ExtTreeMap.getElem?_insert]
    simp only [Std.LawfulEqCmp.compare_eq_iff_eq]
  unfold Ledger.IsFree
  rw [hget, and_left_comm]
  refine and_congr_right fun _ => ?_
  by_cases hw : worker = w
  · rw [if_pos hw]
    exact iff_of_false (fun h => nomatch h) fun h => h.1 hw.symm
  · rw [if_neg hw]
    exact (and_iff_right (Ne.symm hw)).symm

theorem free_nodup (c : Coordinator) : (c.ledger.free c.monitor.alive).Nodup := by
  refine (c.ledger.free_ascending c.monitor).imp ?_
  rintro w _ hlt rfl
  have hself : compare w w = .eq := Std.ReflCmp.compare_self
  rw [hself] at hlt
  cases hlt

theorem length_free_hand (hfree : worker ∈ c.ledger.free c.monitor.alive) :
    ((c.hand id task worker).ledger.free c.monitor.alive).length + 1 =
      (c.ledger.free c.monitor.alive).length := by
  have hnodup : ((c.hand id task worker).ledger.free c.monitor.alive).Nodup :=
    (c.hand id task worker).free_nodup
  have hperm : ((c.hand id task worker).ledger.free c.monitor.alive).Perm
      ((c.ledger.free c.monitor.alive).erase worker) := by
    rw [List.perm_ext_iff_of_nodup hnodup (c.free_nodup.erase worker)]
    intro w
    rw [c.free_nodup.mem_erase_iff, Ledger.mem_free_alive, Ledger.mem_free_alive]
    exact isFree_hand
  rw [hperm.length_eq, List.length_erase_add_one hfree]

variable (htask : c.ledger.tasks.get? id = some task)

include htask

theorem isReady_hand {other : TaskId} :
    (c.hand id task worker).ledger.IsReady c.now kind other ↔
      other ≠ id ∧ c.ledger.IsReady c.now kind other := by
  by_cases hid : other = id
  · subst hid
    refine iff_of_false ?_ fun h => h.1 rfl
    rintro ⟨_, hpending, _⟩
    exact absurd ((TaskTable.isPending_iff (get?_hand htask)).1 hpending) Bool.false_ne_true
  · have hpending : (c.hand id task worker).ledger.tasks.IsPending other ↔
        c.ledger.tasks.IsPending other := TaskTable.isPending_set_of_ne hid _
    have hheld : (c.hand id task worker).ledger.heldBack[other]? = c.ledger.heldBack[other]? := by
      show (c.ledger.heldBack.erase id)[other]? = _
      rw [Std.ExtTreeMap.getElem?_erase,
        if_neg (mt Std.LawfulEqCmp.compare_eq_iff_eq.1 (Ne.symm hid))]
    unfold Ledger.IsReady
    rw [hpending, hheld]
    exact (and_iff_right hid).symm

theorem ready_hand {rest : List TaskId} (hready : c.ledger.ready c.now kind = id :: rest) :
    (c.hand id task worker).ledger.ready c.now kind = rest := by
  have hascending := c.ledger.ready_ascending c.now kind
  rw [hready] at hascending
  obtain ⟨hfirst, hrest⟩ := List.pairwise_cons.1 hascending
  refine eq_of_ascending TaskId.index (Ledger.ready_ascending _ _ _) hrest ?_
  intro other
  rw [Ledger.mem_ready_iff, isReady_hand htask, ← Ledger.mem_ready_iff, hready, List.mem_cons]
  constructor
  · intro ⟨hne, hmem⟩
    exact hmem.resolve_left hne
  · intro hmem
    refine ⟨?_, .inr hmem⟩
    rintro rfl
    exact Nat.lt_irrefl _ (hfirst other hmem)

end

/-! ## 3. Passes -/

/-- The calls of a pass, and the coordinator after it. There are as many calls as there were tasks that were
ready or workers that were free, whichever are fewer. They are about the first tasks, in their order, and each
goes to a worker of its own that was free. No task is ready afterwards while a worker is free. -/
structure Serves (c : Coordinator) (kind : Kind) (made : List Call) (c' : Coordinator) : Prop where
  length : made.length =
    min (c.ledger.ready c.now kind).length (c.ledger.free c.monitor.alive).length
  tasks : made.map Call.task = (c.ledger.ready c.now kind).take made.length
  workers : (made.map Call.worker).Nodup
  free : ∀ call ∈ made, c.ledger.IsFree c.monitor call.worker
  calls : c'.calls = c.calls ++ made
  spent : ∀ id worker, c'.ledger.IsReady c'.now kind id → ¬ c'.ledger.IsFree c'.monitor worker
  /-- Nothing changes but the books and the calls. -/
  rest : c' = { c with ledger := c'.ledger, calls := c'.calls }

section

variable {c c' : Coordinator} {kind : Kind}

theorem serves_nil (hkind : c.phase.kind = some kind)
    (hidle : c.phase.kind ≠ some kind ∨ c.ledger.ready c.now kind = [] ∨
      c.ledger.free c.monitor.alive = []) : c.Serves kind [] c := by
  have hused := hidle.resolve_left (not_not_intro hkind)
  refine ⟨?_, rfl, .nil, nofun, (List.append_nil _).symm, ?_, rfl⟩
  · rcases hused with hnil | hnil
    · rw [hnil]
      exact (Nat.zero_min _).symm
    · rw [hnil]
      exact (Nat.min_zero _).symm
  · intro id worker hready hfree
    rw [← Ledger.mem_ready_iff] at hready
    rw [← Ledger.mem_free_alive] at hfree
    rcases hused with hnil | hnil
    · rw [hnil] at hready
      cases hready
    · rw [hnil] at hfree
      cases hfree

theorem Serves.cons {id : TaskId} {rest : List TaskId} {task : Task} {worker : Address}
    {made : List Call} (hready : c.ledger.ready c.now kind = id :: rest)
    (htask : c.ledger.tasks.get? id = some task) (hfree : worker ∈ c.ledger.free c.monitor.alive)
    (h : (c.hand id task worker).Serves kind made c') :
    c.Serves kind (Ledger.callFor c.job c.config c.now id task worker :: made) c' := by
  have hrest : (c.hand id task worker).ledger.ready c.now kind = rest := ready_hand htask hready
  refine ⟨?_, ?_, ?_, ?_, ?_, h.spent, h.rest⟩
  · have hlength := h.length
    change _ = min ((c.hand id task worker).ledger.ready c.now kind).length
      ((c.hand id task worker).ledger.free c.monitor.alive).length at hlength
    have hworkers : ((c.hand id task worker).ledger.free c.monitor.alive).length + 1 =
        (c.ledger.free c.monitor.alive).length := length_free_hand hfree
    rw [hrest] at hlength
    rw [hready, List.length_cons, List.length_cons]
    omega
  · have htasks := h.tasks
    change _ = ((c.hand id task worker).ledger.ready c.now kind).take _ at htasks
    rw [hrest] at htasks
    rw [hready, List.map_cons, List.length_cons, List.take_succ_cons, htasks]
    rfl
  · rw [List.map_cons, List.nodup_cons]
    refine ⟨?_, h.workers⟩
    intro hmem
    obtain ⟨call, hcall, hworker⟩ := List.mem_map.1 hmem
    exact (isFree_hand.1 (h.free call hcall)).1 hworker
  · intro call hcall
    rcases List.mem_cons.1 hcall with rfl | hcall
    · exact Ledger.mem_free_alive.1 hfree
    · exact (isFree_hand.1 (h.free call hcall)).2
  · rw [h.calls]
    exact List.append_assoc _ _ _

-- Every dispatch shortens the list of the tasks that are ready, so there is a last one.
theorem exists_drains (hkind : c.phase.kind = some kind) :
    ∃ made c', c.Drains kind (made.map Call.task) c' ∧ c.Serves kind made c' := by
  generalize hready : c.ledger.ready c.now kind = ready
  induction ready generalizing c with
  | nil =>
    have hidle : c.phase.kind ≠ some kind ∨ c.ledger.ready c.now kind = [] ∨
        c.ledger.free c.monitor.alive = [] := .inr (.inl hready)
    rcases c.dispatchOne_cases kind with ⟨_, hone⟩ | ⟨_, _, _, _, _, hcons, _⟩
    · exact ⟨[], c, .stops hone, serves_nil hkind hidle⟩
    · cases hready.symm.trans hcons
  | cons first ready ih =>
    rcases c.dispatchOne_cases kind with
      ⟨hidle, hone⟩ | ⟨id, rest, task, worker, _, hcons, htask, hworker, hone⟩
    · exact ⟨[], c, .stops hone, serves_nil hkind hidle⟩
    · cases hready.symm.trans hcons
      obtain ⟨made, c', hdrains, hserves⟩ :=
        ih (c := c.hand first task worker) hkind (ready_hand htask hready)
      have hfree := Ledger.mem_of_preferred_eq_some hworker
      exact ⟨_ :: made, c', .goesOn hone hdrains, hserves.cons hready htask hfree⟩

end

/-- In the phase of the kind a pass, which dispatches until nothing is left to dispatch, comes to an end, and
in one way only. It makes as many dispatches as there are tasks that are ready or workers that are free,
whichever are fewer; the limit on dispatches in a pass is never in the way. -/
theorem pass_uses_up_tasks_or_workers {c : Coordinator} {kind : Kind}
    (h : c.phase.kind = some kind) :
    let ready := c.ledger.ready c.now kind
    let free := c.ledger.free c.monitor.alive
    ((∀ id, id ∈ ready ↔ c.ledger.IsReady c.now kind id) ∧
      ready.Pairwise fun a b => a.index < b.index) ∧
    ((∀ worker, worker ∈ free ↔ c.ledger.IsFree c.monitor worker) ∧ free.Nodup) ∧
    ∃ made c', c.Serves kind made c' ∧
      (∀ ids end', c.Drains kind ids end' ↔ ids = made.map Call.task ∧ end' = c') ∧
      c.dispatchPass kind = .ok (made.map Call.task, c') := by
  intro ready free
  obtain ⟨made, c', hdrains, hserves⟩ := exists_drains h
  refine ⟨⟨fun _ => Ledger.mem_ready_iff, c.ledger.ready_ascending c.now kind⟩,
    ⟨fun _ => Ledger.mem_free_alive, c.free_nodup⟩, made, c', hserves, ?_, ?_⟩
  · intro ids end'
    constructor
    · exact fun h' => hdrains.unique h'
    · rintro ⟨rfl, rfl⟩
      exact hdrains
  · apply hdrains.dispatchUpTo_eq
    rw [List.length_map, hserves.length]
    exact Nat.le_trans (Nat.min_le_right _ _) (List.length_filter_le _ _)

/-- A map task has just failed, so it is held back while both workers are free. The only dispatch of the pass
is of the other map task, to the worker that answered with the failure. -/
theorem pass_goes_past_failed_task :
    let c := pairStart.steps [.probed (.loopback 1) true, .probed (.loopback 2) true,
      .dispatch .map [.loopback 1], .answer 0 (.error (.refused (.loopback 1)))]
    c.phase.kind = some .map ∧ c.ledger.free c.monitor.alive = [.loopback 1, .loopback 2] ∧
      ∃ c', (∀ ids end', c.Drains .map ids end' ↔ ids = [⟨.map, 1⟩] ∧ end' = c') ∧
        c'.calls.map Call.worker = [.loopback 1, .loopback 1] := by
  intro c
  have hkind : c.phase.kind = some .map := by decide +kernel
  obtain ⟨_, _, made, c', _, hdrains, hpass⟩ := pass_uses_up_tasks_or_workers hkind
  have hids : (c.dispatchPass .map).map Prod.fst = .ok [⟨.map, 1⟩] := by decide +kernel
  have hcalls : (c.dispatchPass .map).map (fun end' => end'.2.calls.map Call.worker) =
      .ok [.loopback 1, .loopback 1] := by
    decide +kernel
  rw [hpass] at hids hcalls
  refine ⟨hkind, by decide +kernel, c', ?_, Except.ok.inj hcalls⟩
  rw [← Except.ok.inj hids]
  exact hdrains

end Coordinator
end Foreman
