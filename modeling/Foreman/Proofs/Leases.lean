import Foreman.Proofs.Moves

/-!
# Leases

Every dispatch of a task comes under a lease of its own. It is in force until the task is taken back under it
or completed, and then it has ended for good: what is asked for under an old lease changes nothing, whatever
the task has been dispatched for since (`leases_end_once`).
-/

namespace Foreman

namespace TaskTable

/-! ## 1. Leases in a journal -/

/-- The lease that an entry of a journal gives for a task. -/
def leaseFor (id : TaskId) : Move × Answer → Option Nat
  | (.dispatch other _ _, .leased lease) => if other = id then some lease else none
  | _ => none

/-- The leases of a task, in the order of its dispatches. -/
def leases (id : TaskId) (past : Journal) : List Nat :=
  past.filterMap (leaseFor id)

/-- The entry completes the task or takes it back. -/
inductive Frees (id : TaskId) : Move × Answer → Prop
  | takesBack {lease : Nat} : Frees id (.takeBack id lease, .decided true)
  | completes {result : TaskResult} : Frees id (.accept id result, .decided true)

/-- The entry, coming after others, ends the lease: the task is taken back under it, or completed while it is
the latest lease of the task. -/
inductive Ends (past : Journal) (id : TaskId) (lease : Nat) : Move × Answer → Prop
  | takesBack : Ends past id lease (.takeBack id lease, .decided true)
  | completes {result : TaskResult} (h : (leases id past).getLast? = some lease) :
      Ends past id lease (.accept id result, .decided true)

/-- The entry of that number ends the lease. -/
def EndsAt (past : Journal) (n : Nat) (id : TaskId) (lease : Nat) : Prop :=
  ∃ e, past[n]? = some e ∧ Ends (past.take n) id lease e

section

variable {past : Journal} {id : TaskId} {lease n : Nat} {e : Move × Answer}

theorem Ends.frees (h : Ends past id lease e) : Frees id e := by
  cases h with
  | takesBack => exact .takesBack
  | completes => exact .completes

theorem leases_concat (id : TaskId) (past : Journal) (e : Move × Answer) :
    leases id (past ++ [e]) = leases id past ++ (leaseFor id e).toList :=
  filterMap_concat _ _ _

theorem leases_concat_of_eq_none (h : leaseFor id e = none) :
    leases id (past ++ [e]) = leases id past := by
  rw [leases_concat, h]
  exact List.append_nil _

theorem getElem?_concat_cases {α : Type} {l : List α} {a b : α} (h : (l ++ [a])[n]? = some b) :
    l[n]? = some b ∧ n < l.length ∨ n = l.length ∧ a = b := by
  rw [List.getElem?_append] at h
  split at h
  · rename_i hlt
    exact .inl ⟨h, hlt⟩
  · rw [List.getElem?_singleton, Option.ite_none_right_eq_some, Option.some.injEq] at h
    exact .inr ⟨by omega, h.2⟩

theorem endsAt_concat : EndsAt (past ++ [e]) n id lease ↔
    EndsAt past n id lease ∨ n = past.length ∧ Ends past id lease e := by
  constructor
  · rintro ⟨found, hfound, hends⟩
    rcases getElem?_concat_cases hfound with ⟨hold, hlt⟩ | ⟨rfl, rfl⟩
    · rw [List.take_append_of_le_length (Nat.le_of_lt hlt)] at hends
      exact .inl ⟨found, hold, hends⟩
    · rw [List.take_left] at hends
      exact .inr ⟨rfl, hends⟩
  · rintro (⟨found, hfound, hends⟩ | ⟨rfl, hends⟩)
    · have hlt := (List.getElem?_eq_some_iff.1 hfound).1
      refine ⟨found, (List.getElem?_append_left hlt).trans hfound, ?_⟩
      rw [List.take_append_of_le_length (Nat.le_of_lt hlt)]
      exact hends
    · refine ⟨e, List.getElem?_concat_length, ?_⟩
      rw [List.take_left]
      exact hends

theorem endsAt_concat_of_not (h : ¬ Ends past id lease e) :
    EndsAt (past ++ [e]) n id lease ↔ EndsAt past n id lease := by
  rw [endsAt_concat]
  exact or_iff_left fun hends => h hends.2

end

/-! ## 2. A task and its leases -/

/-- What a move, with its answer, is to one task, which is given as it is found before and after. -/
inductive Touches (past : Journal) (id : TaskId) (e : Move × Answer) : Option Task → Option Task → Prop
  | stays {found : Option Task} (hlease : leaseFor id e = none) (hfrees : ¬ Frees id e) :
      Touches past id e found found
  | comes {task : Task} (hlease : leaseFor id e = none) (hfrees : ¬ Frees id e)
      (hs : task.status = .pending) (hattempts : task.attempts = 0) :
      Touches past id e none (some task)
  | dispatched {old new : Task} {w : Address} {d : Time}
      (hlease : leaseFor id e = some (old.attempts + 1)) (hfrees : ¬ Frees id e)
      (hold : old.status = .pending) (hnew : new.status = .dispatched w d (old.attempts + 1))
      (hattempts : new.attempts = old.attempts + 1) (hworker : new.lastWorker = some w) :
      Touches past id e (some old) (some new)
  | freed {old new : Task} {w : Address} {d : Time} {lease : Nat} (hlease : leaseFor id e = none)
      (hends : ∀ l, Ends past id l e ↔ l = lease)
      (hold : old.status = .dispatched w d lease) (hnew : ∀ w d l, new.status ≠ .dispatched w d l)
      (hattempts : new.attempts = old.attempts) :
      Touches past id e (some old) (some new)

/-- The task is held under the lease. -/
def HeldUnder (found : Option Task) (lease : Nat) : Prop :=
  ∃ task, found = some task ∧ ∃ w d, task.status = .dispatched w d lease

/-- What the leases of a task, which is given as it is found, have to do with what happened before. -/
structure Leased (past : Journal) (id : TaskId) (found : Option Task) : Prop where
  /-- The leases are the numbers of the attempts. -/
  attempts : leases id past = List.range' 1 (found.elim 0 Task.attempts)
  /-- A task that is dispatched is held under its latest lease, by its last worker. -/
  held : ∀ task w d lease, found = some task → task.status = .dispatched w d lease →
    (leases id past).getLast? = some lease ∧ task.lastWorker = some w
  /-- The leases that have ended are those under which the task is not held. -/
  ended : ∀ lease, (∃ n, EndsAt past n id lease) ↔ lease ∈ leases id past ∧ ¬ HeldUnder found lease
  once : ∀ lease n m, EndsAt past n id lease → EndsAt past m id lease → n = m
  /-- To complete a task or to take it back always ends a lease. -/
  freed : ∀ n e, past[n]? = some e → Frees id e → ∃ lease, EndsAt past n id lease

section

variable {past : Journal} {id : TaskId} {e : Move × Answer} {found : Option Task} {old new : Task}

theorem not_heldUnder (h : ∀ w d l, new.status ≠ .dispatched w d l) (lease : Nat) :
    ¬ HeldUnder (some new) lease := by
  rintro ⟨_, ⟨⟩, w, d, hs⟩
  exact h w d lease hs

theorem heldUnder_iff {w : Address} {d : Time} {lease : Nat} (h : new.status = .dispatched w d lease)
    (l : Nat) : HeldUnder (some new) l ↔ l = lease := by
  constructor
  · rintro ⟨_, ⟨⟩, w', d', hs⟩
    cases h.symm.trans hs
    rfl
  · rintro rfl
    exact ⟨new, rfl, w, d, h⟩

theorem Leased.nil (h : found.elim 0 Task.attempts = 0)
    (hs : ∀ task w d l, found = some task → task.status ≠ .dispatched w d l) :
    Leased [] id found := by
  refine ⟨?_, ?_, ?_, ?_, nofun⟩
  · rw [h]
    rfl
  · exact fun task w d lease hfound hheld => absurd hheld (hs task w d lease hfound)
  · intro lease
    exact iff_of_false nofun nofun
  · exact fun _ _ _ => nofun

-- A lease ends once if it has not ended before the entry that ends it.
theorem Leased.once_concat (h : Leased past id found)
    (hends : ∀ lease n, Ends past id lease e → ¬ EndsAt past n id lease) (lease n m : Nat)
    (hn : EndsAt (past ++ [e]) n id lease) (hm : EndsAt (past ++ [e]) m id lease) : n = m := by
  rw [endsAt_concat] at hn hm
  rcases hn with hn | ⟨rfl, hnew⟩ <;> rcases hm with hm | ⟨rfl, hnew'⟩
  · exact h.once lease n m hn hm
  · exact absurd hn (hends lease n hnew')
  · exact absurd hm (hends lease m hnew)
  · rfl

theorem Leased.freed_concat (h : Leased past id found)
    (hends : Frees id e → ∃ lease, Ends past id lease e) (n : Nat) (other : Move × Answer)
    (hother : (past ++ [e])[n]? = some other) (hfrees : Frees id other) :
    ∃ lease, EndsAt (past ++ [e]) n id lease := by
  rcases getElem?_concat_cases hother with ⟨hold, _⟩ | ⟨rfl, rfl⟩
  · obtain ⟨lease, hlease⟩ := h.freed n other hold hfrees
    exact ⟨lease, endsAt_concat.2 (.inl hlease)⟩
  · obtain ⟨lease, hlease⟩ := hends hfrees
    exact ⟨lease, endsAt_concat.2 (.inr ⟨rfl, hlease⟩)⟩

theorem Leased.stays (h : Leased past id found) (hlease : leaseFor id e = none)
    (hfrees : ¬ Frees id e) : Leased (past ++ [e]) id found := by
  have hleases : leases id (past ++ [e]) = leases id past := leases_concat_of_eq_none hlease
  have hends : ∀ lease, ¬ Ends past id lease e := fun _ => mt Ends.frees hfrees
  refine ⟨?_, ?_, ?_, ?_, ?_⟩
  · rw [hleases]
    exact h.attempts
  · rw [hleases]
    exact h.held
  · intro lease
    simp only [hleases, endsAt_concat_of_not (hends lease)]
    exact h.ended lease
  · exact h.once_concat fun lease _ hnew => absurd hnew (hends lease)
  · exact h.freed_concat fun hnew => absurd hnew hfrees

theorem Leased.comes (h : Leased past id none) (hs : new.status = .pending)
    (hattempts : new.attempts = 0) : Leased past id (some new) := by
  have hnew : ∀ w d l, new.status ≠ .dispatched w d l := by
    rw [hs]
    exact fun _ _ _ => nofun
  refine ⟨?_, ?_, ?_, h.once, h.freed⟩
  · rw [h.attempts, Option.elim_some, hattempts]
    rfl
  · rintro _ w d lease ⟨⟩ hheld
    exact absurd hheld (hnew w d lease)
  · intro lease
    rw [h.ended]
    exact and_congr_right fun _ => iff_of_true nofun (not_heldUnder hnew lease)

theorem Leased.dispatched (h : Leased past id (some old)) {w : Address} {d : Time}
    (hlease : leaseFor id e = some (old.attempts + 1)) (hfrees : ¬ Frees id e)
    (hold : old.status = .pending) (hnew : new.status = .dispatched w d (old.attempts + 1))
    (hattempts : new.attempts = old.attempts + 1) (hworker : new.lastWorker = some w) :
    Leased (past ++ [e]) id (some new) := by
  have hleases : leases id (past ++ [e]) = leases id past ++ [old.attempts + 1] := by
    rw [leases_concat, hlease]
    rfl
  have hends : ∀ lease, ¬ Ends past id lease e := fun _ => mt Ends.frees hfrees
  refine ⟨?_, ?_, ?_, ?_, ?_⟩
  · rw [hleases, h.attempts, Option.elim_some, Option.elim_some, hattempts, List.range'_1_concat,
      Nat.add_comm 1]
  · rintro _ w' d' lease ⟨⟩ hheld
    cases hnew.symm.trans hheld
    rw [hleases]
    exact ⟨List.getLast?_concat, hworker⟩
  · intro lease
    have hpending : ¬ HeldUnder (some old) lease := by
      rintro ⟨_, ⟨⟩, w, d, hs⟩
      cases hold.symm.trans hs
    -- The old leases are all less than the new one.
    have hless : lease ∈ leases id past → lease ≠ old.attempts + 1 := by
      rw [h.attempts, Option.elim_some, List.mem_range'_1]
      omega
    simp only [endsAt_concat_of_not (hends lease)]
    rw [h.ended, heldUnder_iff hnew, hleases, List.mem_append, List.mem_singleton, and_iff_left hpending,
      or_and_right, and_not_self_iff, or_false]
    exact (and_iff_left_of_imp hless).symm
  · exact h.once_concat fun lease _ hnew => absurd hnew (hends lease)
  · exact h.freed_concat fun hnew => absurd hnew hfrees

theorem Leased.frees (h : Leased past id (some old)) {w : Address} {d : Time} {lease : Nat}
    (hlease : leaseFor id e = none) (hends : ∀ l, Ends past id l e ↔ l = lease)
    (hold : old.status = .dispatched w d lease) (hnew : ∀ w d l, new.status ≠ .dispatched w d l)
    (hattempts : new.attempts = old.attempts) : Leased (past ++ [e]) id (some new) := by
  have hleases : leases id (past ++ [e]) = leases id past := leases_concat_of_eq_none hlease
  have hmem : lease ∈ leases id past := List.mem_of_getLast? (h.held old w d lease rfl hold).1
  -- The lease was in force up to now.
  have hnot : ∀ n, ¬ EndsAt past n id lease := by
    intro n hn
    exact ((h.ended lease).1 ⟨n, hn⟩).2 ((heldUnder_iff hold lease).2 rfl)
  refine ⟨?_, ?_, ?_, ?_, ?_⟩
  · rw [hleases, h.attempts, Option.elim_some, Option.elim_some, hattempts]
  · rintro _ w' d' l ⟨⟩ hheld
    exact absurd hheld (hnew w' d' l)
  · intro l
    simp only [endsAt_concat, hends, exists_or, exists_eq_left]
    rw [h.ended, heldUnder_iff hold, hleases, and_iff_left (not_heldUnder hnew l)]
    by_cases hl : l = lease
    · subst hl
      exact iff_of_true (.inr rfl) hmem
    · rw [or_iff_left hl, and_iff_left hl]
  · refine h.once_concat ?_
    intro l n hl
    rw [(hends l).1 hl]
    exact hnot n
  · exact h.freed_concat fun _ => ⟨lease, (hends lease).2 rfl⟩

theorem Leased.touches {after : Option Task} (h : Leased past id found)
    (ht : Touches past id e found after) : Leased (past ++ [e]) id after := by
  cases ht with
  | stays hlease hfrees => exact h.stays hlease hfrees
  | comes hlease hfrees hs hattempts => exact (h.stays hlease hfrees).comes hs hattempts
  | dispatched hlease hfrees hold hnew hattempts hworker =>
    exact h.dispatched hlease hfrees hold hnew hattempts hworker
  | freed hlease hends hold hnew hattempts => exact h.frees hlease hends hold hnew hattempts

end

/-! ## 3. Whole journals -/

section

variable {t : TaskTable} {past : Journal} {id : TaskId} {m : Move} {a : Answer}

theorem leaseFor_of_isRefusal (h : a.isRefusal = true) (id : TaskId) : leaseFor id (m, a) = none := by
  unfold leaseFor
  split
  · rename_i heq
    cases heq
    cases h
  · rfl

theorem not_frees_of_isRefusal (h : a.isRefusal = true) : ¬ Frees id (m, a) := by
  intro hfrees
  cases hfrees <;> cases h

theorem Leased.touches_of_marks (h : Leased past id (t.get? id)) {old new : Task} (hold : t.get? id = some old)
    (hm : Marks id old m a new) : Touches past id (m, a) (some old) (some new) := by
  cases hm with
  | dispatches hs => exact .dispatched (if_pos rfl) nofun hs rfl rfl rfl
  | @completes w d lease result hs =>
    have hlatest := (h.held old w d lease hold hs).1
    refine .freed rfl ?_ hs (fun _ _ _ => nofun) rfl
    intro l
    constructor
    · rintro (_ | hlast)
      exact Option.some.inj (hlast.symm.trans hlatest)
    · rintro rfl
      exact .completes hlatest
  | @takesBack w d lease hs =>
    refine .freed rfl ?_ hs (fun _ _ _ => nofun) rfl
    intro l
    constructor
    · rintro ⟨⟩
      rfl
    · rintro rfl
      exact .takesBack

-- What is done to another task is nothing to this one.
theorem touches_of_ne {other : TaskId} {old new : Task} (hne : other ≠ id) (hm : Marks other old m a new)
    (found : Option Task) : Touches past id (m, a) found found := by
  cases hm with
  | dispatches => exact .stays (if_neg hne) nofun
  | completes | takesBack =>
    refine .stays rfl ?_
    rintro ⟨⟩
    exact hne rfl

theorem Leased.make (h : Leased past id (t.get? id)) (m : Move) :
    Leased (past ++ [(m, (t.make m).1)]) id ((t.make m).2.get? id) := by
  refine h.touches ?_
  rcases t.make_cases m with ⟨a, hmake, hrefuses⟩ | ⟨a, t', hmake, hmakes⟩
  · rw [hmake]
    exact .stays (leaseFor_of_isRefusal hrefuses.isRefusal id) (not_frees_of_isRefusal hrefuses.isRefusal)
  · rw [hmake]
    cases hmakes with
    | @marks marked old new _ _ _ hold hm hset =>
      rw [hset]
      by_cases hid : id = marked
      · subst hid
        rw [if_pos rfl, hold]
        exact h.touches_of_marks hold hm
      · rw [if_neg hid]
        exact touches_of_ne (Ne.symm hid) hm _
    | @adds partitions _ hnone hmaps hreduces =>
      obtain ⟨kind, i⟩ := id
      cases kind with
      | map =>
        rw [hmaps]
        exact .stays rfl nofun
      | reduce =>
        rw [hnone, hreduces]
        cases partitions[i]? with
        | none => exact .stays rfl nofun
        | some p => exact .comes rfl nofun rfl rfl

theorem leased_journal (splits : List String) (moves : List Move) (id : TaskId) :
    Leased ((ofSplits splits).journal moves) id (((ofSplits splits).after moves).get? id) := by
  refine journal_induction (motive := fun past t => Leased past id (t.get? id))
    (fun _ _ m h => h.make m) ?_ moves
  obtain ⟨kind, i⟩ := id
  cases kind with
  | map =>
    rw [get?_ofSplits_map]
    cases splits[i]? with
    | none => exact .nil rfl nofun
    | some path =>
      refine .nil rfl ?_
      rintro _ w d l ⟨⟩
      nofun
  | reduce =>
    rw [get?_ofSplits_reduce]
    exact .nil rfl nofun

theorem Leased.takeBack_iff (h : Leased past id (t.get? id)) (lease : Nat) :
    (∃ t', t.takeBack id lease = .ok (true, t')) ↔
      (∃ task, t.get? id = some task ∧ task.status.stage = .dispatched) ∧
        (leases id past).getLast? = some lease := by
  constructor
  · rintro ⟨t', htakes⟩
    cases htask : t.get? id with
    | none => simp [takeBack, htask] at htakes
    | some task =>
      rw [takeBack_of_get? htask] at htakes
      by_cases hheld : task.heldUnder lease = true
      · obtain ⟨w, d, hs⟩ := (task.heldUnder_eq_true_iff lease).1 hheld
        exact ⟨⟨task, rfl, Task.stage_of_heldUnder hheld⟩, (h.held task w d lease htask hs).1⟩
      · rw [if_neg hheld] at htakes
        cases htakes
  · rintro ⟨⟨task, htask, hstage⟩, hlast⟩
    obtain ⟨w, d, l, hs⟩ := (Status.stage_eq_dispatched_iff _).1 hstage
    cases hlast.symm.trans (h.held task w d l htask hs).1
    rw [takeBack_of_get? htask, if_pos ((task.heldUnder_eq_true_iff _).2 ⟨w, d, hs⟩)]
    exact ⟨_, rfl⟩

theorem Leased.old_lease (h : Leased past id (t.get? id)) {lease : Nat}
    (hlease : (leases id past).getLast? ≠ some lease) :
    (t.make (.takeBack id lease)).1.isRefusal = true ∧ (t.make (.takeBack id lease)).2 = t := by
  rcases t.make_cases (.takeBack id lease) with ⟨a, hmake, hrefuses⟩ | ⟨a, t', hmake, hmakes⟩
  · rw [hmake]
    exact ⟨hrefuses.isRefusal, rfl⟩
  · cases hmakes with
    | marks hold hm _ =>
      cases hm with
      | takesBack hs => exact absurd (h.held _ _ _ lease hold hs).1 hlease

end

/-- Whatever a table has been asked for, the attempts of a task are its dispatches, and the leases of these
were 1, 2, 3 and so on. A task that is dispatched is held under the latest one by its last worker, and can be
taken back under no other: to ask for it under an old lease changes nothing. To complete a task or to take it
back ends a lease. A lease ends once at most, and it has ended just if the task is not held under it. -/
theorem leases_end_once (splits : List String) (moves : List Move) :
    let t := (ofSplits splits).after moves
    let past := (ofSplits splits).journal moves
    ∀ id,
      (leases id past).length = (t.get? id).elim 0 Task.attempts ∧
      leases id past = List.range' 1 (leases id past).length ∧
      (∀ task w d lease, t.get? id = some task → task.status = .dispatched w d lease →
        lease = task.attempts ∧ task.lastWorker = some w) ∧
      (∀ lease, (∃ t', t.takeBack id lease = .ok (true, t')) ↔
        (∃ task, t.get? id = some task ∧ task.status.stage = .dispatched) ∧
          (leases id past).getLast? = some lease) ∧
      (∀ lease, (leases id past).getLast? ≠ some lease →
        (t.make (.takeBack id lease)).1.isRefusal = true ∧ (t.make (.takeBack id lease)).2 = t) ∧
      (∀ n e, past[n]? = some e → Frees id e → ∃ lease, EndsAt past n id lease) ∧
      (∀ lease, (∃ n, EndsAt past n id lease) ↔
        lease ∈ leases id past ∧ ¬ HeldUnder (t.get? id) lease) ∧
      ∀ lease n m, EndsAt past n id lease → EndsAt past m id lease → n = m := by
  intro t past id
  have h : Leased past id (t.get? id) := leased_journal splits moves id
  have hlength : (leases id past).length = (t.get? id).elim 0 Task.attempts := by
    rw [h.attempts, List.length_range']
  refine ⟨hlength, ?_, ?_, h.takeBack_iff, fun _ => h.old_lease, h.freed, h.ended, h.once⟩
  · rw [hlength]
    exact h.attempts
  · intro task w d lease htask hs
    obtain ⟨hlast, hworker⟩ := h.held task w d lease htask hs
    refine ⟨?_, hworker⟩
    rw [h.attempts, htask, Option.elim_some, List.getLast?_range'] at hlast
    split at hlast
    · cases hlast
    · cases hlast
      omega

/-- The deadline of a first dispatch takes effect late, when the task has been taken back and dispatched
again: the second lease stays in force, and only the first one has ended. -/
theorem second_lease_outlives_first :
    let moves : List Move := [.dispatch ⟨.map, 0⟩ (.loopback 1) 10000, .takeBack ⟨.map, 0⟩ 1,
      .dispatch ⟨.map, 0⟩ (.loopback 2) 20000]
    let t := (ofSplits ["a"]).after moves
    let past := (ofSplits ["a"]).journal moves
    leases ⟨.map, 0⟩ past = [1, 2] ∧ (t.make (.takeBack ⟨.map, 0⟩ 1)).2 = t ∧
      (∃ t', t.takeBack ⟨.map, 0⟩ 2 = .ok (true, t')) ∧ EndsAt past 1 ⟨.map, 0⟩ 1 ∧
      ∀ n, EndsAt past n ⟨.map, 0⟩ 1 → n = 1 := by
  intro moves t past
  obtain ⟨_, _, _, htakes, hold, _, _, honce⟩ := leases_end_once ["a"] moves ⟨.map, 0⟩
  have hends : EndsAt past 1 ⟨.map, 0⟩ 1 := ⟨_, rfl, .takesBack⟩
  refine ⟨by decide, (hold 1 (by decide)).2, (htakes 2).2 ⟨⟨_, rfl, rfl⟩, rfl⟩, hends, ?_⟩
  exact fun n hn => honce 1 n 1 hn hends

end TaskTable
end Foreman
