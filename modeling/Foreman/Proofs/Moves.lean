import Foreman.Proofs.Table

/-!
# Legal moves

A table is asked for one move after the other, and answers each. It turns a move down and stays as it was, or
it makes the move: one task goes from pending to dispatched, from dispatched to completed or from dispatched
back to pending, or the reduce tasks are added. So there is one map task for every input split, the reduce
tasks are those of the partitions that were added, once at most, and a task that is completed stays what it is
(`moves_are_legal`).
-/

namespace Foreman

namespace TaskTable

/-! ## 1. Moves and answers -/

/-- What a table can be asked for. -/
inductive Move
  | dispatch (id : TaskId) (worker : Address) (deadline : Time)
  | accept (id : TaskId) (result : TaskResult)
  | takeBack (id : TaskId) (lease : Nat)
  | addReduces (partitions : List Partition)

/-- What a table answers: the lease of a dispatch, whether a task was completed or taken back, that the reduce
tasks are added, or an error. -/
inductive Answer
  | leased (lease : Nat)
  | decided (yes : Bool)
  | added
  | refused (e : Error)
deriving DecidableEq

/-- An error and a `false` turn the move down. -/
def Answer.isRefusal : Answer → Bool
  | .refused _ | .decided false => true
  | _ => false

/-- The task that a move is about. -/
def Move.task? : Move → Option TaskId
  | .dispatch id _ _ | .accept id _ | .takeBack id _ => some id
  | .addReduces _ => none

/-- What a table answers to a move, and the table afterwards. -/
def make (t : TaskTable) : Move → Answer × TaskTable
  | .dispatch id worker deadline =>
    match t.dispatch id worker deadline with
    | .ok (lease, t') => (.leased lease, t')
    | .error e => (.refused e, t)
  | .accept id result =>
    match t.accept id result with
    | .ok (yes, t') => (.decided yes, t')
    | .error e => (.refused e, t)
  | .takeBack id lease =>
    match t.takeBack id lease with
    | .ok (yes, t') => (.decided yes, t')
    | .error e => (.refused e, t)
  | .addReduces partitions =>
    match t.addReduces partitions with
    | .ok t' => (.added, t')
    | .error e => (.refused e, t)

/-- Moves, each with its answer. -/
abbrev Journal := List (Move × Answer)

/-- The table after some moves. -/
def after (t : TaskTable) (moves : List Move) : TaskTable :=
  moves.foldl (fun t m => (t.make m).2) t

/-- What some moves are answered. -/
def journal (t : TaskTable) : List Move → Journal
  | [] => []
  | m :: moves => (m, (t.make m).1) :: (t.make m).2.journal moves

theorem after_append (t : TaskTable) (first second : List Move) :
    t.after (first ++ second) = (t.after first).after second :=
  List.foldl_append

-- What holds at first and is kept by every move holds after any moves.
theorem journal_induction {motive : Journal → TaskTable → Prop}
    (step : ∀ past t m, motive past t → motive (past ++ [(m, (t.make m).1)]) (t.make m).2)
    {t : TaskTable} (first : motive [] t) (moves : List Move) :
    motive (t.journal moves) (t.after moves) := by
  suffices h : ∀ past, motive past t → motive (past ++ t.journal moves) (t.after moves) from h [] first
  clear first
  induction moves generalizing t with
  | nil =>
    intro past h
    rw [journal, List.append_nil]
    exact h
  | cons m moves ih =>
    intro past h
    rw [journal, List.append_cons]
    exact ih _ (step past t m h)

/-! ## 2. What a move does -/

/-- Why a table turns a move down, and what it answers then. -/
inductive Refuses (t : TaskTable) : Move → Answer → Prop
  | unknown {m : Move} {id : TaskId} (hid : m.task? = some id) (h : t.get? id = none) :
      Refuses t m (.refused (.unknownTask id))
  | notPending {id : TaskId} {task : Task} {worker : Address} {deadline : Time}
      (h : t.get? id = some task) (hs : task.status ≠ .pending) :
      Refuses t (.dispatch id worker deadline) (.refused (.invalidTransition id task.status.stage))
  | notDispatched {id : TaskId} {task : Task} {result : TaskResult}
      (h : t.get? id = some task) (hs : ∀ w d l, task.status ≠ .dispatched w d l) :
      Refuses t (.accept id result) (.decided false)
  | notHeld {id : TaskId} {task : Task} {lease : Nat}
      (h : t.get? id = some task) (hs : ∀ w d, task.status ≠ .dispatched w d lease) :
      Refuses t (.takeBack id lease) (.decided false)
  | notFirst {partitions : List Partition} {task : Task} (h : t.get? ⟨.reduce, 0⟩ = some task) :
      Refuses t (.addReduces partitions) (.refused (.invalidTransition ⟨.reduce, 0⟩ task.status.stage))

/-- The moves that a task makes, each with the answer and with the task before and after it. -/
inductive Marks (id : TaskId) (old : Task) : Move → Answer → Task → Prop
  | dispatches {worker : Address} {deadline : Time} (hs : old.status = .pending) :
      Marks id old (.dispatch id worker deadline) (.leased (old.attempts + 1)) { old with
        status := .dispatched worker deadline (old.attempts + 1)
        attempts := old.attempts + 1
        lastWorker := some worker }
  | completes {worker : Address} {deadline : Time} {lease : Nat} {result : TaskResult}
      (hs : old.status = .dispatched worker deadline lease) :
      Marks id old (.accept id result) (.decided true) { old with status := .completed result }
  | takesBack {worker : Address} {deadline : Time} {lease : Nat}
      (hs : old.status = .dispatched worker deadline lease) :
      Marks id old (.takeBack id lease) (.decided true) { old with status := .pending }

/-- What a table makes of a move, unless it turns it down: one task moves and no other changes, or, if there
is no reduce task, pending ones are added. -/
inductive Makes (t : TaskTable) : Move → Answer → TaskTable → Prop
  | marks {id : TaskId} {old new : Task} {m : Move} {a : Answer} {t' : TaskTable}
      (h : t.get? id = some old) (hm : Marks id old m a new)
      (hset : ∀ other, t'.get? other = if other = id then some new else t.get? other) :
      Makes t m a t'
  | adds {partitions : List Partition} {t' : TaskTable} (h : ∀ i, t.get? ⟨.reduce, i⟩ = none)
      (hmaps : ∀ i, t'.get? ⟨.map, i⟩ = t.get? ⟨.map, i⟩)
      (hreduces : ∀ i, t'.get? ⟨.reduce, i⟩ = partitions[i]?.map fun p =>
        { input := .partition p, status := .pending, attempts := 0, lastWorker := none }) :
      Makes t (.addReduces partitions) .added t'

section

variable {t t' : TaskTable} {m : Move} {a : Answer}

theorem Refuses.isRefusal (h : t.Refuses m a) : a.isRefusal = true := by
  cases h <;> rfl

theorem Makes.isRefusal (h : t.Makes m a t') : a.isRefusal = false := by
  cases h with
  | marks _ hm _ => cases hm <;> rfl
  | adds => rfl

theorem make_of_get?_eq_none {id : TaskId} (hid : m.task? = some id) (h : t.get? id = none) :
    t.make m = (.refused (.unknownTask id), t) := by
  cases m with
  | addReduces => cases hid
  | _ =>
    cases hid
    simp [make, dispatch, accept, takeBack, h]

theorem make_dispatch {id : TaskId} {task : Task} (h : t.get? id = some task) (worker : Address)
    (deadline : Time) : t.make (.dispatch id worker deadline) =
      if task.status = .pending then
        (.leased (task.attempts + 1), t.set id (task.handTo worker deadline))
      else (.refused (.invalidTransition id task.status.stage), t) := by
  by_cases hp : task.isPending = true
  · rw [if_pos ((Task.isPending_eq_true_iff _).1 hp), make, dispatch_of_isPending h hp]
  · rw [if_neg (mt (Task.isPending_eq_true_iff _).2 hp)]
    simp [make, dispatch, h, hp]

theorem make_accept {id : TaskId} {task : Task} (h : t.get? id = some task) (result : TaskResult) :
    t.make (.accept id result) =
      if task.status.stage = .dispatched then
        (.decided true, t.set id { task with status := .completed result })
      else (.decided false, t) := by
  rw [make, accept_of_get? h]
  by_cases hs : task.status.stage = .dispatched
  · rw [if_pos hs, if_pos hs]
  · rw [if_neg hs, if_neg hs]

theorem make_takeBack {id : TaskId} {task : Task} (h : t.get? id = some task) (lease : Nat) :
    t.make (.takeBack id lease) =
      if task.heldUnder lease then (.decided true, t.set id { task with status := .pending })
      else (.decided false, t) := by
  rw [make, takeBack_of_get? h]
  by_cases hheld : task.heldUnder lease = true
  · rw [if_pos hheld, if_pos hheld]
  · rw [if_neg hheld, if_neg hheld]

theorem make_addReduces_of_get? {task : Task} (h : t.get? ⟨.reduce, 0⟩ = some task)
    (partitions : List Partition) : t.make (.addReduces partitions) =
      (.refused (.invalidTransition ⟨.reduce, 0⟩ task.status.stage), t) := by
  obtain ⟨rest, hrest⟩ := List.head?_eq_some_iff.1 (List.head?_eq_getElem?.trans h)
  change t.reduces = _ at hrest
  simp [make, addReduces, hrest]

-- All that a move can do.
theorem make_cases (t : TaskTable) (m : Move) :
    (∃ a, t.make m = (a, t) ∧ t.Refuses m a) ∨ ∃ a t', t.make m = (a, t') ∧ t.Makes m a t' := by
  by_cases hknown : ∃ id, m.task? = some id ∧ t.get? id = none
  · obtain ⟨id, hid, h⟩ := hknown
    exact .inl ⟨_, make_of_get?_eq_none hid h, .unknown hid h⟩
  have htask : ∀ id, m.task? = some id → ∃ task, t.get? id = some task := by
    intro id hid
    exact Option.ne_none_iff_exists'.1 fun h => hknown ⟨id, hid, h⟩
  cases m with
  | dispatch id worker deadline =>
    obtain ⟨task, h⟩ := htask id rfl
    rw [make_dispatch h]
    by_cases hs : task.status = .pending
    · rw [if_pos hs]
      exact .inr ⟨_, _, rfl, .marks h (.dispatches hs) (get?_set h _)⟩
    · rw [if_neg hs]
      exact .inl ⟨_, rfl, .notPending h hs⟩
  | accept id result =>
    obtain ⟨task, h⟩ := htask id rfl
    rw [make_accept h]
    by_cases hstage : task.status.stage = .dispatched
    · rw [if_pos hstage]
      obtain ⟨w, d, l, hs⟩ := (Status.stage_eq_dispatched_iff _).1 hstage
      exact .inr ⟨_, _, rfl, .marks h (.completes hs) (get?_set h _)⟩
    · rw [if_neg hstage]
      rw [Status.stage_eq_dispatched_iff] at hstage
      exact .inl ⟨_, rfl, .notDispatched h fun w d l hs => hstage ⟨w, d, l, hs⟩⟩
  | takeBack id lease =>
    obtain ⟨task, h⟩ := htask id rfl
    rw [make_takeBack h]
    by_cases hheld : task.heldUnder lease = true
    · rw [if_pos hheld]
      obtain ⟨w, d, hs⟩ := (task.heldUnder_eq_true_iff lease).1 hheld
      exact .inr ⟨_, _, rfl, .marks h (.takesBack hs) (get?_set h _)⟩
    · rw [if_neg hheld]
      rw [Task.heldUnder_eq_true_iff] at hheld
      exact .inl ⟨_, rfl, .notHeld h fun w d hs => hheld ⟨w, d, hs⟩⟩
  | addReduces partitions =>
    cases h : t.get? ⟨.reduce, 0⟩ with
    | some task => exact .inl ⟨_, make_addReduces_of_get? h partitions, .notFirst h⟩
    | none =>
      have hnil : t.reduces = [] := by
        simpa [get?, ofKind] using h
      refine .inr ⟨_, { t with reduces := partitions.map fun p => { input := .partition p } }, ?_,
        .adds ((reduces_eq_nil_iff t).1 hnil) (fun _ => rfl) fun _ => List.getElem?_map⟩
      rw [make, addReduces_of_reduces_eq_nil hnil]

end

/-! ## 3. What moves keep -/

section

variable {t t' : TaskTable} {m : Move} {a : Answer} {id : TaskId} {task : Task}

theorem Marks.input {old new : Task} (h : Marks id old m a new) : new.input = old.input := by
  cases h <;> rfl

-- A task that is there stays as it is, unless it is the one that moves.
theorem get?_make (h : t.get? id = some task) (m : Move) :
    (t.make m).2.get? id = some task ∨
      ∃ a new, Marks id task m a new ∧ (t.make m).2.get? id = some new := by
  rcases t.make_cases m with ⟨a, hmake, _⟩ | ⟨a, t', hmake, hmakes⟩
  · rw [hmake]
    exact .inl h
  · rw [hmake]
    cases hmakes with
    | @marks marked old new _ _ _ hold hm hset =>
      by_cases hid : id = marked
      · subst hid
        cases hold.symm.trans h
        exact .inr ⟨a, new, hm, (hset id).trans (if_pos rfl)⟩
      · exact .inl ((hset id).trans ((if_neg hid).trans h))
    | adds hnone hmaps _ =>
      obtain ⟨kind, i⟩ := id
      cases kind with
      | map => exact .inl ((hmaps i).trans h)
      | reduce => cases (hnone i).symm.trans h

theorem get?_make_of_completed (h : t.get? id = some task) {result : TaskResult}
    (hs : task.status = .completed result) (m : Move) : (t.make m).2.get? id = some task := by
  rcases get?_make h m with hget | ⟨_, _, hm, _⟩
  · exact hget
  · cases hm with
    | _ hother => cases hs.symm.trans hother

theorem isSome_get?_make (h : (t.get? id).isSome) (m : Move) : ((t.make m).2.get? id).isSome := by
  obtain ⟨_, htask⟩ := Option.isSome_iff_exists.1 h
  rcases get?_make htask m with hget | ⟨_, _, _, hget⟩
  · exact Option.isSome_of_eq_some hget
  · exact Option.isSome_of_eq_some hget

-- Whatever is answered to partitions, there are reduce tasks afterwards.
theorem isSome_get?_make_addReduces {partitions : List Partition} (h : partitions ≠ []) :
    ((t.make (.addReduces partitions)).2.get? ⟨.reduce, 0⟩).isSome := by
  rcases t.make_cases (.addReduces partitions) with ⟨a, hmake, hrefuses⟩ | ⟨a, t', hmake, hmakes⟩
  · rw [hmake]
    cases hrefuses with
    | unknown hid => cases hid
    | notFirst hfirst => exact Option.isSome_of_eq_some hfirst
  · rw [hmake]
    cases hmakes with
    | marks _ hm => cases hm
    | adds _ _ hreduces =>
      rw [hreduces, Option.isSome_map, isSome_getElem?]
      exact List.length_pos_iff.2 h

end

/-! ## 4. Tasks and their inputs -/

/-- The result with which a move completes a task. -/
def completion (id : TaskId) : Move × Answer → Option TaskResult
  | (.accept other result, .decided true) => if other = id then some result else none
  | _ => none

/-- The results with which a task was completed, in their order. -/
def completions (id : TaskId) (past : Journal) : List TaskResult :=
  past.filterMap (completion id)

/-- All partitions that were added, in their order. -/
def additions (past : Journal) : List Partition :=
  past.flatMap fun
    | (.addReduces partitions, .added) => partitions
    | _ => []

/-- The result of a completed task. -/
def resultOf (task : Task) : Option TaskResult :=
  match task.status with
  | .completed result => some result
  | _ => none

/-- What the tasks of a table have to do with the splits that it was made of and with what was asked of it. -/
structure Follows (splits : List String) (past : Journal) (t : TaskTable) : Prop where
  /-- There is one map task for every split, in their order. -/
  maps : ∀ i, (t.get? ⟨.map, i⟩).map Task.input = splits[i]?.map .split
  /-- There is one reduce task for every partition that was added, in their order. -/
  reduces : ∀ i, (t.get? ⟨.reduce, i⟩).map Task.input = (additions past)[i]?.map .partition
  /-- A task was completed once at most, and keeps that result. -/
  results : ∀ id, completions id past = ((t.get? id).bind resultOf).toList

theorem filterMap_concat {α β : Type} (f : α → Option β) (l : List α) (a : α) :
    (l ++ [a]).filterMap f = l.filterMap f ++ (f a).toList := by
  rw [List.filterMap_append, List.filterMap_cons]
  cases f a <;> rfl

section

variable {splits : List String} {past : Journal} {t t' : TaskTable} {m : Move} {a : Answer}

theorem completions_concat (id : TaskId) (past : Journal) (e : Move × Answer) :
    completions id (past ++ [e]) = completions id past ++ (completion id e).toList :=
  filterMap_concat _ _ _

theorem completion_of_isRefusal (h : a.isRefusal = true) (id : TaskId) : completion id (m, a) = none := by
  unfold completion
  split
  · rename_i heq
    cases heq
    cases h
  · rfl

theorem additions_concat_of_ne (h : a ≠ .added) : additions (past ++ [(m, a)]) = additions past := by
  unfold additions
  rw [List.flatMap_append, List.flatMap_singleton]
  cases m <;> cases a <;> simp_all

theorem follows_ofSplits (splits : List String) : Follows splits [] (ofSplits splits) := by
  refine ⟨?_, ?_, ?_⟩
  · intro i
    rw [get?_ofSplits_map, Option.map_map]
    rfl
  · intro i
    rw [get?_ofSplits_reduce]
    rfl
  · rintro ⟨kind, i⟩
    cases kind with
    | map =>
      rw [get?_ofSplits_map]
      cases splits[i]? <;> rfl
    | reduce =>
      rw [get?_ofSplits_reduce]
      rfl

theorem Follows.refuses (h : Follows splits past t) (hrefuses : t.Refuses m a) :
    Follows splits (past ++ [(m, a)]) t := by
  refine ⟨h.maps, ?_, ?_⟩
  · rw [additions_concat_of_ne]
    · exact h.reduces
    · rintro rfl
      cases hrefuses.isRefusal
  · intro id
    rw [completions_concat, completion_of_isRefusal hrefuses.isRefusal, h.results]
    exact List.append_nil _

theorem Follows.marks (h : Follows splits past t) {id : TaskId} {old new : Task}
    (hold : t.get? id = some old) (hm : Marks id old m a new)
    (hset : ∀ other, t'.get? other = if other = id then some new else t.get? other) :
    Follows splits (past ++ [(m, a)]) t' := by
  have hinput : ∀ other, (t'.get? other).map Task.input = (t.get? other).map Task.input := by
    intro other
    rw [hset]
    split
    · rename_i hid
      rw [hid, hold, Option.map_some, Option.map_some, hm.input]
    · rfl
  refine ⟨?_, ?_, ?_⟩
  · intro i
    rw [hinput]
    exact h.maps i
  · intro i
    rw [hinput, additions_concat_of_ne]
    · exact h.reduces i
    · rintro rfl
      cases hm
  · intro other
    rw [completions_concat, h.results, hset]
    by_cases hid : other = id
    · subst hid
      rw [if_pos rfl, hold]
      cases hm with
      | dispatches hs => simp [resultOf, completion, hs]
      | completes hs => simp [resultOf, completion, hs]
      | takesBack hs => simp [resultOf, completion, hs]
    · rw [if_neg hid]
      have hnone : completion other (m, a) = none := by
        cases hm with
        | completes => exact if_neg (Ne.symm hid)
        | _ => rfl
      rw [hnone]
      exact List.append_nil _

theorem Follows.adds (h : Follows splits past t) {partitions : List Partition}
    (hnone : ∀ i, t.get? ⟨.reduce, i⟩ = none) (hmaps : ∀ i, t'.get? ⟨.map, i⟩ = t.get? ⟨.map, i⟩)
    (hreduces : ∀ i, t'.get? ⟨.reduce, i⟩ = partitions[i]?.map fun p => { input := .partition p }) :
    Follows splits (past ++ [(.addReduces partitions, .added)]) t' := by
  have hnil : additions past = [] := by
    have hfirst := h.reduces 0
    rw [hnone] at hfirst
    exact List.head?_eq_none_iff.1 (List.head?_eq_getElem?.trans (Option.map_eq_none_iff.1 hfirst.symm))
  have hadditions : additions (past ++ [(.addReduces partitions, .added)]) = partitions := by
    show additions (past ++ _) = _
    unfold additions at hnil ⊢
    rw [List.flatMap_append, hnil, List.nil_append, List.flatMap_singleton]
  refine ⟨?_, ?_, ?_⟩
  · intro i
    rw [hmaps]
    exact h.maps i
  · intro i
    rw [hreduces, hadditions, Option.map_map]
    rfl
  · rintro ⟨kind, i⟩
    rw [completions_concat, h.results]
    cases kind with
    | map =>
      rw [hmaps]
      exact List.append_nil _
    | reduce =>
      rw [hnone, hreduces]
      cases partitions[i]? <;> rfl

theorem Follows.make (h : Follows splits past t) (m : Move) :
    Follows splits (past ++ [(m, (t.make m).1)]) (t.make m).2 := by
  rcases t.make_cases m with ⟨a, hmake, hrefuses⟩ | ⟨a, t', hmake, hmakes⟩
  · rw [hmake]
    exact h.refuses hrefuses
  · rw [hmake]
    cases hmakes with
    | marks hold hm hset => exact h.marks hold hm hset
    | adds hnone hmaps hreduces => exact h.adds hnone hmaps hreduces

end

/-- After any moves, a further one is turned down and changes nothing, or does just what it is for. The names
that a table lists are those under which it finds tasks; there are the map tasks of the splits and the reduce
tasks of the partitions that were added. A completed task stays as it is, with the only result it ever was
completed with. Once partitions were brought, others are turned down for good. -/
theorem moves_are_legal (splits : List String) (moves : List Move) :
    let t := (ofSplits splits).after moves
    (∀ m, if (t.make m).1.isRefusal then t.Refuses m (t.make m).1 ∧ (t.make m).2 = t
      else t.Makes m (t.make m).1 (t.make m).2) ∧
    (∀ kind p,
      (∀ id, id ∈ t.idsWhere kind p ↔ id.kind = kind ∧ ∃ task, t.get? id = some task ∧ p task = true) ∧
      (t.idsWhere kind p).Pairwise fun a b => a.index < b.index) ∧
    Follows splits ((ofSplits splits).journal moves) t ∧
    (∀ id task result, t.get? id = some task → task.status = .completed result →
      ∀ more, (t.after more).get? id = some task) ∧
    (∀ partitions, .addReduces partitions ∈ moves → partitions ≠ [] → ∀ others, ∃ stage,
      t.make (.addReduces others) = (.refused (.invalidTransition ⟨.reduce, 0⟩ stage), t)) := by
  intro t
  refine ⟨?_, ?_, ?_, ?_, ?_⟩
  · intro m
    rcases t.make_cases m with ⟨a, hmake, hrefuses⟩ | ⟨a, t', hmake, hmakes⟩
    · rw [hmake, if_pos hrefuses.isRefusal]
      exact ⟨hrefuses, rfl⟩
    · rw [hmake, if_neg (Bool.eq_false_iff.1 hmakes.isRefusal)]
      exact hmakes
  · exact fun kind p => ⟨fun _ => mem_idsWhere, t.idsWhere_ascending kind p⟩
  · exact journal_induction (fun _ _ m h => h.make m) (follows_ofSplits splits) moves
  · intro id task result htask hs more
    exact journal_induction (motive := fun _ t => t.get? id = some task)
      (fun _ _ m h => get?_make_of_completed h hs m) htask more
  · intro partitions hmem hne others
    obtain ⟨before, later, rfl⟩ := List.append_of_mem hmem
    have hsome : (t.get? ⟨.reduce, 0⟩).isSome := by
      show (((ofSplits splits).after _).get? _).isSome
      rw [after_append]
      exact journal_induction (motive := fun _ t => (t.get? ⟨.reduce, 0⟩).isSome)
        (fun _ _ m h => isSome_get?_make h m) (isSome_get?_make_addReduces hne) later
    obtain ⟨task, htask⟩ := Option.isSome_iff_exists.1 hsome
    exact ⟨_, make_addReduces_of_get? htask others⟩

/-- The first result of a task stays, and a partition that comes second is turned down. -/
theorem first_result_and_partition_stay :
    let moves : List Move := [.dispatch ⟨.map, 0⟩ (.loopback 1) 10000, .accept ⟨.map, 0⟩ (.records 3),
      .accept ⟨.map, 0⟩ (.records 4), .addReduces [∅]]
    let t := (ofSplits ["a", "b"]).after moves
    completions ⟨.map, 0⟩ ((ofSplits ["a", "b"]).journal moves) = [.records 3] ∧
      (∀ more, (t.after more).get? ⟨.map, 0⟩ = some {
        input := .split "a", status := .completed (.records 3), attempts := 1
        lastWorker := some (.loopback 1) }) ∧
      ∀ others, ∃ stage,
        t.make (.addReduces others) = (.refused (.invalidTransition ⟨.reduce, 0⟩ stage), t) := by
  intro moves t
  obtain ⟨_, _, hfollows, hcompleted, honce⟩ := moves_are_legal ["a", "b"] moves
  refine ⟨?_, hcompleted _ _ _ rfl rfl, honce [∅] ?_ (List.cons_ne_nil _ _)⟩
  · rw [hfollows.results]
    rfl
  · simp [moves]

end TaskTable
end Foreman
