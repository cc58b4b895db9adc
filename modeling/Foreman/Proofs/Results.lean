import Foreman.Proofs.Mirror

/-!
# Results do not depend on the schedule

A worker is honest if its answers are what the functions of the job give for the requests. When all
answers of a run are honest, the records that the partitions hold are those of the whole input, each
once, whatever was lost, late or dispatched again. Once the job is done, the results are therefore the
ones that the job should have (`Job.output`), as long as the reduce function does not depend on the
order of the values.
-/

namespace Foreman

/-! ## 1. What is asked for -/

/-- An honest answer to a request. -/
def Request.AnsweredBy (f : MapFunction) (g : ReduceFunction) (contents : String → String) :
    Request → Output → Prop
  | .map path _, .records rs => rs = f (contents path)
  | .reduce rs _, .value text => text = reduceRecords g rs
  | _, _ => True

namespace Job

/-- All records that the map function emits over the input splits. -/
def emitted (job : Job) (f : MapFunction) (contents : String → String) : List Record :=
  job.splits.flatMap fun path => f (contents path)

/-- What the output of a partition should be: one entry for each key that lies there, in ascending
order, with the reduced value of all values that were emitted for it. -/
def output (job : Job) (f : MapFunction) (g : ReduceFunction) (contents : String → String)
    (p : Nat) : String :=
  ",".intercalate <|
    ((keysOf (job.emitted f contents)).filter fun key => partitionIndex key job.reduceCount = p).map
      fun key => entryText key (g key (valuesOf key (job.emitted f contents)))

-- The keys of a partition and their values are those of the records that lie there.
theorem output_eq (job : Job) (f : MapFunction) (g : ReduceFunction) (contents : String → String)
    (p : Nat) :
    job.output f g contents p = reducedText g
      ((job.emitted f contents).filter fun r => partitionIndex r.key job.reduceCount = p) := by
  unfold output reducedText
  rw [keysOf_filter fun key => partitionIndex key job.reduceCount = p]
  congr 1
  apply List.map_congr_left
  intro key hkey
  rw [valuesOf_filter (q := fun key => partitionIndex key job.reduceCount = p)
    (List.mem_filter.1 hkey).2]

end Job

namespace Coordinator

/-! ## 2. Accepted outputs answer the requests of their tasks -/

/-- Every output that a run brings answers the request of its call. -/
def Honest (c : Coordinator) (answers : Request → Output → Prop) (run : List Step) : Prop :=
  ∀ e ∈ c.trace output? run, answers e.1.request e.2

/-- Every output that has been accepted answers what its task asks for. -/
def Justified (c : Coordinator) (answers : Request → Output → Prop) (accepted : Acceptances) : Prop :=
  ∀ e ∈ accepted, ∃ task, c.ledger.tasks.get? e.1 = some task ∧
    answers (.ofInput c.job task.input) e.2

-- What a step has accepted is the output of a call, for the task of the call.
theorem accepted?_eq_some {c : Coordinator} {s : Step} {e : TaskId × Output}
    (h : c.accepted? s = some e) :
    ∃ call ∈ c.calls, c.output? s = some (call, e.2) ∧ call.task = e.1 := by
  have ⟨found, hfound, he⟩ := Option.map_eq_some_iff.1 h
  have hout := (Option.filter_eq_some_iff.1 hfound).1
  refine ⟨found.1, ?_, by rw [hout, ← he], by rw [← he]⟩
  unfold output? at hout
  split at hout
  · have ⟨call, hcall, heq⟩ := Option.map_eq_some_iff.1 hout
    rw [← heq]
    exact List.mem_of_getElem? (Option.filter_eq_some_iff.1 hcall).1
  · cases hout

theorem Justified.step {c : Coordinator} {answers : Request → Output → Prop}
    {accepted : Acceptances} (hj : c.Justified answers accepted) (hregular : c.Regular) {s : Step}
    (honest : ∀ e, c.output? s = some e → answers e.1.request e.2) :
    (c.step s).Justified answers (accepted ++ (c.accepted? s).toList) := by
  have he := step_effect hregular s
  -- The task of an output stays, along with what it asks for.
  have hkeep : ∀ e : TaskId × Output, (∃ task, c.ledger.tasks.get? e.1 = some task ∧
      answers (.ofInput c.job task.input) e.2) → ∃ task, (c.step s).ledger.tasks.get? e.1 = some task ∧
      answers (.ofInput (c.step s).job task.input) e.2 := by
    intro e ⟨task, htask, ha⟩
    have ⟨new, hnew, hinput⟩ := he.get?_of_eq_some hregular htask
    exact ⟨new, hnew, by rw [he.job, hinput]; exact ha⟩
  intro e hmem
  apply hkeep
  rcases List.mem_append.1 hmem with hold | hnew
  · exact hj e hold
  · have ⟨call, hcall, hout, htask⟩ := accepted?_eq_some (Option.mem_toList.1 hnew)
    have ⟨task, hget, hrequest⟩ := hregular.known call hcall
    have ha := honest _ hout
    rw [hrequest] at ha
    exact ⟨task, htask ▸ hget, ha⟩

theorem Justified.steps {c : Coordinator} {answers : Request → Output → Prop}
    {accepted : Acceptances} (hj : c.Justified answers accepted) (hregular : c.Regular)
    {run : List Step} (honest : c.Honest answers run) :
    (c.steps run).Justified answers (accepted ++ c.accepted run) := by
  induction run generalizing c accepted with
  | nil =>
    change Justified c answers (accepted ++ [])
    rw [List.append_nil]
    exact hj
  | cons s run ih =>
    rw [steps_cons, accepted_cons, ← List.append_assoc]
    apply ih
    · apply hj.step hregular
      intro e he
      exact honest e (List.mem_append_left _ (Option.mem_toList.2 he))
    · exact (step_effect hregular s).regular hregular
    · intro e he
      exact honest e (List.mem_append_right _ he)

/-! ## 3. Honest answers give the right records and texts -/

theorem emitted_maps {accepted : Acceptances} (h : ∀ e ∈ accepted, e.2.kind = e.1.kind) :
    Acceptances.emitted (accepted.filter fun e => e.1.kind = .map) = accepted.emitted := by
  induction accepted with
  | nil => rfl
  | cons e accepted ih =>
    have hkind := h e List.mem_cons_self
    have hrest := ih fun e' he' => h e' (List.mem_cons_of_mem e he')
    unfold Acceptances.emitted at hrest ⊢
    rw [List.filter_cons, List.flatMap_cons]
    obtain ⟨⟨kind, i⟩, output⟩ := e
    cases kind with
    | map =>
      rw [if_pos (decide_eq_true rfl), List.flatMap_cons, hrest]
    | reduce =>
      rw [if_neg (by simp), hrest]
      cases output with
      | records rs => cases hkind
      | value text => rfl

section

variable {c : Coordinator} {accepted : Acceptances} (h : c.Sound accepted) {f : MapFunction}
  {g : ReduceFunction} {contents : String → String}
  (hj : c.Justified (Request.AnsweredBy f g contents) accepted)

include h hj

theorem map_output_of_mem {i : Nat} {output : Output} (hmem : (⟨.map, i⟩, output) ∈ accepted) :
    ∃ path, c.job.splits[i]? = some path ∧ output = .records (f (contents path)) := by
  have ⟨task, htask, ha⟩ := hj _ hmem
  have hinput := h.balanced.mapInput i
  rw [htask, Option.map_some] at hinput
  have ⟨path, hpath, hsplit⟩ := Option.map_eq_some_iff.1 hinput.symm
  refine ⟨path, hpath, ?_⟩
  rw [← hsplit] at ha
  have hkind := h.balanced.kinds _ hmem
  cases output with
  | records rs => rw [show rs = f (contents path) from ha]
  | value text => cases hkind

theorem reduce_output_of_mem {p : Nat} {text : String}
    (hmem : (⟨.reduce, p⟩, .value text) ∈ accepted) :
    p < c.job.reduceCount ∧ text = reducedText g
      (accepted.emitted.filter fun r => partitionIndex r.key c.job.reduceCount = p) := by
  have ⟨task, htask, ha⟩ := hj _ hmem
  have ⟨hp, hlt⟩ := (h.reduce_isSome p).1 (by rw [htask]; rfl)
  have hinput := h.balanced.reduceInput p
  rw [htask, h.partitions_of_closed hp, Option.getD_some, Partition.getElem?_deal hlt,
    Option.map_some, Option.map_some, Option.some.injEq] at hinput
  rw [hinput] at ha
  refine ⟨hlt, ?_⟩
  rw [← reduceRecords_group]
  exact ha

-- When the map phase is closed, every split has been mapped once, and its records accepted once.
theorem accepted_maps_perm (hp : c.phase ≠ .mapping) :
    (accepted.filter fun e => e.1.kind = .map).Perm
      (c.job.splits.zipIdx.map fun (path, i) => (⟨.map, i⟩, .records (f (contents path)))) := by
  have hnodup : (accepted.filter fun e => e.1.kind = .map).Nodup :=
    (h.balanced.once.of_map _).filter _
  have hnodup' : (c.job.splits.zipIdx.map fun (path, i) =>
      ((⟨.map, i⟩, .records (f (contents path))) : TaskId × Output)).Nodup := by
    apply List.Nodup.of_map fun e : TaskId × Output => e.1.index
    rw [List.map_map]
    change (c.job.splits.zipIdx.map Prod.snd).Nodup
    rw [List.zipIdx_map_snd]
    exact List.nodup_range'
  rw [List.perm_ext_iff_of_nodup hnodup hnodup']
  intro ⟨⟨kind, i⟩, output⟩
  rw [List.mem_filter, List.mem_map, decide_eq_true_eq]
  constructor
  · intro ⟨hmem, hkind⟩
    change kind = .map at hkind
    rw [hkind] at hmem ⊢
    have ⟨path, hpath, hout⟩ := map_output_of_mem h hj hmem
    exact ⟨(path, i), List.mk_mem_zipIdx_iff_getElem?.2 hpath, by rw [hout]⟩
  · intro ⟨⟨path, j⟩, hmem, heq⟩
    have hpath := List.mk_mem_zipIdx_iff_getElem?.1 hmem
    cases heq
    -- Some output of this task has been accepted, and it can only have been this one.
    have hid := h.mem_ids_of_closed hp (List.getElem?_eq_some_iff.1 hpath).1
    have ⟨⟨id, output⟩, hacc, hfst⟩ := List.mem_map.1 hid
    change id = _ at hfst
    rw [hfst] at hacc
    have ⟨path', hpath', hout⟩ := map_output_of_mem h hj hacc
    rw [hpath] at hpath'
    cases hpath'
    rw [hout] at hacc
    exact ⟨hacc, rfl⟩

-- The records that have been accepted are then those of the whole input.
theorem emitted_perm (hp : c.phase ≠ .mapping) : accepted.emitted.Perm (c.job.emitted f contents) := by
  rw [← emitted_maps h.balanced.kinds]
  refine ((accepted_maps_perm h hj hp).flatMap_right _).trans ?_
  rw [List.flatMap_map]
  change (c.job.splits.zipIdx.flatMap fun e => f (contents e.1)).Perm _
  rw [← List.flatMap_map Prod.fst fun path => f (contents path), List.zipIdx_map_fst]
  exact .refl _

omit h hj in
theorem phase_of_results? {results : Results} (hresults : c.results? = some results) :
    c.phase = .done := by
  apply Decidable.byContradiction
  intro hne
  change (if c.phase = .done then _ else none) = _ at hresults
  rw [if_neg hne] at hresults
  cases hresults

theorem result_of_done (hg : g.OrderFree) (hp : c.phase = .done) (p : Nat) :
    c.ledger.assembly.results[p]? =
      if p < c.job.reduceCount then some (c.job.output f g contents p) else none := by
  have hne : c.phase ≠ .mapping := by rw [hp]; exact Phase.noConfusion
  have hsome := h.result_isSome hp p
  by_cases hlt : p < c.job.reduceCount
  · rw [if_pos hlt]
    have ⟨text, htext⟩ := Option.isSome_iff_exists.1 (hsome.2 hlt)
    have hout := (reduce_output_of_mem h hj ((h.balanced.results p text).1 htext)).2
    rw [htext, hout, Job.output_eq, reducedText_perm hg ((emitted_perm h hj hne).filter _)]
  · rw [if_neg hlt]
    exact Option.not_isSome_iff_eq_none.1 (mt hsome.1 hlt)

-- A job that is done has all its results, and they are what they should be.
theorem results?_of_done (hg : g.OrderFree) (hp : c.phase = .done) :
    ∃ results, c.results? = some results ∧ ∀ p, results[p]? =
      if p < c.job.reduceCount then some (c.job.output f g contents p) else none :=
  ⟨_, h.results?_of_done hp, result_of_done h hj hg hp⟩

end

end Coordinator
end Foreman
