import Foreman.Proofs.Running
import Foreman.Simulation.Cluster

/-!
# Every schedule gives the right results

A job that is done has the results that its functions give for its input, however it was scheduled
(`results_of_honest_answers`). The workers of a cluster in memory are an example of honest ones.
-/

namespace Foreman

/-! ## 1. Honest workers -/

section

variable {job : Job} {f : MapFunction} {g : ReduceFunction}

-- A worker that knows the functions of a job answers it honestly.
theorem Request.answeredBy_of_perform {registry : Registry}
    (hf : registry.map? job.mapFunction = .ok f) (hg : registry.reduce? job.reduceFunction = .ok g)
    (contents : String → Option String) (input : TaskInput) {output : Output}
    (h : (Request.ofInput job input).perform registry contents = .ok output) :
    (Request.ofInput job input).AnsweredBy f g (fun path => (contents path).getD "") output := by
  cases input with
  | split path =>
    simp only [Request.ofInput, Request.perform, hf] at h
    split at h
    · cases h
    · rename_i text htext
      cases h
      change f text = f ((contents path).getD "")
      rw [htext]
      rfl
  | partition p =>
    simp only [Request.ofInput, Request.perform, hg] at h
    cases h
    rfl

-- A call that is begun keeps the splits, and has no outcome yet unless it is refused.
theorem Cluster.beginTask_splits (c : Cluster) (worker : Address) (request : Request) :
    (c.beginTask worker request).1.splits = c.splits := by
  unfold beginTask
  simp only
  split <;> rfl

theorem Cluster.beginTask_ne_returns_ok (c : Cluster) (worker : Address) (request : Request)
    (after : Time) (output : Output) :
    (c.beginTask worker request).2 ≠ .returns after (.ok output) := by
  unfold beginTask
  simp only
  split <;> exact fun h => by cases h

theorem Cluster.transport_honest (hf : Registry.standard.map? job.mapFunction = .ok f)
    (hg : Registry.standard.reduce? job.reduceFunction = .ok g)
    (splits : Std.ExtTreeMap String String) :
    Cluster.transport.Honest job
      (Request.AnsweredBy f g fun path => (splits.get? path).getD "")
      (fun c => c.splits = splits) := by
  constructor
  · intro c worker input hsplits
    refine ⟨(c.beginTask_splits worker _).trans hsplits, ?_⟩
    intro after output h
    exact absurd h (c.beginTask_ne_returns_ok worker _ after output)
  · intro c worker input hsplits
    unfold Cluster.transport Cluster.endTask
    simp only
    split
    · exact ⟨hsplits, fun _ h => nomatch h⟩
    · split
      · exact ⟨hsplits, fun _ h => nomatch h⟩
      · rename_i found hfound
        refine ⟨hsplits, ?_⟩
        intro output h
        cases h
        rw [hsplits] at hfound
        exact Request.answeredBy_of_perform hf hg _ input hfound

end

namespace Coordinator

/-! ## 2. Results -/

/-- If all answers are honest and the reduce function does not depend on the order of the values, then
the results of a job that is done are those that it should have: one text for every partition, made of
all that the map function emits over all splits. So are the results with which a run of the coordinator
on the clock ends, whatever has happened before it. -/
theorem results_of_honest_answers {job : Job} {workers : List Address} {config : Config}
    {c₀ : Coordinator} (h : create? job workers config = .ok c₀) {f : MapFunction}
    {g : ReduceFunction} (hg : g.OrderFree) {contents : String → String} {run : List Step}
    (honest : c₀.Honest (Request.AnsweredBy f g contents) run) :
    let expected : Nat → Option String := fun p =>
      if p < job.reduceCount then some (job.output f g contents p) else none
    ((c₀.steps run).phase = .done →
      ∃ results, (c₀.steps run).results? = some results ∧ ∀ p, results[p]? = expected p) ∧
    ∀ {σ : Type} (t : Transport σ) (inv : σ → Prop) (world : σ) (limit time : Time)
      (results : Results), t.Honest job (Request.AnsweredBy f g contents) inv → inv world →
      ((Simulation.start t world (c₀.steps run)).runFor limit).1 = some (.done results, time) →
      ∀ p, results[p]? = expected p := by
  intro expected
  have hregular := regular_of_create? h
  have hjob := (create?_eq_ok h).1
  have hdone : ∀ run, c₀.Honest (Request.AnsweredBy f g contents) run →
      (c₀.steps run).phase = .done →
      ∃ results, (c₀.steps run).results? = some results ∧ ∀ p, results[p]? = expected p := by
    intro run honest hp
    have hnothing : c₀.Justified (Request.AnsweredBy f g contents) [] := fun _ he => nomatch he
    have hresults := results?_of_done (sound_steps h run) (hnothing.steps hregular honest) hg hp
    rw [job_of_create? h run] at hresults
    exact hresults
  refine ⟨hdone run honest, ?_⟩
  intro σ t inv world limit time results ht hworld hend
  have hstart : (Simulation.start t world (c₀.steps run)).Faithful c₀
      (Request.AnsweredBy f g contents) inv :=
    ⟨hjob ▸ ht, hworld, ⟨⟨run, honest, rfl⟩, fun _ hr => nomatch hr⟩, fun _ _ he => nomatch he⟩
  have ⟨c, ⟨run', honest', hc⟩, hends⟩ := Simulation.endsAt_of_runFor hregular hstart hend
  have hresults : c.results? = some results := by
    cases hends with
    | done hresults => exact hresults
  -- Only a job that is done has results.
  rw [← hc] at hresults
  have ⟨found, hfound, hexpected⟩ := hdone run' honest' (phase_of_results? hresults)
  rw [hresults] at hfound
  cases hfound
  exact hexpected

/-- A new coordinator for a job with one short split, whose characters are counted. -/
def sampleStart : Coordinator where
  job := ⟨["s"], "char_freq", "count", 1, by decide⟩
  config := {}
  ledger := { tasks := .ofSplits ["s"] }
  monitor := .ofWorkers [Cluster.address 1]
  published := .mapping
  log := [.configured 1 1 1]

/-- Both of its tasks are dispatched, and answered in time. -/
def sampleRun : List Step :=
  [.dispatch .map [Cluster.address 1], .answer 0 (.ok (.records [⟨"a", "1"⟩])),
    .dispatch .reduce [Cluster.address 1], .answer 1 (.ok (.value "a=1"))]

def sampleCluster : Cluster :=
  Cluster.serveSplit (Cluster.setBehaviour {} (Cluster.address 1) .healthy) "s" "a"

def sampleContents (path : String) : String :=
  (sampleCluster.splits.get? path).getD ""

theorem counted_by_hand_and_on_cluster :
    (∃ results, (sampleStart.steps sampleRun).results? = some results ∧ results[0]? = some "a=1") ∧
      ∃ (results : Results) (time : Time),
        ((Simulation.start Cluster.transport sampleCluster sampleStart).runFor 10).1 =
            some (.done results, time) ∧
          results[0]? = some "a=1" := by
  have h : create? sampleStart.job [Cluster.address 1] {} = .ok sampleStart := rfl
  have hout : sampleStart.job.output charFrequency countValues sampleContents 0 = "a=1" := by
    rw [Job.output_eq, ← reduceRecords_eq]
    decide +kernel
  constructor
  · have honest : sampleStart.Honest (Request.AnsweredBy charFrequency countValues sampleContents)
        sampleRun := by
      refine List.forall_mem_cons.2 ⟨?_, List.forall_mem_cons.2 ⟨?_, ?_⟩⟩
      · rfl
      · rfl
      · exact fun _ he => nomatch he
    have ⟨results, hresults, hexpected⟩ :=
      (results_of_honest_answers h orderFree_countValues honest).1 rfl
    refine ⟨results, hresults, ?_⟩
    rw [hexpected]
    exact congrArg some hout
  · have honest : sampleStart.Honest (Request.AnsweredBy charFrequency countValues sampleContents)
        [] := fun _ he => nomatch he
    have hcluster : Cluster.transport.Honest sampleStart.job
        (Request.AnsweredBy charFrequency countValues sampleContents) _ :=
      Cluster.transport_honest rfl rfl sampleCluster.splits
    have hend : ((Simulation.start Cluster.transport sampleCluster (sampleStart.steps [])).runFor
        10).1 = some (.done ((∅ : Results).insert 0 "a=1"), 0) := rfl
    have hexpected := (results_of_honest_answers h orderFree_countValues honest).2
      Cluster.transport _ sampleCluster 10 0 _ hcluster rfl hend
    refine ⟨_, 0, hend, ?_⟩
    rw [hexpected]
    exact congrArg some hout

end Coordinator
end Foreman
