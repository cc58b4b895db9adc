import Foreman.Proofs.KeyOrder
import Foreman.Proofs.Mirror

/-!
# What reduce calls carry

The records of a partition are fixed when the map phase closes. Every call for a reduce task, of whatever
attempt and to whatever worker, carries them: those of the accepted map outputs whose keys lie in the
partition, sorted by key (`reduce_calls_carry_partitions`).
-/

namespace Foreman

/-- The records that a partition is sent out with: those of its keys, ascending by key, and those of one
key in the order in which they were accepted. -/
def Acceptances.payload (accepted : Acceptances) (n p : Nat) : List Record :=
  byKey (accepted.emitted.filter fun r => partitionIndex r.key n = p)

namespace Coordinator

section

variable {c : Coordinator} {accepted : Acceptances} (h : c.Sound accepted)

include h

/-! ## 1. Nothing is emitted after the map phase -/

theorem Sound.mem_ids_lt {i : Nat} (hmem : ⟨.map, i⟩ ∈ accepted.map Prod.fst) :
    i < c.job.splits.length := by
  have ⟨task, htask, _⟩ := (h.mem_ids_iff _).1 hmem
  exact (h.map_isSome i).1 (by rw [htask]; rfl)

-- Every map task has had its one output accepted by then, so later outputs are those of reduce tasks.
theorem Sound.emitted_of_closed {c' : Coordinator} {later : Acceptances}
    (hp : c.phase ≠ .mapping) (h' : c'.Sound (accepted ++ later)) (hjob : c'.job = c.job) :
    Acceptances.emitted (accepted ++ later) = accepted.emitted := by
  have honce := h'.balanced.once
  rw [List.map_append, List.nodup_append] at honce
  have hlater : Acceptances.emitted later = [] := by
    apply List.flatMap_eq_nil_iff.2
    intro ⟨⟨kind, i⟩, output⟩ hmem
    have hid := List.mem_map_of_mem hmem (f := Prod.fst)
    have hkind := h'.balanced.kinds _ (List.mem_append_right _ hmem)
    cases output with
    | value text => rfl
    | records rs =>
      cases hkind
      have hlt := h'.mem_ids_lt (by rw [List.map_append]; exact List.mem_append_right _ hid)
      rw [hjob] at hlt
      exact absurd rfl (honce.2.2 _ (h.mem_ids_of_closed hp hlt) _ hid)
  unfold Acceptances.emitted at hlater ⊢
  rw [List.flatMap_append, hlater, List.append_nil]

/-! ## 2. Requests of reduce tasks -/

theorem Sound.request_of_reduce {call : Call} (hcall : call ∈ c.calls) {p : Nat}
    (htask : call.task = ⟨.reduce, p⟩) :
    c.phase ≠ .mapping ∧ p < c.job.reduceCount ∧
      call.request = .reduce (accepted.payload c.job.reduceCount p) c.job.reduceFunction := by
  have ⟨task, hget, hrequest⟩ := h.regular.known call hcall
  rw [htask] at hget
  have ⟨hp, hlt⟩ := (h.reduce_isSome p).1 (by rw [hget]; rfl)
  refine ⟨hp, hlt, ?_⟩
  have hinput := h.balanced.reduceInput p
  rw [hget, h.partitions_of_closed hp, Option.getD_some, Partition.getElem?_deal hlt,
    Option.map_some, Option.map_some, Option.some.injEq] at hinput
  rw [hrequest, hinput, Request.ofInput, Partition.records_group]
  rfl

end

/-- A call asks for what its task is about. Every reduce call that has ever been made for a partition
carries the same records: of the outputs of all map tasks, one accepted for each, those records that lie
in the partition, sorted by key. Once all map tasks are completed, nothing that happens later changes what
the calls for a partition carry. -/
theorem reduce_calls_carry_partitions {job : Job} {workers : List Address} {config : Config}
    {c₀ : Coordinator} (h : create? job workers config = .ok c₀) (run : List Step) :
    (∀ call ∈ (c₀.steps run).calls, call.request.kind = call.task.kind ∧
      ∀ p, call.task = ⟨.reduce, p⟩ → p < job.reduceCount ∧
        (∀ i, i < job.splits.length → ((c₀.accepted run).map Prod.fst).count ⟨.map, i⟩ = 1) ∧
        call.request =
          .reduce ((c₀.accepted run).payload job.reduceCount p) job.reduceFunction) ∧
    (¬ (c₀.steps run).Unfinished .map → ∀ more, ∀ call ∈ (c₀.steps (run ++ more)).calls,
      ∀ p, call.task = ⟨.reduce, p⟩ → call.request =
        .reduce ((c₀.accepted run).payload job.reduceCount p) job.reduceFunction) := by
  have hjob : ∀ run, (c₀.steps run).job = job := job_of_create? h
  have hs : (c₀.steps run).Sound (c₀.accepted run) := sound_steps h run
  constructor
  · intro call hcall
    have ⟨task, htask, hrequest⟩ := hs.regular.known call hcall
    refine ⟨by rw [hrequest, hs.kind_of_request htask], ?_⟩
    intro p hid
    have ⟨hp, hlt, hrequest⟩ := hs.request_of_reduce hcall hid
    rw [hjob run] at hlt hrequest
    refine ⟨hlt, ?_, hrequest⟩
    intro i hi
    apply List.count_eq_one_of_mem hs.balanced.once
    exact hs.mem_ids_of_closed hp (by rw [hjob run]; exact hi)
  · intro hmaps more call hcall p hid
    have hs' := hs.steps more
    rw [← steps_append] at hs'
    have ⟨hp', _, hrequest⟩ := hs'.request_of_reduce hcall hid
    rw [hjob] at hrequest
    -- Where there are reduce tasks, the number of partitions was no obstacle.
    have hmax : ¬ Assembly.maxPartitions < (c₀.steps run).job.reduceCount := by
      have hle := (hs'.phased.closed hp').2
      rw [hjob] at hle ⊢
      omega
    have hp : (c₀.steps run).phase ≠ .mapping := by
      rw [ne_eq, hs.phase_eq_mapping_iff]
      exact not_or.2 ⟨hmaps, hmax⟩
    rw [hrequest]
    unfold Acceptances.payload
    rw [hs.emitted_of_closed hp hs' ((hjob _).trans (hjob run).symm)]

theorem attempts_carry_the_same_records :
    ((pairStart.steps pairRun).calls.drop 3).map Call.request = List.replicate 2
      (.reduce [⟨"a", "1"⟩, ⟨"a", "2"⟩, ⟨"b", "1"⟩, ⟨"b", "2"⟩] "sum") := by
  have h : create? pairStart.job [.loopback 1, .loopback 2] {} = .ok pairStart := rfl
  have hpayload : (pairStart.accepted pairRun).payload 1 0 =
      [⟨"a", "1"⟩, ⟨"a", "2"⟩, ⟨"b", "1"⟩, ⟨"b", "2"⟩] := by
    unfold Acceptances.payload
    rw [← Partition.records_group]
    decide +kernel
  have htasks : ∀ call ∈ (pairStart.steps pairRun).calls.drop 3, call.task = ⟨.reduce, 0⟩ := by
    decide +kernel
  rw [List.eq_replicate_iff]
  refine ⟨rfl, ?_⟩
  intro request hrequest
  have ⟨call, hcall, heq⟩ := List.mem_map.1 hrequest
  have hcarry := ((reduce_calls_carry_partitions h pairRun).1 call (List.mem_of_mem_drop hcall)).2
  rw [← heq, (hcarry 0 (htasks call hcall)).2.2, ← hpayload]
  rfl

end Coordinator
end Foreman
