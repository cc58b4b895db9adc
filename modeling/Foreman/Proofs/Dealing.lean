import Foreman.Assembly
import Foreman.Proofs.Grouping

/-!
# Dealing out once

An assembly takes one move after the other: records of map tasks, results of partitions, and demands for the
partitions. The first demand deals out all that has been gathered: every key to the one partition that the hash
names, with all of its values in the order in which they came. Whatever is gathered, reported or demanded
later, the partitions stay what they are (`records_are_dealt_once`).
-/

namespace Foreman

/-- What becomes of records that are dealt out to `n` partitions: a partition has the keys that lie there, each
with all values that the records have for it, of which there is at least one; and the partitions hold every
record once. -/
structure Dealt (n : Nat) (rs : List Record) (ps : List Partition) : Prop where
  length : ps.length = n
  keys : ∀ i p, ps[i]? = some p →
    ∀ key, key ∈ p ↔ (∃ r ∈ rs, r.key = key) ∧ partitionIndex key n = i
  values : ∀ p ∈ ps, ∀ key values, p[key]? = some values → values = valuesOf key rs ∧ values ≠ []
  once : (ps.flatMap Partition.records).Perm rs

namespace Partition

/-! ## 1. Partitions that are dealt out -/

section

variable {n i : Nat} {rs : List Record} {p : Partition}

theorem eq_group_of_deal (h : (deal n rs)[i]? = some p) :
    p = group (rs.filter fun r => partitionIndex r.key n = i) := by
  have hi : i < n := by
    have hlt := (List.getElem?_eq_some_iff.1 h).1
    rwa [length_deal] at hlt
  rw [getElem?_deal hi, Option.some.injEq] at h
  exact h.symm

theorem mem_of_deal (h : (deal n rs)[i]? = some p) (key : String) :
    key ∈ p ↔ (∃ r ∈ rs, r.key = key) ∧ partitionIndex key n = i := by
  rw [eq_group_of_deal h, mem_group, keysOf_filter (fun key => partitionIndex key n = i),
    List.mem_filter, mem_keysOf, decide_eq_true_iff]

theorem values_of_deal (h : (deal n rs)[i]? = some p) {key : String} {values : List String}
    (hkey : p[key]? = some values) : values = valuesOf key rs ∧ values ≠ [] := by
  rw [eq_group_of_deal h, getElem?_group_eq_some_iff,
    keysOf_filter (fun key => partitionIndex key n = i), List.mem_filter] at hkey
  obtain ⟨⟨hmem, hplace⟩, hvalues⟩ := hkey
  -- All records of the key lie in this partition, so none of them is filtered out.
  rw [valuesOf_filter (q := fun key => partitionIndex key n = i) hplace] at hvalues
  refine ⟨hvalues, ?_⟩
  rw [hvalues, ne_eq, valuesOf_eq_nil_iff, not_not]
  exact hmem

theorem dealt_deal (hn : 0 < n) (rs : List Record) : Dealt n rs (deal n rs) where
  length := length_deal n rs
  keys _ _ h key := mem_of_deal h key
  values p hp key values hkey := by
    obtain ⟨i, hi⟩ := List.mem_iff_getElem?.1 hp
    exact values_of_deal hi hkey
  once := records_deal_perm hn rs

end

end Partition

namespace Assembly

/-! ## 2. Moves -/

/-- What can be asked of an assembly: to take the records of a map task, to deal out to a number of partitions,
and to take the result of a partition. -/
inductive Move
  | gather (records : List Record)
  | deal (n : Nat)
  | report (partition : Nat) (value : String)

def Move.isDeal : Move → Bool
  | .deal _ => true
  | _ => false

/-- What an assembly makes of a move: the partitions if they are asked for, and the assembly afterwards. -/
def make (a : Assembly) : Move → Except Fault (Option (List Partition) × Assembly)
  | .gather rs => .ok (none, a.addRecords rs)
  | .deal n =>
    match a.deal? n with
    | .ok (ps, a') => .ok (some ps, a')
    | .error e => .error e
  | .report partition value => .ok (none, a.addResult partition value)

/-- Makes moves one after the other, up to the first fault: all that is dealt out on the way, and the assembly
at the end. -/
def makeAll (a : Assembly) : List Move → Except Fault (List (List Partition) × Assembly)
  | [] => .ok ([], a)
  | m :: moves =>
    match a.make m with
    | .error e => .error e
    | .ok (answer, a') =>
      match a'.makeAll moves with
      | .error e => .error e
      | .ok (dealt, a'') => .ok (answer.toList ++ dealt, a'')

section

variable {a : Assembly} {ps : List Partition}

theorem makeAll_gathers (batches : List (List Record)) (moves : List Move) :
    a.makeAll (batches.map Move.gather ++ moves) = (a.addRecords batches.flatten).makeAll moves := by
  induction batches generalizing a with
  | nil => simp [addRecords]
  | cons rs batches ih =>
    have hadd : (a.addRecords rs).addRecords batches.flatten = a.addRecords (rs :: batches).flatten := by
      simp [addRecords]
    rw [List.map_cons, List.cons_append, makeAll]
    simp only [make, Option.toList_none, List.nil_append]
    rw [ih, hadd]
    cases (a.addRecords (rs :: batches).flatten).makeAll moves <;> rfl

theorem makeAll_deal (n : Nat) : a.makeAll [.deal n] =
    match a.deal? n with
    | .ok (ps, a') => .ok ([ps], a')
    | .error e => .error e := by
  simp only [makeAll, make]
  cases a.deal? n <;> rfl

/-! ## 3. The partitions stay -/

-- Once the records are dealt out, no move is a fault, and every demand is met with the same partitions.
theorem make_of_partitions (h : a.partitions = some ps) (m : Move) :
    ∃ a', a.make m = .ok (if m.isDeal then some ps else none, a') ∧ a'.partitions = some ps := by
  cases m with
  | gather rs => exact ⟨_, rfl, h⟩
  | report partition value => exact ⟨_, rfl, h⟩
  | deal n =>
    refine ⟨a, ?_, h⟩
    simp [make, deal?, deal_of_partitions h, h, Move.isDeal]

theorem makeAll_of_partitions (h : a.partitions = some ps) (moves : List Move) :
    ∃ a', a.makeAll moves = .ok (List.replicate (moves.countP Move.isDeal) ps, a') := by
  induction moves generalizing a with
  | nil => exact ⟨a, rfl⟩
  | cons m moves ih =>
    obtain ⟨next, hmake, hnext⟩ := make_of_partitions h m
    obtain ⟨a', hrest⟩ := ih hnext
    refine ⟨a', ?_⟩
    simp only [makeAll, hmake, hrest]
    cases hm : m.isDeal <;> simp [hm, List.replicate_succ]

end

/-- Records are gathered in any number of batches, and then dealt out. To as many partitions as can be
addressed, they are dealt out as they should be, and nothing stays in the buffer; every later demand, for
whatever number of partitions, is met with the same partitions, whatever is gathered and reported in between.
There is no dealing out to more partitions than can be addressed. -/
theorem records_are_dealt_once (batches : List (List Record)) {n : Nat} (hn : 0 < n) :
    (n ≤ maxPartitions →
      ∃ ps a, empty.makeAll (batches.map Move.gather ++ [.deal n]) = .ok ([ps], a) ∧
        Dealt n batches.flatten ps ∧ a.buffer = [] ∧
        ∀ later, ∃ a', a.makeAll later = .ok (List.replicate (later.countP Move.isDeal) ps, a')) ∧
    (maxPartitions < n →
      empty.makeAll (batches.map Move.gather ++ [.deal n]) = .error .tooManyPartitions) := by
  have hdeal := deal?_of_partitions_eq_none (a := empty.addRecords batches.flatten) rfl hn
  rw [makeAll_gathers, makeAll_deal, hdeal]
  constructor
  · intro hmax
    rw [if_neg (Nat.not_lt.2 hmax)]
    exact ⟨_, _, rfl, Partition.dealt_deal hn _, rfl, makeAll_of_partitions rfl⟩
  · intro hmax
    rw [if_pos hmax]

theorem word_of_two_batches_is_dealt :
    0 < 2 ∧ 2 ≤ maxPartitions ∧
    ∃ ps a, empty.makeAll [.gather [⟨"b", "1"⟩, ⟨"a", "1"⟩], .gather [⟨"b", "2"⟩], .deal 2] =
        .ok ([ps], a) ∧
      ps.length = 2 ∧ a.buffer = [] ∧
      (∀ i p, ps[i]? = some p → p["b"]? = if i = 1 then some ["1", "2"] else none) ∧
      ∃ a', a.makeAll [.deal 0, .gather [⟨"b", "3"⟩], .report 0 "b=3", .deal 7] =
        .ok ([ps, ps], a') := by
  have htwo : 0 < 2 := by decide
  have hmax : 2 ≤ maxPartitions := by decide
  obtain ⟨ps, a, hmake, hdealt, hbuffer, hlater⟩ :=
    (records_are_dealt_once [[⟨"b", "1"⟩, ⟨"a", "1"⟩], [⟨"b", "2"⟩]] htwo).1 hmax
  refine ⟨htwo, hmax, ps, a, hmake, hdealt.length, hbuffer, ?_, hlater _⟩
  intro i p hp
  have hmem := hdealt.keys i p hp "b"
  have hplace : partitionIndex "b" 2 = 1 := rfl
  by_cases hi : i = 1
  · have hb : p["b"]?.isSome := by
      rw [← Std.ExtTreeMap.mem_iff_isSome_getElem?, hmem]
      exact ⟨⟨⟨"b", "1"⟩, by decide, rfl⟩, hplace.trans hi.symm⟩
    obtain ⟨values, hvalues⟩ := Option.isSome_iff_exists.1 hb
    rw [if_pos hi, hvalues, (hdealt.values p (List.mem_of_getElem? hp) "b" values hvalues).1]
    rfl
  · rw [if_neg hi]
    apply Std.ExtTreeMap.getElem?_eq_none
    rw [hmem]
    intro h
    exact hi (h.2.symm.trans hplace)

/-- So many partitions cannot be made, even for a single record. -/
theorem record_not_dealt_to_too_many :
    ¬ ∃ ps a, empty.makeAll [.gather [⟨"a", "1"⟩], .deal 9223372036854775808] = .ok ([ps], a) ∧
      ps.length = 9223372036854775808 := by
  rintro ⟨ps, a, hmake, -⟩
  have hfault : empty.makeAll [.gather [⟨"a", "1"⟩], .deal 9223372036854775808] =
      .error .tooManyPartitions := rfl
  rw [hfault] at hmake
  cases hmake

end Assembly
end Foreman
