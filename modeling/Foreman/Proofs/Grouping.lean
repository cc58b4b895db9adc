import Mathlib.Data.Finset.Sort
import Mathlib.Data.String.Basic
import Foreman.Function

/-!
# Grouping and dealing out

Records are told apart by what they say of each key: its values, in their order (`valuesOf`). Grouping
keeps all of these and nothing else, and so does dealing out. What a partition is reduced to is then a
matter of its keys and their values (`reduceRecords_eq`).
-/

namespace Foreman

/-- The values of a key, in the order of the records. -/
def valuesOf (key : String) (rs : List Record) : List String :=
  (rs.filter fun r => r.key = key).map Record.value

/-- The keys that occur, in ascending order. -/
def keysOf (rs : List Record) : List String :=
  (rs.map Record.key).toFinset.sort (· ≤ ·)

/-! ## 1. Keys -/

theorem mem_keysOf {key : String} {rs : List Record} : key ∈ keysOf rs ↔ ∃ r ∈ rs, r.key = key := by
  rw [keysOf, Finset.mem_sort, List.mem_toFinset, List.mem_map]

theorem keysOf_ascending (rs : List Record) : (keysOf rs).Pairwise (· < ·) :=
  (Finset.sortedLT_sort _).pairwise

-- Lists in strictly ascending order are told apart by their members.
theorem eq_of_ascending {α β : Type} [Preorder β] (key : α → β) {l l' : List α}
    (h : l.Pairwise fun a b => key a < key b) (h' : l'.Pairwise fun a b => key a < key b)
    (hmem : ∀ a, a ∈ l ↔ a ∈ l') : l = l' := by
  have hnodup : ∀ {l : List α}, (l.Pairwise fun a b => key a < key b) → l.Nodup := by
    intro l hl
    refine hl.imp ?_
    intro a b hlt heq
    rw [heq] at hlt
    exact lt_irrefl _ hlt
  refine List.Perm.eq_of_pairwise ?_ h h' ?_
  · intro a b _ _ hab hba
    exact absurd (hab.trans hba) (lt_irrefl _)
  · rw [List.perm_ext_iff_of_nodup (hnodup h) (hnodup h')]
    exact hmem

theorem keysOf_perm {rs ss : List Record} (h : rs.Perm ss) : keysOf rs = keysOf ss := by
  unfold keysOf
  rw [List.toFinset_eq_of_perm _ _ (h.map _)]

theorem keysOf_filter (q : String → Bool) (rs : List Record) :
    keysOf (rs.filter fun r => q r.key) = (keysOf rs).filter q := by
  apply eq_of_ascending id (keysOf_ascending _) ((keysOf_ascending rs).filter _)
  intro key
  rw [List.mem_filter, mem_keysOf, mem_keysOf]
  constructor
  · rintro ⟨r, hr, rfl⟩
    have hr := List.mem_filter.1 hr
    exact ⟨⟨r, hr.1, rfl⟩, hr.2⟩
  · rintro ⟨⟨r, hr, rfl⟩, hq⟩
    exact ⟨r, List.mem_filter.2 ⟨hr, hq⟩, rfl⟩

/-! ## 2. Values of keys -/

theorem valuesOf_cons (key : String) (r : Record) (rs : List Record) :
    valuesOf key (r :: rs) = if r.key = key then r.value :: valuesOf key rs else valuesOf key rs := by
  unfold valuesOf
  rw [List.filter_cons]
  by_cases h : r.key = key
  · rw [if_pos (decide_eq_true h), if_pos h, List.map_cons]
  · rw [if_neg (by rw [decide_eq_false h]; exact Bool.false_ne_true), if_neg h]

theorem valuesOf_append (key : String) (rs ss : List Record) :
    valuesOf key (rs ++ ss) = valuesOf key rs ++ valuesOf key ss := by
  unfold valuesOf
  rw [List.filter_append, List.map_append]

theorem valuesOf_eq_nil_iff (key : String) (rs : List Record) :
    valuesOf key rs = [] ↔ key ∉ keysOf rs := by
  rw [valuesOf, mem_keysOf, List.map_eq_nil_iff, List.filter_eq_nil_iff]
  simp

theorem valuesOf_map_mk (key k : String) (values : List String) :
    valuesOf key (values.map (Record.mk k)) = if k = key then values else [] := by
  induction values with
  | nil => simp [valuesOf]
  | cons v values ih =>
    rw [List.map_cons, valuesOf_cons, ih]
    split
    · rfl
    · rfl

theorem count_valuesOf (r : Record) (rs : List Record) :
    (valuesOf r.key rs).count r.value = rs.count r := by
  induction rs with
  | nil => rfl
  | cons s rs ih =>
    rw [valuesOf_cons, List.count_cons]
    by_cases hk : s.key = r.key
    · rw [if_pos hk, List.count_cons, ih]
      have hiff : s.value = r.value ↔ s = r := by
        constructor
        · intro hv
          cases s
          cases r
          rw [Record.mk.injEq]
          exact ⟨hk, hv⟩
        · intro hs
          rw [hs]
      simp only [beq_iff_eq, hiff]
    · have hne : s ≠ r := fun hs => hk (hs ▸ rfl)
      rw [if_neg hk, ih, if_neg (by simpa using hne), Nat.add_zero]

-- Records with the same values for every key are the same records.
theorem perm_of_valuesOf {rs ss : List Record}
    (h : ∀ key, (valuesOf key rs).Perm (valuesOf key ss)) : rs.Perm ss := by
  rw [List.perm_iff_count]
  intro r
  rw [← count_valuesOf, ← count_valuesOf, (h r.key).count_eq]

theorem valuesOf_perm {rs ss : List Record} (h : rs.Perm ss) (key : String) :
    (valuesOf key rs).Perm (valuesOf key ss) :=
  (h.filter _).map _

theorem valuesOf_filter {key : String} {q : String → Bool} (hq : q key = true) (rs : List Record) :
    valuesOf key (rs.filter fun r => q r.key) = valuesOf key rs := by
  unfold valuesOf
  rw [List.filter_filter]
  congr 1
  apply List.filter_congr
  intro r _
  by_cases hk : r.key = key
  · rw [hk, hq, Bool.and_true]
  · rw [decide_eq_false hk, Bool.false_and]

/-! ## 3. Partitions as records -/

namespace Partition

theorem valuesOf_entries_of_ne {key : String} {entries : List (String × List String)}
    (h : ∀ e ∈ entries, e.1 ≠ key) :
    valuesOf key (entries.flatMap fun (k, vs) => vs.map (Record.mk k)) = [] := by
  induction entries with
  | nil => rfl
  | cons e entries ih =>
    rw [List.flatMap_cons, valuesOf_append, valuesOf_map_mk, if_neg (h e List.mem_cons_self),
      ih fun e' he' => h e' (List.mem_cons_of_mem e he'), List.append_nil]

theorem valuesOf_entries_of_mem {key : String} {values : List String}
    {entries : List (String × List String)} (hd : entries.Pairwise fun a b => a.1 ≠ b.1)
    (hmem : (key, values) ∈ entries) :
    valuesOf key (entries.flatMap fun (k, vs) => vs.map (Record.mk k)) = values := by
  induction entries with
  | nil => cases hmem
  | cons e entries ih =>
    rw [List.pairwise_cons] at hd
    rw [List.flatMap_cons, valuesOf_append, valuesOf_map_mk]
    rcases List.mem_cons.1 hmem with heq | hmem
    · -- No later entry has this key.
      rw [← heq] at hd ⊢
      rw [if_pos rfl, valuesOf_entries_of_ne fun e' he' => (hd.1 e' he').symm, List.append_nil]
    · rw [if_neg (hd.1 _ hmem), ih hd.2 hmem, List.nil_append]

-- The values that a partition holds for a key are those that its records have.
theorem valuesOf_records (p : Partition) (key : String) :
    valuesOf key p.records = p[key]?.getD [] := by
  have hkeys : p.toList.Pairwise fun a b => a.1 ≠ b.1 := by
    refine Std.ExtTreeMap.distinct_keys_toList.imp ?_
    intro a b hne heq
    rw [heq] at hne
    exact hne Std.ReflCmp.compare_self
  cases hp : p[key]? with
  | some values =>
    exact valuesOf_entries_of_mem hkeys (Std.ExtTreeMap.mem_toList_iff_getElem?_eq_some.2 hp)
  | none =>
    apply valuesOf_entries_of_ne
    intro e he heq
    have hsome : p[e.1]? = some e.2 := Std.ExtTreeMap.mem_toList_iff_getElem?_eq_some.1 he
    rw [heq, hp] at hsome
    cases hsome

theorem records_push_perm (r : Record) (p : Partition) :
    (push r p).records.Perm (r :: p.records) := by
  apply perm_of_valuesOf
  intro key
  rw [valuesOf_records, getElem?_push, valuesOf_cons, valuesOf_records]
  split
  · rfl
  · rfl

theorem getElem?_group (rs : List Record) (key : String) :
    (group rs)[key]? = if valuesOf key rs = [] then none else some (valuesOf key rs) := by
  induction rs with
  | nil => simp [group, valuesOf]
  | cons r rs ih =>
    change (push r (group rs))[key]? = _
    rw [getElem?_push, valuesOf_cons, ih]
    by_cases hk : r.key = key
    · rw [if_pos hk, if_pos hk, if_neg (List.cons_ne_nil _ _)]
      split
      · rename_i hnil
        rw [hnil]
        rfl
      · rfl
    · rw [if_neg hk, if_neg hk]

theorem getElem?_group_eq_some_iff {rs : List Record} {key : String} {values : List String} :
    (group rs)[key]? = some values ↔ key ∈ keysOf rs ∧ values = valuesOf key rs := by
  rw [getElem?_group]
  by_cases hnil : valuesOf key rs = []
  · rw [if_pos hnil]
    exact iff_of_false (fun h => nomatch h) fun h => (valuesOf_eq_nil_iff key rs).1 hnil h.1
  · rw [if_neg hnil, Option.some.injEq, eq_comm]
    exact (and_iff_right (Classical.not_not.1 fun h => hnil ((valuesOf_eq_nil_iff key rs).2 h))).symm

theorem mem_group {rs : List Record} {key : String} : key ∈ group rs ↔ key ∈ keysOf rs := by
  rw [Std.ExtTreeMap.mem_iff_isSome_getElem?, Option.isSome_iff_exists]
  simp [getElem?_group_eq_some_iff]

-- Grouping is a matter of the values of all keys.
theorem group_eq_of_valuesOf {rs ss : List Record} (h : ∀ key, valuesOf key rs = valuesOf key ss) :
    group rs = group ss := by
  apply Std.ExtTreeMap.ext_getElem?
  intro key
  rw [getElem?_group, getElem?_group, h key]

theorem valuesOf_records_group (rs : List Record) (key : String) :
    valuesOf key (group rs).records = valuesOf key rs := by
  rw [valuesOf_records, getElem?_group]
  split
  · rename_i hnil
    rw [hnil]
    rfl
  · rfl

-- Taking the records out of their groups and grouping them again gives the same groups.
theorem group_records_group (rs : List Record) : group (group rs).records = group rs := by
  apply group_eq_of_valuesOf
  intro key
  rw [valuesOf_records_group]

/-! ## 4. Dealing out -/

-- A partition holds the groups of the keys that the hash places there.
theorem getElem?_deal {n i : Nat} (hi : i < n) (rs : List Record) :
    (deal n rs)[i]? = some (group (rs.filter fun r => partitionIndex r.key n = i)) := by
  induction rs with
  | nil =>
    change (List.replicate n ∅)[i]? = _
    rw [List.getElem?_replicate, if_pos hi]
    rfl
  | cons r rs ih =>
    change ((deal n rs).modify (partitionIndex r.key n) (push r))[i]? = _
    rw [List.getElem?_modify, ih, List.filter_cons]
    by_cases hr : partitionIndex r.key n = i
    · simp only [if_pos hr, if_pos (decide_eq_true hr)]
      rfl
    · simp only [if_neg hr, decide_eq_false hr, Bool.false_eq_true, if_false]
      rfl

theorem flatMap_records_modify_perm (r : Record) {ps : List Partition} {i : Nat}
    (hi : i < ps.length) :
    ((ps.modify i (push r)).flatMap records).Perm (r :: ps.flatMap records) := by
  induction ps generalizing i with
  | nil => cases hi
  | cons p ps ih =>
    cases i with
    | zero =>
      rw [List.modify_zero_cons, List.flatMap_cons, List.flatMap_cons]
      exact (records_push_perm r p).append_right _
    | succ i =>
      rw [List.modify_succ_cons, List.flatMap_cons, List.flatMap_cons]
      exact ((ih (Nat.lt_of_succ_lt_succ hi)).append_left _).trans List.perm_middle

-- Dealing out neither loses nor repeats a record.
theorem records_deal_perm {n : Nat} (hn : 0 < n) (rs : List Record) :
    ((deal n rs).flatMap records).Perm rs := by
  induction rs with
  | nil =>
    have hnil : (deal n []).flatMap records = [] := by
      rw [List.flatMap_eq_nil_iff]
      intro p hp
      rw [List.eq_of_mem_replicate hp]
      rfl
    rw [hnil]
  | cons r rs ih =>
    have hlt : partitionIndex r.key n < (deal n rs).length := by
      rw [length_deal]
      exact partitionIndex_lt r.key hn
    exact (flatMap_records_modify_perm r hlt).trans (ih.cons r)

/-! ## 5. The text of a partition -/

theorem mem_toList_group {rs : List Record} {key : String} {values : List String} :
    (key, values) ∈ (group rs).toList ↔ key ∈ keysOf rs ∧ values = valuesOf key rs := by
  rw [Std.ExtTreeMap.mem_toList_iff_getElem?_eq_some, getElem?_group_eq_some_iff]

theorem toList_group (rs : List Record) :
    (group rs).toList = (keysOf rs).map fun key => (key, valuesOf key rs) := by
  apply eq_of_ascending Prod.fst
  · exact Std.ExtTreeMap.ordered_keys_toList.imp fun h => compare_lt_iff_lt.1 h
  · rw [List.pairwise_map]
    exact keysOf_ascending rs
  · intro e
    rw [List.mem_map]
    constructor
    · intro he
      obtain ⟨hkey, hvalues⟩ := mem_toList_group.1 he
      exact ⟨e.1, hkey, by rw [← hvalues]⟩
    · rintro ⟨key, hkey, rfl⟩
      exact mem_toList_group.2 ⟨hkey, rfl⟩

end Partition

/-- A reduce function that does not depend on the order of the values. -/
def ReduceFunction.OrderFree (g : ReduceFunction) : Prop :=
  ∀ key values values', values.Perm values' → g key values = g key values'

/-- What a partition with such records should come to: one entry for every key, in ascending order. -/
def reducedText (g : ReduceFunction) (rs : List Record) : String :=
  ",".intercalate ((keysOf rs).map fun key => entryText key (g key (valuesOf key rs)))

theorem reduceRecords_eq (g : ReduceFunction) (rs : List Record) :
    reduceRecords g rs = reducedText g rs := by
  unfold reduceRecords reduceAll reducedText
  rw [Partition.toList_group, List.map_map, List.map_map]
  rfl

-- The records of a partition come to the same, whether they are sent as emitted or by key.
theorem reduceRecords_group (g : ReduceFunction) (rs : List Record) :
    reduceRecords g (Partition.group rs).records = reducedText g rs := by
  rw [← reduceRecords_eq]
  unfold reduceRecords
  rw [Partition.group_records_group]

theorem reducedText_perm {g : ReduceFunction} (hg : g.OrderFree) {rs ss : List Record}
    (h : rs.Perm ss) : reducedText g rs = reducedText g ss := by
  unfold reducedText
  rw [keysOf_perm h]
  congr 1
  apply List.map_congr_left
  intro key _
  rw [hg key _ _ (valuesOf_perm h key)]

/-! ## 6. The reduce functions that come with every worker -/

theorem orderFree_countValues : countValues.OrderFree := by
  intro key values values' h
  unfold countValues
  rw [h.length_eq]

theorem orderFree_sumValues : sumValues.OrderFree := by
  intro key values values' h
  unfold sumValues
  have hsum : (integers values).foldr (· + ·) 0 = (integers values').foldr (· + ·) 0 :=
    List.Perm.foldr_eq (h.filterMap _) 0
  rw [hsum]

theorem orderFree_maxValue : maxValue.OrderFree := by
  intro key values values' h
  unfold maxValue
  have hp : (integers values).Perm (integers values') := h.filterMap _
  have hmax : (integers values).max? = (integers values').max? := by
    cases hm : (integers values).max? with
    | none =>
      rw [List.max?_eq_none_iff] at hm
      rw [hm] at hp
      rw [hp.symm.eq_nil]
      rfl
    | some m =>
      rw [List.max?_eq_some_iff] at hm
      have hm' : m ∈ integers values' ∧ ∀ v ∈ integers values', v ≤ m :=
        ⟨hp.mem_iff.1 hm.1, fun v hv => hm.2 v (hp.mem_iff.2 hv)⟩
      exact (List.max?_eq_some_iff.2 hm').symm
  rw [hmax]

end Foreman
