import Mathlib.Algebra.Ring.Int.Defs
import Mathlib.Algebra.Ring.Nat
import Foreman.Proofs.Dealing
import Foreman.Proofs.KeyOrder

/-!
# Reducing does not depend on the arrangement

A partition is sent out as records and grouped again where it is reduced. The two undo each other
(`grouping_undoes_flattening`), so a reduce function sees the values of each key exactly as the partition has
them. The reduce functions that come with every worker do not even see their order
(`record_order_is_immaterial`); their sums stay within 64 bits, in whatever order, if the values of each key are
small enough together.
-/

namespace Foreman

/-! ## 1. Grouping what was flattened -/

namespace Partition

/-- Whether every key of the partition has a value. -/
def Filled (p : Partition) : Prop :=
  ∀ key : String, p[key]? ≠ some []

section

variable {p : Partition}

theorem filled_of_deal {n : Nat} {rs : List Record} (h : p ∈ deal n rs) : p.Filled := by
  obtain ⟨i, hi⟩ := List.mem_iff_getElem?.1 h
  intro key hnil
  exact (values_of_deal hi hnil).2 rfl

theorem group_records (h : p.Filled) : group p.records = p := by
  apply Std.ExtTreeMap.ext_getElem?
  intro key
  rw [getElem?_group, valuesOf_records]
  cases hp : p[key]? with
  | none => rfl
  | some values =>
    have hne : values ≠ [] := fun hnil => h key (hnil ▸ hp)
    rw [Option.getD_some, if_neg hne]

theorem keys_ascending (p : Partition) :
    p.keys.Pairwise fun key key' => utf8Bytes key < utf8Bytes key' :=
  Std.ExtTreeMap.ordered_keys.imp fun h => utf8Bytes_lt (compare_lt_iff_lt.1 h)

theorem reduceAll_eq (g : ReduceFunction) (p : Partition) :
    reduceAll g p = p.keys.map fun key => (key, g key (p.getD key [])) := by
  unfold reduceAll
  rw [← Std.ExtTreeMap.map_fst_toList_eq_keys, List.map_map]
  apply List.map_congr_left
  intro ⟨key, values⟩ hmem
  have hkey : p[key]? = some values := Std.ExtTreeMap.mem_toList_iff_getElem?_eq_some.1 hmem
  simp [Std.ExtTreeMap.getD_eq_getD_getElem?, hkey]

end

end Partition

/-- Taking the records out of a partition and grouping them again gives the partition back, if each of its keys
has a value, as is so in every partition that is dealt out; and taking the records out of their groups sorts
them by key, keeping the order of those of one key. What a partition comes to under a reduce function, which may
depend on the order of the values, is therefore read off the partition itself, its keys in ascending order;
and records with the same values for every key come to the same. -/
theorem grouping_undoes_flattening :
    (∀ n rs, ∀ p ∈ Partition.deal n rs, p.Filled) ∧
    (∀ p : Partition, p.Filled →
      Partition.group p.records = p ∧
      (p.keys.Pairwise fun key key' => utf8Bytes key < utf8Bytes key') ∧
      ∀ g, reduceRecords g p.records =
        ",".intercalate (p.keys.map fun key => entryText key (g key (p.getD key [])))) ∧
    (∀ rs, (Partition.group rs).records = byKey rs) ∧
    ∀ g rs ss, (∀ key, valuesOf key rs = valuesOf key ss) →
      reduceRecords g rs = reduceRecords g ss := by
  refine ⟨fun n rs p => Partition.filled_of_deal, ?_, Partition.records_group, ?_⟩
  · intro p hp
    refine ⟨Partition.group_records hp, p.keys_ascending, ?_⟩
    intro g
    rw [reduceRecords, Partition.group_records hp, Partition.reduceAll_eq, List.map_map]
    rfl
  · intro g rs ss h
    rw [reduceRecords, reduceRecords, Partition.group_eq_of_valuesOf h]

/-- A partition of two keys, and a reduce function that depends on the order of the values. -/
def twoKeys : Partition :=
  (({} : Partition).insert "b" ["1", "2"]).insert "a" ["3"]

def joinValues : ReduceFunction := fun _ values => "+".intercalate values

theorem joined_values_of_regrouped_records :
    twoKeys.Filled ∧ Partition.group twoKeys.records = twoKeys ∧
      reduceRecords joinValues twoKeys.records = "a=3,b=1+2" ∧
      reduceRecords joinValues [⟨"b", "1"⟩, ⟨"a", "3"⟩, ⟨"b", "2"⟩] =
        reduceRecords joinValues [⟨"b", "1"⟩, ⟨"b", "2"⟩, ⟨"a", "3"⟩] := by
  have hfilled : twoKeys.Filled := by
    intro key
    simp only [twoKeys, Std.ExtTreeMap.getElem?_insert]
    split_ifs <;> simp
  obtain ⟨-, hpartition, -, hrecords⟩ := grouping_undoes_flattening
  obtain ⟨hgroup, -, hoperations⟩ := hpartition twoKeys hfilled
  refine ⟨hfilled, hgroup, ?_, ?_⟩
  · rw [hoperations]
    decide +kernel
  · apply hrecords
    intro key
    by_cases ha : "a" = key
    · subst ha
      rfl
    · simp [valuesOf, List.filter_cons, ha]

/-! ## 2. Sums within 64 bits -/

/-- Adds integers to a total one after the other. There is no sum if one on the way does not fit 64 bits. -/
def addUp? (total : Int) : List Int → Option Int
  | [] => some total
  | i :: rest =>
    if -2 ^ 63 ≤ total + i ∧ total + i < 2 ^ 63 then addUp? (total + i) rest else none

/-- The output of a partition whose values are summed up in 64 bits; none if some sum leaves them. -/
def sumRecords? (rs : List Record) : Option String :=
  ((Partition.group rs).toList.mapM fun (key, values) =>
    (addUp? 0 (integers values)).map fun sum => entryText key (toString sum)).map (",".intercalate ·)

/-- What the integers among the values come to without their signs. -/
def magnitude (values : List String) : Nat :=
  ((integers values).map Int.natAbs).sum

-- Signs can only make a sum smaller, so the bound carries over to the next total and what is left.
theorem addUp?_eq_some {l : List Int} {total : Int}
    (h : total.natAbs + (l.map Int.natAbs).sum < 2 ^ 63) : addUp? total l = some (total + l.sum) := by
  induction l generalizing total with
  | nil => simp [addUp?]
  | cons i l ih =>
    rw [List.map_cons, List.sum_cons] at h
    have hfits : -2 ^ 63 ≤ total + i ∧ total + i < 2 ^ 63 := by omega
    have hnext : (total + i).natAbs + (l.map Int.natAbs).sum < 2 ^ 63 := by omega
    rw [addUp?, if_pos hfits, ih hnext, List.sum_cons, Int.add_assoc]

-- That a sum fits in the end says nothing of the sums on the way.
example : addUp? 0 [9223372036854775807, 1, -1] = none ∧
    addUp? 0 [1, -1, 9223372036854775807] = some 9223372036854775807 := by
  decide

theorem magnitude_perm {values values' : List String} (h : values.Perm values') :
    magnitude values = magnitude values' :=
  ((h.filterMap _).map _).sum_nat

theorem mapM_eq_some_of_forall {α β : Type} {f : α → Option β} {g : α → β} {l : List α}
    (h : ∀ a ∈ l, f a = some (g a)) : l.mapM f = some (l.map g) := by
  induction l with
  | nil => rfl
  | cons a l ih =>
    rw [List.mapM_cons, h a List.mem_cons_self, ih fun b hb => h b (List.mem_cons_of_mem a hb)]
    rfl

theorem sumRecords?_eq_some {rs : List Record} (h : ∀ key, magnitude (valuesOf key rs) < 2 ^ 63) :
    sumRecords? rs = some (reduceRecords sumValues rs) := by
  have hsums : ∀ e ∈ (Partition.group rs).toList,
      (addUp? 0 (integers e.2)).map (fun sum => entryText e.1 (toString sum)) =
        some (entryText e.1 (sumValues e.1 e.2)) := by
    intro ⟨key, values⟩ hmem
    obtain ⟨-, hvalues⟩ := Partition.mem_toList_group.1 hmem
    have hfits := h key
    rw [← hvalues, magnitude] at hfits
    rw [addUp?_eq_some (by simpa using hfits), Int.zero_add]
    rfl
  rw [sumRecords?, mapM_eq_some_of_forall hsums, reduceRecords, reduceAll, List.map_map]
  rfl

/-! ## 3. The order of the records -/

theorem reduceRecords_perm {g : ReduceFunction} (hg : g.OrderFree) {rs ss : List Record}
    (h : rs.Perm ss) : reduceRecords g rs = reduceRecords g ss := by
  rw [reduceRecords_eq, reduceRecords_eq, reducedText_perm hg h]

/-- The order of the records does not matter to the reduce functions that come with every worker, be the values
integers or not. Where the integers of each key come to less than 2⁶³ without their signs, it does not matter
to sums in 64 bits either: they are those of all integers, in whatever order, and none leaves 64 bits. -/
theorem record_order_is_immaterial {rs ss : List Record} (h : rs.Perm ss) :
    reduceRecords countValues rs = reduceRecords countValues ss ∧
    reduceRecords maxValue rs = reduceRecords maxValue ss ∧
    ((∀ key, magnitude (valuesOf key rs) < 2 ^ 63) →
      reduceRecords sumValues rs = reduceRecords sumValues ss ∧
      sumRecords? rs = some (reduceRecords sumValues rs) ∧
      sumRecords? ss = some (reduceRecords sumValues ss)) := by
  refine ⟨reduceRecords_perm orderFree_countValues h, reduceRecords_perm orderFree_maxValue h, ?_⟩
  intro hfits
  refine ⟨reduceRecords_perm orderFree_sumValues h, sumRecords?_eq_some hfits, sumRecords?_eq_some ?_⟩
  intro key
  rw [← magnitude_perm (valuesOf_perm h key)]
  exact hfits key

theorem sums_in_two_orders :
    let rs : List Record := [⟨"b", "5"⟩, ⟨"a", "x"⟩, ⟨"b", "9223372036854775790"⟩, ⟨"b", "-7"⟩]
    rs.Perm rs.reverse ∧ (∀ key, magnitude (valuesOf key rs) < 2 ^ 63) ∧
      reduceRecords sumValues rs.reverse = "a=0,b=9223372036854775788" ∧
      sumRecords? rs = sumRecords? rs.reverse := by
  intro rs
  have hperm : rs.Perm rs.reverse := (List.reverse_perm rs).symm
  have hfits : ∀ key, magnitude (valuesOf key rs) < 2 ^ 63 := by
    intro key
    by_cases hb : "b" = key
    · subst hb
      decide +kernel
    · by_cases ha : "a" = key
      · subst ha
        decide +kernel
      · simp [rs, valuesOf, ha, hb, magnitude, integers]
  obtain ⟨htext, hsums, hsums'⟩ := (record_order_is_immaterial hperm).2.2 hfits
  refine ⟨hperm, hfits, ?_, ?_⟩
  · rw [← htext]
    decide +kernel
  · rw [hsums, hsums', htext]

end Foreman
