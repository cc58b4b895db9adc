import Foreman.Proofs.Grouping

/-!
# The order of keys

Keys are ordered as texts, code point by code point. That is the order of their UTF-8 bytes
(`utf8Bytes_le_iff`). The records of a group are the records as they came, sorted by key in this order,
and the sort is stable (`records_group`).
-/

namespace Foreman

/-! ## 1. Texts are ordered by their bytes -/

def utf8Bytes (s : String) : List UInt8 :=
  s.toUTF8.data.toList

theorem utf8Bytes_eq (s : String) : utf8Bytes s = s.toList.flatMap String.utf8EncodeChar := by
  show s.toByteArray.data.toList = _
  rw [← String.utf8Encode_toList, List.utf8Encode, List.toList_data_toByteArray]

theorem cons_byte_lt_cons_byte {m n : Nat} {l l' : List UInt8} (hn : n < 256) (hle : m ≤ n)
    (h : m = n → l < l') : UInt8.ofNat m :: l < UInt8.ofNat n :: l' := by
  rw [List.cons_lt_cons_iff]
  by_cases heq : m = n
  · exact .inr ⟨by rw [heq], h heq⟩
  · apply Or.inl
    rw [UInt8.lt_iff_toNat_lt, UInt8.toNat_ofNat', UInt8.toNat_ofNat']
    omega

-- A character of more bytes begins with a greater one, and characters of as many bytes differ in the
-- first byte in which their numbers do. So whatever follows them does not matter.
theorem utf8EncodeChar_append_lt {c d : Char} (h : c < d) (s t : List UInt8) :
    String.utf8EncodeChar c ++ s < String.utf8EncodeChar d ++ t := by
  have hlt : c.val.toNat < d.val.toNat := UInt32.lt_iff_toNat_lt.1 h
  have hmax : d.val.toNat < 0x110000 := by
    rcases d.valid with hd | hd
    · omega
    · exact hd.2
  unfold String.utf8EncodeChar
  dsimp only
  generalize c.val.toNat = v at hlt ⊢
  generalize d.val.toNat = w at hlt hmax ⊢
  split_ifs
  all_goals
    simp only [List.cons_append, List.nil_append]
    repeat
      apply cons_byte_lt_cons_byte (by omega) (by omega)
      intro
    omega

theorem utf8Bytes_lt {s t : String} (h : s < t) : utf8Bytes s < utf8Bytes t := by
  rw [utf8Bytes_eq, utf8Bytes_eq]
  rw [String.lt_iff_toList_lt] at h
  generalize s.toList = l at h ⊢
  generalize t.toList = l' at h ⊢
  change List.Lex _ l l' at h
  induction h with
  | @nil c cs =>
    rw [List.flatMap_cons, List.flatMap_nil]
    have hne : String.utf8EncodeChar c ≠ [] := String.utf8EncodeChar_ne_nil
    cases hc : String.utf8EncodeChar c with
    | nil => exact absurd hc hne
    | cons b bs => exact .nil
  | rel h => exact utf8EncodeChar_append_lt h _ _
  | @cons c l l' _ ih =>
    rw [List.flatMap_cons, List.flatMap_cons]
    induction String.utf8EncodeChar c with
    | nil => exact ih
    | cons b bs hbs => exact .cons hbs

theorem utf8Bytes_le_iff {s t : String} : utf8Bytes s ≤ utf8Bytes t ↔ s ≤ t := by
  constructor
  · intro h
    apply Classical.byContradiction
    intro hnot
    exact h (utf8Bytes_lt (not_le.1 hnot))
  · intro h hlt
    rcases h.lt_or_eq with h | h
    · exact List.lt_asymm (utf8Bytes_lt h) hlt
    · rw [h] at hlt
      exact List.lt_irrefl _ hlt

/-! ## 2. Records by key -/

/-- The records in ascending order of the bytes of their keys; those of one key stay in their order. -/
def byKey (rs : List Record) : List Record :=
  rs.mergeSort fun r s => utf8Bytes r.key ≤ utf8Bytes s.key

section

variable (rs : List Record)

theorem key_le_trans (a b c : Record) (hab : decide (utf8Bytes a.key ≤ utf8Bytes b.key) = true)
    (hbc : decide (utf8Bytes b.key ≤ utf8Bytes c.key) = true) :
    decide (utf8Bytes a.key ≤ utf8Bytes c.key) = true := by
  rw [decide_eq_true_iff, utf8Bytes_le_iff] at *
  exact hab.trans hbc

theorem key_le_total (a b : Record) :
    (decide (utf8Bytes a.key ≤ utf8Bytes b.key) || decide (utf8Bytes b.key ≤ utf8Bytes a.key)) =
      true := by
  rw [Bool.or_eq_true, decide_eq_true_iff, decide_eq_true_iff, utf8Bytes_le_iff, utf8Bytes_le_iff]
  exact le_total _ _

theorem byKey_ascending : (byKey rs).Pairwise fun r s => r.key ≤ s.key := by
  apply (List.pairwise_mergeSort key_le_trans key_le_total rs).imp
  intro r s h
  exact utf8Bytes_le_iff.1 (of_decide_eq_true h)

-- The records of one key are in order already, so a stable sort keeps them.
theorem valuesOf_byKey (key : String) : valuesOf key (byKey rs) = valuesOf key rs := by
  have hperm : (byKey rs).Perm rs := List.mergeSort_perm _ _
  have hsub : (rs.filter fun r => r.key = key).Sublist (byKey rs) := by
    apply List.sublist_mergeSort key_le_trans key_le_total
    · rw [List.pairwise_iff_forall_sublist]
      intro r s hrs
      have hr := (List.mem_filter.1 (hrs.subset List.mem_cons_self)).2
      have hs := (List.mem_filter.1 (hrs.subset (List.mem_cons_of_mem _ List.mem_cons_self))).2
      rw [decide_eq_true_iff] at hr hs
      rw [hr, hs]
      exact decide_eq_true (List.le_refl _)
    · exact List.filter_sublist
  have hfilter := hsub.filter fun r => r.key = key
  rw [List.filter_filter] at hfilter
  simp only [Bool.and_self] at hfilter
  unfold valuesOf
  rw [hfilter.eq_of_length (hperm.filter _).length_eq.symm]

end

theorem key_le_of_mem_keysOf {r : Record} {rs : List Record} {key : String}
    (hrs : ∀ s ∈ rs, r.key ≤ s.key) (h : key ∈ keysOf (r :: rs)) : r.key ≤ key := by
  have ⟨s, hs, hkey⟩ := mem_keysOf.1 h
  rw [← hkey]
  rcases List.mem_cons.1 hs with heq | htail
  · rw [heq]
  · exact hrs s htail

theorem mem_keysOf_head (r : Record) (rs : List Record) : r.key ∈ keysOf (r :: rs) :=
  mem_keysOf.2 ⟨r, List.mem_cons_self, rfl⟩

theorem mem_keysOf_congr {rs ss : List Record} (h : ∀ key, valuesOf key rs = valuesOf key ss)
    (key : String) : key ∈ keysOf rs ↔ key ∈ keysOf ss := by
  rw [← not_iff_not, ← valuesOf_eq_nil_iff, ← valuesOf_eq_nil_iff, h key]

-- Records that are sorted by key are told apart by the values of their keys.
theorem eq_of_ascending_of_valuesOf {rs ss : List Record}
    (hrs : rs.Pairwise fun r s => r.key ≤ s.key) (hss : ss.Pairwise fun r s => r.key ≤ s.key)
    (h : ∀ key, valuesOf key rs = valuesOf key ss) : rs = ss := by
  induction rs generalizing ss with
  | nil =>
    cases ss with
    | nil => rfl
    | cons s ss =>
      have ⟨_, hnil, _⟩ := mem_keysOf.1 ((mem_keysOf_congr h s.key).2 (mem_keysOf_head s ss))
      cases hnil
  | cons r rs ih =>
    cases ss with
    | nil =>
      have ⟨_, hnil, _⟩ := mem_keysOf.1 ((mem_keysOf_congr h r.key).1 (mem_keysOf_head r rs))
      cases hnil
    | cons s ss =>
      have hmem := mem_keysOf_congr h
      rw [List.pairwise_cons] at hrs hss
      -- Each of the two first keys occurs in the other list, so neither is greater.
      have hkey : r.key = s.key := by
        apply le_antisymm
        · exact key_le_of_mem_keysOf hrs.1 ((hmem _).2 (mem_keysOf_head s ss))
        · exact key_le_of_mem_keysOf hss.1 ((hmem _).1 (mem_keysOf_head r rs))
      have hvalues := h r.key
      rw [valuesOf_cons, valuesOf_cons, if_pos rfl, if_pos hkey.symm, List.cons.injEq] at hvalues
      have heq : r = s := by
        cases r
        cases s
        rw [Record.mk.injEq]
        exact ⟨hkey, hvalues.1⟩
      have hrest : ∀ key, valuesOf key rs = valuesOf key ss := by
        intro key
        have hk := h key
        rw [heq, valuesOf_cons, valuesOf_cons] at hk
        split at hk
        · exact List.tail_eq_of_cons_eq hk
        · exact hk
      rw [heq, ih hrs.2 hss.2 hrest]

namespace Partition

theorem records_ascending (p : Partition) : p.records.Pairwise fun r s => r.key ≤ s.key := by
  unfold records
  rw [List.pairwise_flatMap]
  constructor
  · intro ⟨key, values⟩ _
    rw [List.pairwise_map]
    apply List.pairwise_of_forall
    intro _ _
    exact le_refl key
  · apply Std.ExtTreeMap.ordered_keys_toList.imp
    intro ⟨key, values⟩ ⟨key', values'⟩ hlt r hr s hs
    have ⟨_, _, hr⟩ := List.mem_map.1 hr
    have ⟨_, _, hs⟩ := List.mem_map.1 hs
    rw [← hr, ← hs]
    exact (compare_lt_iff_lt.1 hlt).le

-- The records of a group are the records as they came, sorted by key.
theorem records_group (rs : List Record) : (group rs).records = byKey rs := by
  apply eq_of_ascending_of_valuesOf (records_ascending _) (byKey_ascending rs)
  intro key
  rw [valuesOf_records_group, valuesOf_byKey]

end Partition
end Foreman
