import Foreman.Function.Registry
import Foreman.Proofs.Regrouping

/-!
# Reading outputs back

The output of a partition is one text, and nothing in it marks where a key ends but the separators. Read back
entry by entry, it gives the reduced value of every key again, provided that no key has a separator in it, and
only then (`output_reads_back_iff`).
-/

namespace Foreman

/-! ## 1. Reading -/

/-- Reads an entry: its text up to the first equals sign, and its text after that. -/
def readEntry? (entry : List Char) : Option (String × String) :=
  match entry.dropWhile (· ≠ '=') with
  | [] => none
  | _ :: value => some (String.ofList (entry.takeWhile (· ≠ '=')), String.ofList value)

/-- Reads the output of a partition: what stands between its commas, unless it is empty, has to be an entry. Of
several entries for a key the last one counts. -/
def readOutput? (text : String) : Option (Std.ExtTreeMap String String) :=
  (((text.toList.splitOn ',').filter (· ≠ [])).mapM readEntry?).map fun entries =>
    Std.ExtTreeMap.ofList entries

/-- Whether a key has no separator in it. -/
def IsPlainKey (key : String) : Prop :=
  ',' ∉ key.toList ∧ '=' ∉ key.toList

/-! ## 2. What is read has plain keys -/

theorem not_mem_of_mem_splitOn {c : Char} {l piece : List Char} (h : piece ∈ l.splitOn c) : c ∉ piece := by
  induction l generalizing piece with
  | nil =>
    rw [List.splitOn_nil, List.mem_singleton] at h
    simp [h]
  | cons d l ih =>
    rw [List.splitOn_cons_eq_if_modifyHead] at h
    split at h
    · rcases List.mem_cons.1 h with rfl | h
      · simp
      · exact ih h
    · rename_i hne
      obtain ⟨first, rest, hsplit⟩ := List.exists_cons_of_ne_nil (List.splitOn_ne_nil c l)
      rw [hsplit] at h ih
      rcases List.mem_cons.1 h with rfl | h
      · have hfirst := ih List.mem_cons_self
        rw [List.mem_cons, not_or]
        exact ⟨fun heq => hne (by simp [heq]), hfirst⟩
      · exact ih (List.mem_cons_of_mem _ h)

theorem exists_of_mem_mapM {α β : Type} {f : α → Option β} {l : List α} {bs : List β}
    (h : l.mapM f = some bs) {b : β} (hb : b ∈ bs) : ∃ a ∈ l, f a = some b := by
  induction l generalizing bs with
  | nil =>
    cases h
    cases hb
  | cons a l ih =>
    simp only [List.mapM_cons, Option.bind_eq_bind, Option.bind_eq_some_iff, Option.pure_def,
      Option.some.injEq] at h
    obtain ⟨b', hb', rest, hrest, rfl⟩ := h
    rcases List.mem_cons.1 hb with rfl | hb
    · exact ⟨a, List.mem_cons_self, hb'⟩
    · obtain ⟨a', ha', hfa⟩ := ih hrest hb
      exact ⟨a', List.mem_cons_of_mem a ha', hfa⟩

theorem isPlainKey_of_readEntry? {entry : List Char} {e : String × String} (hcomma : ',' ∉ entry)
    (h : readEntry? entry = some e) : IsPlainKey e.1 := by
  unfold readEntry? at h
  split at h
  · cases h
  · cases h
    simp only [IsPlainKey, String.toList_ofList]
    constructor
    · exact fun hmem => hcomma (List.takeWhile_sublist _ |>.mem hmem)
    · intro hmem
      simpa using List.all_eq_true.1 List.all_takeWhile _ hmem

theorem isPlainKey_of_readOutput? {text : String} {m : Std.ExtTreeMap String String}
    (h : readOutput? text = some m) {key : String} (hkey : key ∈ m) : IsPlainKey key := by
  obtain ⟨entries, hentries, rfl⟩ := Option.map_eq_some_iff.1 h
  rw [Std.ExtTreeMap.mem_ofList, List.contains_iff_mem] at hkey
  obtain ⟨e, he, rfl⟩ := List.mem_map.1 hkey
  obtain ⟨piece, hpiece, hread⟩ := exists_of_mem_mapM hentries he
  exact isPlainKey_of_readEntry? (not_mem_of_mem_splitOn (List.mem_filter.1 hpiece).1) hread

/-! ## 3. Entries with plain keys are read as they were written -/

theorem readEntry?_entryText {key : String} (h : '=' ∉ key.toList) (value : String) :
    readEntry? (entryText key value).toList = some (key, value) := by
  have hkey : ∀ c ∈ key.toList, decide (c ≠ '=') = true := by
    intro c hc
    exact decide_eq_true fun heq => h (heq ▸ hc)
  have htext : (entryText key value).toList = key.toList ++ '=' :: value.toList := by
    simp [entryText]
  rw [htext, readEntry?, List.dropWhile_append_of_pos hkey, List.takeWhile_append_of_pos hkey]
  simp

-- No entry is empty, and none has a comma in it, so the pieces between the commas are the entries.
theorem pieces_of_entries {entries : List (String × String)}
    (h : ∀ e ∈ entries, IsPlainKey e.1 ∧ ',' ∉ e.2.toList) :
    ((",".intercalate (entries.map fun e => entryText e.1 e.2)).toList.splitOn ',').filter (· ≠ []) =
      entries.map fun e => (entryText e.1 e.2).toList := by
  have hlist : (",".intercalate (entries.map fun e => entryText e.1 e.2)).toList =
      [','].intercalate (entries.map fun e => (entryText e.1 e.2).toList) := by
    rw [String.toList_intercalate, List.map_map]
    rfl
  rw [hlist]
  by_cases hnil : entries = []
  · subst hnil
    rfl
  · rw [List.splitOn_intercalate]
    · apply List.filter_eq_self.2
      intro piece hpiece
      obtain ⟨e, -, rfl⟩ := List.mem_map.1 hpiece
      simp [entryText]
    · intro piece hpiece
      obtain ⟨e, he, rfl⟩ := List.mem_map.1 hpiece
      simp [entryText, (h e he).1.1, (h e he).2]
    · simpa using hnil

theorem readOutput?_entries {entries : List (String × String)}
    (h : ∀ e ∈ entries, IsPlainKey e.1 ∧ ',' ∉ e.2.toList) :
    readOutput? (",".intercalate (entries.map fun e => entryText e.1 e.2)) =
      some (Std.ExtTreeMap.ofList entries) := by
  have hread := mapM_eq_some_of_forall (f := fun e : String × String => readEntry? (entryText e.1 e.2).toList)
    (g := id) fun e he => readEntry?_entryText (h e he).1.2 e.2
  rw [readOutput?, pieces_of_entries h, List.mapM_map, Function.comp_def, hread, List.map_id]
  rfl

/-! ## 4. Outputs of partitions -/

theorem ofList_toList (m : Std.ExtTreeMap String String) : Std.ExtTreeMap.ofList m.toList = m := by
  apply Std.ExtTreeMap.ext_getElem?
  intro key
  cases h : m[key]? with
  | some value =>
    have hmem : (key, value) ∈ m.toList := Std.ExtTreeMap.mem_toList_iff_getElem?_eq_some.2 h
    exact Std.ExtTreeMap.getElem?_ofList_of_mem Std.ReflCmp.compare_self
      Std.ExtTreeMap.distinct_keys_toList hmem
  | none =>
    apply Std.ExtTreeMap.getElem?_eq_none
    rw [Std.ExtTreeMap.mem_ofList, List.contains_iff_mem, Std.ExtTreeMap.map_fst_toList_eq_keys,
      Std.ExtTreeMap.mem_keys, Std.ExtTreeMap.mem_iff_isSome_getElem?, h]
    exact Bool.false_ne_true

theorem reduceAll_eq_toList (g : ReduceFunction) (p : Partition) : reduceAll g p = (p.map g).toList := by
  rw [Std.ExtTreeMap.toList_map]
  rfl

/-! ## 5. The functions that come with every worker -/

theorem comma_not_mem_toDigits (n : Nat) : ',' ∉ Nat.toDigits 10 n := by
  intro h
  have hdigit : ','.isDigit = true := Nat.isDigit_of_mem_toDigits (by decide) (by decide) h
  exact absurd hdigit (by decide)

theorem comma_not_mem_natText (n : Nat) : ',' ∉ (toString n).toList := by
  simpa using comma_not_mem_toDigits n

theorem comma_not_mem_intText (i : Int) : ',' ∉ (toString i).toList := by
  cases i with
  | ofNat n => exact comma_not_mem_natText n
  | negSucc n =>
    change ',' ∉ ("-" ++ toString (n + 1)).toList
    simpa using comma_not_mem_toDigits (n + 1)

section

variable {name : String} {g : ReduceFunction} (h : Registry.standard.reduce? name = .ok g)

include h

theorem reduce?_standard : g = sumValues ∨ g = countValues ∨ g = maxValue := by
  unfold Registry.reduce? at h
  split at h
  · rename_i found hfound
    cases h
    simp only [Registry.standard, Registry.addReduce, Registry.addMap, Registry.empty,
      Std.ExtTreeMap.getElem?_insert] at hfound
    split_ifs at hfound
    all_goals simp_all
  · cases h

theorem comma_not_mem_reduced (key : String) (values : List String) : ',' ∉ (g key values).toList := by
  rcases reduce?_standard h with rfl | rfl | rfl
  · exact comma_not_mem_intText _
  · exact comma_not_mem_natText _
  · exact comma_not_mem_intText _

/-- The output of a partition under a function that comes with every worker can be read back, and gives the
reduced value of every key that the records have, if and only if no key of the records has a comma or an equals
sign in it. -/
theorem output_reads_back_iff (rs : List Record) :
    readOutput? (reduceRecords g rs) = some ((Partition.group rs).map g) ↔
      ∀ r ∈ rs, ',' ∉ r.key.toList ∧ '=' ∉ r.key.toList := by
  constructor
  · intro hread r hr
    apply isPlainKey_of_readOutput? hread
    rw [Std.ExtTreeMap.mem_map, Partition.mem_group]
    exact mem_keysOf.2 ⟨r, hr, rfl⟩
  · intro hplain
    have hentries : ∀ e ∈ reduceAll g (Partition.group rs), IsPlainKey e.1 ∧ ',' ∉ e.2.toList := by
      intro e he
      obtain ⟨⟨key, values⟩, hmem, rfl⟩ := List.mem_map.1 he
      obtain ⟨r, hr, hkey⟩ := mem_keysOf.1 (Partition.mem_toList_group.1 hmem).1
      exact ⟨hkey ▸ hplain r hr, comma_not_mem_reduced h key values⟩
    rw [reduceRecords, readOutput?_entries hentries, reduceAll_eq_toList, ofList_toList]

end

theorem counts_read_back_unless_separated :
    Registry.standard.reduce? "count" = .ok countValues ∧
      readOutput? (reduceRecords countValues [⟨"b", "1"⟩, ⟨"", "x"⟩, ⟨"b", "1"⟩]) =
        some ((({} : Std.ExtTreeMap String String).insert "" "1").insert "b" "2") ∧
      readOutput? (reduceRecords countValues [⟨"b", "1"⟩, ⟨",b", "1"⟩]) ≠
        some ((Partition.group [⟨"b", "1"⟩, ⟨",b", "1"⟩]).map countValues) := by
  have hname : Registry.standard.reduce? "count" = .ok countValues := rfl
  have hcounts : (Partition.group [⟨"b", "1"⟩, ⟨"", "x"⟩, ⟨"b", "1"⟩]).map countValues =
      (({} : Std.ExtTreeMap String String).insert "" "1").insert "b" "2" := by
    decide +kernel
  refine ⟨hname, ?_, ?_⟩
  · rw [← hcounts]
    apply (output_reads_back_iff hname _).2
    decide
  · rw [ne_eq, output_reads_back_iff hname]
    decide

end Foreman
