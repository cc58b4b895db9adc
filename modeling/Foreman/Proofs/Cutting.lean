import Foreman.Proofs.Regrouping

/-!
# How the input is cut

Words end at whitespace, and a character is a matter of its own. So a text may be cut into splits wherever there
is whitespace if its words are counted, and anywhere if its characters are: the map tasks emit the same records as
one map task over the whole text. Every record counts for one, so neither the way of cutting nor the order in
which the outputs of the map tasks are accepted can be seen later (`input_may_be_cut_anywhere`).
-/

namespace Foreman

namespace Text

/-! ## 1. Words end at whitespace -/

theorem pushWord_append (run : List Char) (ws ws' : List (List Char)) :
    pushWord run (ws ++ ws') = pushWord run ws ++ ws' := by
  cases run <;> rfl

-- No run of characters goes on over a blank, so what stands before it and what stands after it are read apart.
theorem cut_append_cons {c : Char} (hc : isBlank c = true) (a b : List Char) :
    cut (a ++ c :: b) = ((cut a).1, (cut a).2 ++ words b) := by
  induction a with
  | nil =>
    show (if isBlank c then ([], words b) else _) = _
    rw [if_pos hc]
    rfl
  | cons d a ih =>
    show (if isBlank d then ([], pushWord (cut (a ++ c :: b)).1 (cut (a ++ c :: b)).2)
      else (d :: (cut (a ++ c :: b)).1, (cut (a ++ c :: b)).2)) = _
    rw [ih]
    by_cases hd : isBlank d = true
    · simp [cut, hd, pushWord_append]
    · simp [cut, hd]

theorem words_append_cons {c : Char} (hc : isBlank c = true) (a b : List Char) :
    words (a ++ c :: b) = words a ++ words b := by
  rw [words, cut_append_cons hc, pushWord_append]
  rfl

section

variable {w : List Char} (hw : ∀ c ∈ w, isBlank c = true)

include hw

theorem words_blanks_append (b : List Char) : words (w ++ b) = words b := by
  induction w with
  | nil => rfl
  | cons c w ih =>
    have hc : isBlank c = true := hw c List.mem_cons_self
    have hfirst : words (c :: (w ++ b)) = words (w ++ b) := words_append_cons hc [] (w ++ b)
    rw [List.cons_append, hfirst, ih fun d hd => hw d (List.mem_cons_of_mem c hd)]

theorem words_append (hne : w ≠ []) (a b : List Char) : words (a ++ (w ++ b)) = words a ++ words b := by
  obtain ⟨c, w, rfl⟩ := List.exists_cons_of_ne_nil hne
  have hrest : ∀ d ∈ w, isBlank d = true := fun d hd => hw d (List.mem_cons_of_mem c hd)
  rw [List.cons_append, words_append_cons (hw c List.mem_cons_self), words_blanks_append hrest]

theorem words_append_blanks (a : List Char) : words (a ++ w) = words a := by
  by_cases hne : w = []
  · rw [hne, List.append_nil]
  · have h := words_append hw hne a []
    rwa [List.append_nil, show words [] = [] from rfl, List.append_nil] at h

end

end Text

/-! ## 2. Records of a text that is cut -/

/-- Whether a text is nothing but whitespace. -/
def IsBlankText (w : String) : Prop :=
  ∀ c ∈ w.toList, Text.isBlank c = true

instance (w : String) : Decidable (IsBlankText w) :=
  List.decidableBAll (fun c => Text.isBlank c = true) w.toList

/-- The pieces come from cutting the text at whitespace. Of the whitespace around a cut, some may be left with the
piece before it and some with the piece after it; the rest is dropped. -/
inductive CutAtBlanks : String → List String → Prop
  | whole (text : String) : CutAtBlanks text [text]
  | cut {first before between after rest : String} {pieces : List String}
      (hblank : IsBlankText (before ++ between ++ after)) (hne : before ++ between ++ after ≠ "")
      (hrest : CutAtBlanks (after ++ rest) pieces) :
      CutAtBlanks (first ++ (before ++ between ++ after) ++ rest) ((first ++ before) :: pieces)

theorem wordCount_eq_of_words {a b : String} (h : Text.words a.toList = Text.words b.toList) :
    wordCount a = wordCount b := by
  unfold wordCount
  rw [h]

theorem wordCount_append {w : String} (hne : w ≠ "") (hw : IsBlankText w) (a b : String) :
    wordCount (a ++ w ++ b) = wordCount a ++ wordCount b := by
  have hne' : w.toList ≠ [] := by simpa using hne
  unfold wordCount
  rw [String.toList_append, String.toList_append, List.append_assoc, Text.words_append hw hne',
    List.map_append]

theorem wordCount_append_blanks {w : String} (hw : IsBlankText w) (a : String) :
    wordCount (a ++ w) = wordCount a :=
  wordCount_eq_of_words (by rw [String.toList_append, Text.words_append_blanks hw])

theorem wordCount_blanks_append {w : String} (hw : IsBlankText w) (b : String) :
    wordCount (w ++ b) = wordCount b :=
  wordCount_eq_of_words (by rw [String.toList_append, Text.words_blanks_append hw])

theorem charFrequency_append (a b : String) :
    charFrequency (a ++ b) = charFrequency a ++ charFrequency b := by
  unfold charFrequency
  rw [String.toList_append, List.filter_append, List.map_append]

theorem CutAtBlanks.flatMap_wordCount {text : String} {pieces : List String}
    (h : CutAtBlanks text pieces) : pieces.flatMap wordCount = wordCount text := by
  induction h with
  | whole text => simp
  | @cut first before between after rest pieces hblank hne hrest ih =>
    have hbefore : IsBlankText before := fun c hc => hblank c (by simp [hc])
    have hafter : IsBlankText after := fun c hc => hblank c (by simp [hc])
    rw [List.flatMap_cons, ih, wordCount_append_blanks hbefore, wordCount_blanks_append hafter,
      wordCount_append hne hblank]

theorem flatMap_charFrequency (pieces : List String) :
    pieces.flatMap charFrequency = charFrequency (String.join pieces) := by
  induction pieces with
  | nil => rfl
  | cons piece pieces ih => rw [List.flatMap_cons, ih, String.join_cons, charFrequency_append]

/-! ## 3. Records that count for one -/

/-- Whether every record counts for one. -/
def AllOnes (rs : List Record) : Prop :=
  ∀ r ∈ rs, r.value = "1"

theorem allOnes_wordCount (text : String) : AllOnes (wordCount text) := by
  intro r hr
  obtain ⟨_, -, rfl⟩ := List.mem_map.1 hr
  rfl

theorem allOnes_charFrequency (text : String) : AllOnes (charFrequency text) := by
  intro r hr
  obtain ⟨_, -, rfl⟩ := List.mem_map.1 hr
  rfl

-- Ones in another order are the same ones.
theorem valuesOf_eq_of_perm {rs ss : List Record} (h : rs.Perm ss) (hss : AllOnes ss) (key : String) :
    valuesOf key rs = valuesOf key ss := by
  have hones : valuesOf key ss = List.replicate (valuesOf key ss).length "1" := by
    apply List.eq_replicate_of_mem
    intro value hvalue
    obtain ⟨r, hr, rfl⟩ := List.mem_map.1 hvalue
    exact hss r (List.mem_filter.1 hr).1
  have hperm := valuesOf_perm h key
  rw [hones] at hperm ⊢
  exact List.perm_replicate.1 hperm

theorem Partition.deal_eq_of_valuesOf {rs ss : List Record}
    (h : ∀ key, valuesOf key rs = valuesOf key ss) (n : Nat) : deal n rs = deal n ss := by
  apply List.ext_getElem?
  intro i
  by_cases hi : i < n
  · rw [getElem?_deal hi, getElem?_deal hi]
    congr 1
    apply group_eq_of_valuesOf
    intro key
    by_cases hkey : partitionIndex key n = i
    · rw [valuesOf_filter (q := fun key => partitionIndex key n = i) (by simpa using hkey),
        valuesOf_filter (q := fun key => partitionIndex key n = i) (by simpa using hkey), h key]
    · -- Neither list has records of this key in this partition.
      rw [(valuesOf_eq_nil_iff _ _).2, (valuesOf_eq_nil_iff _ _).2]
      · rw [keysOf_filter (fun key => partitionIndex key n = i)]
        simp [hkey]
      · rw [keysOf_filter (fun key => partitionIndex key n = i)]
        simp [hkey]
  · rw [List.getElem?_eq_none (by rw [length_deal]; omega),
      List.getElem?_eq_none (by rw [length_deal]; omega)]

/-! ## 4. The way of cutting -/

/-- The outputs of all partitions when the records are dealt out to `n` of them. -/
def outputs (g : ReduceFunction) (n : Nat) (rs : List Record) : List String :=
  (Partition.deal n rs).map fun p => reduceRecords g p.records

/-- Two lists of splits come to the same under a map function, in whatever order the outputs of their map tasks
are accepted: every key has the same values, an assembly deals out the same partitions, and these have the
same outputs. -/
def ComeToTheSame (f : MapFunction) (ps qs : List String) : Prop :=
  ∀ accepted accepted' : List (List Record), accepted.Perm (ps.map f) → accepted'.Perm (qs.map f) →
    (∀ key, valuesOf key accepted.flatten = valuesOf key accepted'.flatten) ∧
    ∀ n,
      Assembly.empty.makeAll (accepted.map .gather ++ [.deal n]) =
        Assembly.empty.makeAll (accepted'.map .gather ++ [.deal n]) ∧
      ∀ g, outputs g n accepted.flatten = outputs g n accepted'.flatten

theorem Assembly.makeAll_eq_of_valuesOf {batches batches' : List (List Record)}
    (h : ∀ key, valuesOf key batches.flatten = valuesOf key batches'.flatten) (n : Nat) :
    empty.makeAll (batches.map .gather ++ [.deal n]) =
      empty.makeAll (batches'.map .gather ++ [.deal n]) := by
  have hdeal := Partition.deal_eq_of_valuesOf h n
  have hempty : batches.flatten.isEmpty = batches'.flatten.isEmpty := by
    have hiff : batches.flatten = [] ↔ batches'.flatten = [] := by
      have hperm : batches.flatten.Perm batches'.flatten :=
        perm_of_valuesOf fun key => List.Perm.of_eq (h key)
      constructor
      · intro hnil
        exact (hnil ▸ hperm).nil_eq.symm
      · intro hnil
        exact (hnil ▸ hperm).eq_nil
    rw [Bool.eq_iff_iff, List.isEmpty_iff, List.isEmpty_iff, hiff]
  rw [makeAll_gathers, makeAll_gathers, makeAll_deal, makeAll_deal]
  simp [deal?, deal, addRecords, empty, hdeal, hempty]

theorem comeToTheSame_of_flatMap {f : MapFunction} {ps qs : List String} {text : String}
    (hps : ps.flatMap f = f text) (hqs : qs.flatMap f = f text) (hones : AllOnes (f text)) :
    ComeToTheSame f ps qs := by
  intro accepted accepted' h h'
  have hvalues : ∀ {ls : List (List Record)} {l : List String}, ls.Perm (l.map f) → l.flatMap f = f text →
      ∀ key, valuesOf key ls.flatten = valuesOf key (f text) := by
    intro ls l hperm hl key
    apply valuesOf_eq_of_perm _ hones
    rw [← hl, List.flatMap_def]
    exact hperm.flatten
  have hsame : ∀ key, valuesOf key accepted.flatten = valuesOf key accepted'.flatten := by
    intro key
    rw [hvalues h hps, hvalues h' hqs]
  refine ⟨hsame, fun n => ⟨Assembly.makeAll_eq_of_valuesOf hsame n, fun g => ?_⟩⟩
  unfold outputs
  rw [Partition.deal_eq_of_valuesOf hsame n]

/-- The words of a text that is cut at whitespace are those of its parts, and its characters are those of its
parts wherever it is cut. So two ways of cutting a text, at whitespace if its words are counted, between
any two characters if its characters are, come to the same. -/
theorem input_may_be_cut_anywhere :
    (∀ a w b : String, w ≠ "" → IsBlankText w → wordCount (a ++ w ++ b) = wordCount a ++ wordCount b) ∧
    (∀ a b : String, charFrequency (a ++ b) = charFrequency a ++ charFrequency b) ∧
    (∀ text ps qs, CutAtBlanks text ps → CutAtBlanks text qs → ComeToTheSame wordCount ps qs) ∧
    (∀ text ps qs, String.join ps = text → String.join qs = text → ComeToTheSame charFrequency ps qs) := by
  refine ⟨fun a w b hne hw => wordCount_append hne hw a b, charFrequency_append, ?_, ?_⟩
  · intro text ps qs hps hqs
    exact comeToTheSame_of_flatMap hps.flatMap_wordCount hqs.flatMap_wordCount (allOnes_wordCount text)
  · intro text ps qs hps hqs
    apply comeToTheSame_of_flatMap _ _ (allOnes_charFrequency text)
    · rw [flatMap_charFrequency, hps]
    · rw [flatMap_charFrequency, hqs]

/-- A text that is cut before, in and after its whitespace; its last part is accepted first. The same text cut
between characters, and one of the pieces empty. -/
theorem sums_of_cut_text :
    let text := "To  be\tTO"
    let parts := ["To ", " be", "TO"]
    let pieces := ["To  b", "", "e\tT", "O"]
    IsBlankText " \u2003" ∧
      wordCount ("To" ++ " \u2003" ++ "be") = wordCount "To" ++ wordCount "be" ∧
      CutAtBlanks text parts ∧
      outputs sumValues 1 (parts.map wordCount).reverse.flatten = ["be=1,to=2"] ∧
      String.join pieces = text ∧
      outputs sumValues 1 (pieces.map charFrequency).reverse.flatten = ["O=1,T=2,b=1,e=1,o=1"] := by
  intro text parts pieces
  obtain ⟨happend, -, hwords, hchars⟩ := input_may_be_cut_anywhere
  have hblank : IsBlankText " \u2003" := by decide +kernel
  have hparts : CutAtBlanks text parts :=
    @CutAtBlanks.cut "To" " " "" " " "be\tTO" _ (by decide +kernel) (by decide +kernel)
      (@CutAtBlanks.cut " be" "" "\t" "" "TO" _ (by decide +kernel) (by decide +kernel) (.whole "TO"))
  have hpieces : String.join pieces = text := by decide +kernel
  refine ⟨hblank, happend "To" " \u2003" "be" (by decide +kernel) hblank, hparts, ?_, hpieces, ?_⟩
  · obtain ⟨-, hsame⟩ := hwords text parts [text] hparts (.whole text) (parts.map wordCount).reverse
      [wordCount text] (List.reverse_perm _) (.refl _)
    rw [(hsame 1).2 sumValues]
    decide +kernel
  · obtain ⟨-, hsame⟩ := hchars text pieces [text] hpieces (by decide +kernel) (pieces.map charFrequency).reverse
      [charFrequency text] (List.reverse_perm _) (.refl _)
    rw [(hsame 1).2 sumValues]
    decide +kernel

end Foreman
