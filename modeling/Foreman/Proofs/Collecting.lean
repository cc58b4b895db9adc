import Mathlib.Data.List.Forall2
import Mathlib.Data.List.TakeWhile
import Mathlib.Data.String.Basic
import Foreman.Files.Tree
import Foreman.Splits

/-!
# Collecting the splits

The inputs of a job are read one after the other. What each of them contributes depends on what it is and, if it is
a directory, on which names are in it, but not on the order in which they are listed. The splits are what all
inputs contribute, in their order, and there are none if one of the inputs cannot be read
(`splits_of_any_listing`).
-/

namespace Foreman

/-! ## 1. Extensions -/

-- The last point of a name has no other behind it.
theorem PathBytes.extension?_eq_some_iff {name ext : PathBytes} :
    name.extension? = some ext ↔ dot ∉ ext ∧ ∃ stem, stem ≠ [] ∧ name = stem ++ dot :: ext := by
  unfold extension?
  constructor
  · intro h
    have hsplit : name.reverse.takeWhile (· ≠ dot) ++ name.reverse.dropWhile (· ≠ dot) = name.reverse :=
      List.takeWhile_append_dropWhile
    have hhead := List.head?_dropWhile_not (· ≠ dot) name.reverse
    have hnot : ∀ b ∈ name.reverse.takeWhile (· ≠ dot), b ≠ dot := by
      intro b hb
      simpa using List.mem_takeWhile_imp hb
    generalize name.reverse.takeWhile (· ≠ dot) = behind at h hsplit hnot
    generalize name.reverse.dropWhile (· ≠ dot) = before at hsplit hhead
    simp only [Option.ite_none_right_eq_some, Option.some.injEq] at h
    obtain ⟨hlength, rfl⟩ := h
    have hname : name = before.reverse ++ behind.reverse := by
      rw [← List.reverse_append, hsplit, List.reverse_reverse]
    cases before with
    | nil => simp [hname] at hlength
    | cons b rest =>
      obtain rfl : b = dot := by simpa using hhead
      refine ⟨fun hmem => hnot dot (List.mem_reverse.1 hmem) rfl, rest.reverse, ?_, ?_⟩
      · rintro hnil
        rw [List.reverse_eq_nil_iff] at hnil
        simp [hname, hnil] at hlength
      · rw [hname, List.reverse_cons, List.append_assoc]
        rfl
  · rintro ⟨hdot, stem, hstem, rfl⟩
    have hbehind : (stem ++ dot :: ext).reverse.takeWhile (· ≠ dot) = ext.reverse := by
      rw [List.reverse_append, List.reverse_cons, List.append_assoc, List.takeWhile_append_of_pos]
      · simp
      · intro b hb
        exact decide_eq_true fun heq => hdot (heq ▸ List.mem_reverse.1 hb)
    have hpos := List.length_pos_iff.2 hstem
    simp only [hbehind, List.length_reverse, List.reverse_reverse, List.length_append, List.length_cons]
    rw [if_pos (by omega)]

namespace Splits

/-- A name that is not empty before its final `.txt`. -/
def IsTextName (name : PathBytes) : Prop :=
  ∃ stem, stem ≠ [] ∧ name = stem ++ PathBytes.ofText ".txt"

theorem isSplitName_iff {name : PathBytes} : isSplitName name = true ↔ IsTextName name := by
  have hdot : PathBytes.dot ∉ PathBytes.ofText "txt" := by decide
  rw [isSplitName, decide_eq_true_iff, PathBytes.extension?_eq_some_iff, and_iff_right hdot]
  rfl

instance : DecidablePred IsTextName := fun _ => decidable_of_iff _ isSplitName_iff

/-! ## 2. Single inputs -/

/-- The input cannot be read, or the names in it, if it is a directory. -/
def Refuses (fs : FileSystem) (input : PathBytes) (e : FileError) : Prop :=
  fs.kind input = .error e ∨ fs.kind input = .ok .directory ∧ fs.names input = .error e

/-- What an input contributes: a file its own path, a directory the paths of the entries with the right names, each
once and in ascending order. -/
inductive Contributes (fs : FileSystem) (input : PathBytes) : List String → Prop
  | file (h : fs.kind input = .ok .file) : Contributes fs input [input.text]
  | directory {names : List PathBytes} {paths : List String} (h : fs.kind input = .ok .directory)
      (hnames : fs.names input = .ok names)
      (hperm : paths.Perm ((names.filter IsTextName).map fun name => (input.join name).text))
      (hascending : paths.Pairwise (· ≤ ·)) : Contributes fs input paths

section

variable {fs : FileSystem} {input : PathBytes}

theorem eq_of_perm_of_ascending {paths paths' : List String} (hperm : paths.Perm paths')
    (h : paths.Pairwise (· ≤ ·)) (h' : paths'.Pairwise (· ≤ ·)) : paths = paths' :=
  hperm.eq_of_pairwise (fun _ _ _ _ => le_antisymm) h h'

theorem ofNames_perm (dir : PathBytes) (names : List PathBytes) : (ofNames dir names).Perm
    ((names.filter IsTextName).map fun name => (dir.join name).text) := by
  have hfilter : names.filter isSplitName = names.filter IsTextName := by
    apply List.filter_congr
    intro name _
    rw [Bool.eq_iff_iff, isSplitName_iff, decide_eq_true_iff]
  rw [← hfilter]
  exact List.mergeSort_perm _ _

theorem ofNames_ascending (dir : PathBytes) (names : List PathBytes) :
    (ofNames dir names).Pairwise (· ≤ ·) := by
  have htrans : ∀ s t u : String, decide (s ≤ t) = true → decide (t ≤ u) = true → decide (s ≤ u) = true := by
    intro s t u hst htu
    rw [decide_eq_true_iff] at *
    exact hst.trans htu
  have htotal : ∀ s t : String, (decide (s ≤ t) || decide (t ≤ s)) = true := by
    intro s t
    rw [Bool.or_eq_true, decide_eq_true_iff, decide_eq_true_iff]
    exact le_total s t
  have hsorted := List.pairwise_mergeSort htrans htotal
    ((names.filter isSplitName).map fun name => (dir.join name).text)
  exact hsorted.imp of_decide_eq_true

theorem ofInput_eq_ok_iff {paths : List String} :
    ofInput fs input = .ok paths ↔ Contributes fs input paths := by
  constructor
  · intro h
    unfold ofInput at h
    split at h
    · cases h
    · rename_i hkind
      cases hnames : fs.names input with
      | error e =>
        rw [hnames] at h
        cases h
      | ok names =>
        rw [hnames] at h
        cases h
        exact .directory hkind hnames (ofNames_perm input names) (ofNames_ascending input names)
    · rename_i hkind
      cases h
      exact .file hkind
  · intro h
    unfold ofInput
    cases h with
    | file hkind => rw [hkind]
    | @directory names _ hkind hnames hperm hascending =>
      have heq : ofNames input names = paths :=
        eq_of_perm_of_ascending ((ofNames_perm input names).trans hperm.symm) (ofNames_ascending input names)
          hascending
      rw [hkind, hnames, ← heq]
      rfl

theorem ofInput_eq_error_iff {e : FileError} : ofInput fs input = .error e ↔ Refuses fs input e := by
  unfold ofInput Refuses
  cases hkind : fs.kind input with
  | error e' => simp
  | ok kind =>
    cases kind with
    | file => simp
    | directory => cases hnames : fs.names input <;> simp [Except.map]

theorem Contributes.unique {paths paths' : List String} (h : Contributes fs input paths)
    (h' : Contributes fs input paths') : paths = paths' :=
  Except.ok.inj ((ofInput_eq_ok_iff.2 h).symm.trans (ofInput_eq_ok_iff.2 h'))

/-- Nothing of the input refuses to be read. -/
def IsReadable (fs : FileSystem) (input : PathBytes) : Prop :=
  ∀ e, ¬ Refuses fs input e

theorem Contributes.isReadable {paths : List String} (h : Contributes fs input paths) : IsReadable fs input := by
  intro e he
  rw [← ofInput_eq_error_iff, ofInput_eq_ok_iff.2 h] at he
  cases he

theorem IsReadable.exists_contributes (h : IsReadable fs input) : ∃ paths, Contributes fs input paths := by
  cases hinput : ofInput fs input with
  | error e => exact absurd (ofInput_eq_error_iff.1 hinput) (h e)
  | ok paths => exact ⟨paths, ofInput_eq_ok_iff.1 hinput⟩

end

/-! ## 3. Listings -/

/-- Two listings of one directory: both are refused, or they have the same names in whatever orders. -/
inductive SameNames : Except FileError (List PathBytes) → Except FileError (List PathBytes) → Prop
  | refused (e : FileError) : SameNames (.error e) (.error e)
  | listed {names names' : List PathBytes} (h : names.Perm names') : SameNames (.ok names) (.ok names')

/-- At this path two file systems differ in the order of their listings at most. -/
structure ListAlike (fs fs' : FileSystem) (path : PathBytes) : Prop where
  kind : fs'.kind path = fs.kind path
  names : SameNames (fs.names path) (fs'.names path)

theorem ofNames_eq_of_perm (dir : PathBytes) {names names' : List PathBytes} (h : names.Perm names') :
    ofNames dir names = ofNames dir names' := by
  apply eq_of_perm_of_ascending _ (ofNames_ascending dir names) (ofNames_ascending dir names')
  exact (ofNames_perm dir names).trans <| ((h.filter _).map _).trans (ofNames_perm dir names').symm

theorem ListAlike.ofInput_eq {fs fs' : FileSystem} {input : PathBytes} (h : ListAlike fs fs' input) :
    ofInput fs' input = ofInput fs input := by
  have hnames : (fs'.names input).map (ofNames input) = (fs.names input).map (ofNames input) := by
    have hsame := h.names
    generalize fs.names input = listing at hsame ⊢
    generalize fs'.names input = listing' at hsame ⊢
    cases hsame with
    | refused e => rfl
    | listed hperm => exact congrArg Except.ok (ofNames_eq_of_perm input hperm).symm
  unfold ofInput
  rw [h.kind, hnames]

/-! ## 4. All inputs -/

section

variable {fs : FileSystem}

theorem ofInputs_cons (fs : FileSystem) (input : PathBytes) (inputs : List PathBytes) :
    ofInputs fs (input :: inputs) =
      match ofInput fs input with
      | .error e => .error e
      | .ok paths => (ofInputs fs inputs).map (paths ++ ·) := by
  unfold ofInputs
  rw [List.mapM_cons]
  cases ofInput fs input with
  | error e => rfl
  | ok paths => cases inputs.mapM (ofInput fs) <;> rfl

theorem ofInputs_of_contributes {inputs : List PathBytes} {parts : List (List String)}
    (h : List.Forall₂ (Contributes fs) inputs parts) : ofInputs fs inputs = .ok parts.flatten := by
  induction h with
  | nil => rfl
  | cons hpaths _ ih =>
    rw [ofInputs_cons, ofInput_eq_ok_iff.2 hpaths, ih]
    rfl

theorem exists_parts {inputs : List PathBytes} (h : ∀ input ∈ inputs, IsReadable fs input) :
    ∃ parts, List.Forall₂ (Contributes fs) inputs parts := by
  induction inputs with
  | nil => exact ⟨[], .nil⟩
  | cons input inputs ih =>
    rw [List.forall_mem_cons] at h
    obtain ⟨paths, hpaths⟩ := h.1.exists_contributes
    obtain ⟨parts, hparts⟩ := ih h.2
    exact ⟨paths :: parts, .cons hpaths hparts⟩

-- The splits that were found before the input are given up.
theorem ofInputs_of_refuses {before : List PathBytes} {input : PathBytes} {e : FileError}
    (hbefore : ∀ earlier ∈ before, IsReadable fs earlier) (h : Refuses fs input e)
    (after : List PathBytes) : ofInputs fs (before ++ input :: after) = .error e := by
  induction before with
  | nil => rw [List.nil_append, ofInputs_cons, ofInput_eq_error_iff.2 h]
  | cons earlier before ih =>
    rw [List.forall_mem_cons] at hbefore
    obtain ⟨paths, hpaths⟩ := hbefore.1.exists_contributes
    rw [List.cons_append, ofInputs_cons, ofInput_eq_ok_iff.2 hpaths, ih hbefore.2]
    rfl

theorem ofInputs_congr {fs' : FileSystem} {inputs : List PathBytes}
    (h : ∀ input ∈ inputs, ListAlike fs fs' input) : ofInputs fs' inputs = ofInputs fs inputs := by
  induction inputs with
  | nil => rfl
  | cons input inputs ih =>
    rw [List.forall_mem_cons] at h
    rw [ofInputs_cons, ofInputs_cons, h.1.ofInput_eq, ih h.2]

end

/-- If all inputs can be read, the splits are what they contribute, in the order of the inputs, as often as they are
given. If not, the first input that cannot be read is the error. In what order directories are listed does not
matter to either. -/
theorem splits_of_any_listing (fs : FileSystem) (inputs : List PathBytes) :
    ((∀ input ∈ inputs, IsReadable fs input) →
      ∃ parts, ofInputs fs inputs = .ok parts.flatten ∧ List.Forall₂ (Contributes fs) inputs parts) ∧
    (∀ before input after e, inputs = before ++ input :: after →
      (∀ earlier ∈ before, IsReadable fs earlier) → Refuses fs input e → ofInputs fs inputs = .error e) ∧
    ∀ fs', (∀ input ∈ inputs, ListAlike fs fs' input) → ofInputs fs' inputs = ofInputs fs inputs := by
  refine ⟨?_, ?_, ?_⟩
  · intro h
    obtain ⟨parts, hparts⟩ := exists_parts h
    exact ⟨parts, ofInputs_of_contributes hparts, hparts⟩
  · rintro before input after e rfl hbefore hrefuses
    exact ofInputs_of_refuses hbefore hrefuses after
  · exact fun fs' => ofInputs_congr

/-- A directory in which two of four names are right, and a file beside it. -/
def sampleTree : FileTree where
  root := .directory [
    (.ofText "in", .directory [(.ofText "b.txt", .file []), (.ofText ".txt", .file []),
      (.ofText "a.txt", .file []), (.ofText "x.TXT", .file [])]),
    (.ofText "one.md", .file [])]
  workingDirectory := []

theorem find_sampleTree :
    sampleTree.find (.ofText "in") = .ok (.directory [(.ofText "b.txt", .file []), (.ofText ".txt", .file []),
      (.ofText "a.txt", .file []), (.ofText "x.TXT", .file [])]) ∧
    sampleTree.find (.ofText "one.md") = .ok (.file []) ∧ sampleTree.find (.ofText "none") = .error .notFound := by
  refine ⟨?_, ?_, ?_⟩
  · rw [FileTree.find_of_relative (by decide) rfl,
      show PathBytes.components (.ofText "in") = [.ofText "in"] from rfl,
      FileTree.walk_cons_of_directory (by decide) rfl, FileTree.walk]
    rfl
  · rw [FileTree.find_of_relative (by decide) rfl,
      show PathBytes.components (.ofText "one.md") = [.ofText "one.md"] from rfl,
      FileTree.walk_of_file (by decide) rfl]
    rfl
  · rw [FileTree.find_of_relative (by decide) rfl,
      show PathBytes.components (.ofText "none") = [.ofText "none"] from rfl,
      FileTree.walk_cons_of_none (by decide) rfl]
    rfl

/-- The directory is listed in one order and in the other, and an input that is not there comes before another
one. -/
theorem splits_of_sampleTree :
    let fs := sampleTree.fileSystem
    let reversed := { fs with names := fun path => (fs.names path).map List.reverse }
    let inputs := [.ofText "in", .ofText "one.md", .ofText "in"]
    (∀ input ∈ inputs, IsReadable fs input ∧ ListAlike fs reversed input) ∧
      Refuses fs (.ofText "none") .notFound ∧
      ofInputs fs inputs = .ok ["in/a.txt", "in/b.txt", "one.md", "in/a.txt", "in/b.txt"] ∧
      ofInputs reversed inputs = ofInputs fs inputs ∧
      ofInputs fs [.ofText "in", .ofText "none", .ofText "nil"] = .error .notFound := by
  intro fs reversed inputs
  obtain ⟨hin, hone, hnone⟩ := find_sampleTree
  have hdirectory : Contributes fs (.ofText "in") ["in/a.txt", "in/b.txt"] :=
    .directory (FileTree.kind_of_directory hin) (FileTree.names_of_directory hin) (.swap _ _ _) (by decide +kernel)
  have hfile : Contributes fs (.ofText "one.md") ["one.md"] := .file (FileTree.kind_of_file hone)
  have hrefuses : Refuses fs (.ofText "none") .notFound := .inl (FileTree.kind_of_error hnone)
  have halike : ∀ path, ListAlike fs reversed path := by
    intro path
    refine ⟨rfl, ?_⟩
    show SameNames (fs.names path) ((fs.names path).map List.reverse)
    cases fs.names path with
    | error e => exact .refused e
    | ok names => exact .listed names.reverse_perm.symm
  have hreadable : ∀ input ∈ inputs, IsReadable fs input := by
    intro input hinput
    simp only [inputs, List.mem_cons, List.not_mem_nil, or_false] at hinput
    rcases hinput with rfl | rfl | rfl
    · exact hdirectory.isReadable
    · exact hfile.isReadable
    · exact hdirectory.isReadable
  obtain ⟨hok, -, hlisting⟩ := splits_of_any_listing fs inputs
  obtain ⟨parts, hsplits, hparts⟩ := hok hreadable
  have hparts : List.Forall₂ (Contributes fs) [.ofText "in", .ofText "one.md", .ofText "in"] parts := hparts
  obtain _ | ⟨h₁, _ | ⟨h₂, _ | ⟨h₃, ⟨⟩⟩⟩⟩ := hparts
  rw [h₁.unique hdirectory, h₂.unique hfile, h₃.unique hdirectory] at hsplits
  refine ⟨fun input hinput => ⟨hreadable input hinput, halike input⟩, hrefuses, hsplits,
    hlisting reversed fun input _ => halike input, ?_⟩
  refine (splits_of_any_listing fs _).2.1 [.ofText "in"] (.ofText "none") [.ofText "nil"] .notFound rfl ?_ hrefuses
  intro earlier hearlier
  rw [List.mem_singleton.1 hearlier]
  exact hdirectory.isReadable

end Splits
end Foreman
