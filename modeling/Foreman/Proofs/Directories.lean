import Foreman.Proofs.Collecting
import Foreman.Proofs.Encoding

/-!
# Directories among the splits

What an input is decides whether its own path is a split. For an entry of a directory its name alone decides. So the
directories among the splits are the entries of given directories that have the right names and are directories
themselves (`directory_splits_iff`). No worker can read them.
-/

namespace Foreman

-- A map task that has such a split fails on every worker.
theorem FileTree.readText_of_directory {t : FileTree} {path : PathBytes}
    (h : t.fileSystem.kind path = .ok .directory) : t.fileSystem.readText path = .error .isDirectory := by
  unfold FileSystem.readText
  unfold fileSystem at h ⊢
  dsimp only at h ⊢
  cases hfind : t.find path with
  | error e =>
    rw [hfind] at h
    cases h
  | ok node =>
    rw [hfind] at h
    cases node with
    | directory entries => rfl
    | file content => cases h
    | link target => cases h

namespace Splits

/-! ## 1. Offered paths -/

/-- The paths that an input offers as splits: its own if it is a file, and those of the entries with the right names
if it is a directory. -/
inductive Offers (fs : FileSystem) (input : PathBytes) : PathBytes → Prop
  | file (h : fs.kind input = .ok .file) : Offers fs input input
  | entry {names : List PathBytes} {name : PathBytes} (h : fs.kind input = .ok .directory)
      (hnames : fs.names input = .ok names) (hname : name ∈ names) (htext : IsTextName name) :
      Offers fs input (input.join name)

section

variable {fs : FileSystem} {inputs : List PathBytes}

theorem Contributes.mem_iff {input : PathBytes} {paths : List String} {s : String}
    (h : Contributes fs input paths) : s ∈ paths ↔ ∃ path, Offers fs input path ∧ path.text = s := by
  cases h with
  | file hkind =>
    rw [List.mem_singleton]
    constructor
    · rintro rfl
      exact ⟨input, .file hkind, rfl⟩
    · rintro ⟨path, hoffer, rfl⟩
      cases hoffer with
      | file => rfl
      | entry hkind' => rw [hkind] at hkind'; cases hkind'
  | directory hkind hnames hperm =>
    simp only [hperm.mem_iff, List.mem_map, List.mem_filter, decide_eq_true_iff]
    constructor
    · rintro ⟨name, ⟨hname, htext⟩, rfl⟩
      exact ⟨_, .entry hkind hnames hname htext, rfl⟩
    · rintro ⟨path, hoffer, rfl⟩
      cases hoffer with
      | file hkind' => rw [hkind] at hkind'; cases hkind'
      | entry _ hnames' hname htext =>
        rw [hnames, Except.ok.injEq] at hnames'
        subst hnames'
        exact ⟨_, ⟨hname, htext⟩, rfl⟩

theorem mem_ofInputs_iff {splits : List String} {s : String} (h : ofInputs fs inputs = .ok splits) :
    s ∈ splits ↔ ∃ input ∈ inputs, ∃ path, Offers fs input path ∧ path.text = s := by
  induction inputs generalizing splits with
  | nil =>
    cases h
    simp
  | cons input inputs ih =>
    rw [ofInputs_cons] at h
    cases hinput : ofInput fs input with
    | error e =>
      rw [hinput] at h
      cases h
    | ok paths =>
      rw [hinput] at h
      cases hrest : ofInputs fs inputs with
      | error e =>
        rw [hrest] at h
        cases h
      | ok rest =>
        rw [hrest] at h
        cases h
        rw [List.mem_append, (ofInput_eq_ok_iff.1 hinput).mem_iff, ih hrest, List.exists_mem_cons_iff]

/-! ## 2. Directories -/

/-- All paths and names that are read to find the splits are texts. -/
structure InTexts (fs : FileSystem) (inputs : List PathBytes) : Prop where
  paths : ∀ input ∈ inputs, input.IsText
  names : ∀ input ∈ inputs, ∀ names, fs.names input = .ok names → ∀ name ∈ names, name.IsText

theorem InTexts.of_offers (h : InTexts fs inputs) {input path : PathBytes} (hinput : input ∈ inputs)
    (hoffer : Offers fs input path) : path.IsText := by
  cases hoffer with
  | file => exact h.paths input hinput
  | entry _ hnames hname => exact (h.paths input hinput).join (h.names input hinput _ hnames _ hname)

/-- A split names a directory if and only if it is the path of a directory in one of the given ones, which has the
name of a text. -/
theorem directory_splits_iff {splits : List String} (h : ofInputs fs inputs = .ok splits)
    (htexts : InTexts fs inputs) (s : String) :
    s ∈ splits ∧ fs.kind (.ofText s) = .ok .directory ↔
      ∃ dir ∈ inputs, fs.kind dir = .ok .directory ∧ ∃ names, fs.names dir = .ok names ∧
        ∃ name ∈ names, IsTextName name ∧ (dir.join name).text = s ∧
          fs.kind (dir.join name) = .ok .directory := by
  rw [mem_ofInputs_iff h]
  constructor
  · rintro ⟨⟨input, hinput, path, hoffer, rfl⟩, hdirectory⟩
    rw [(htexts.of_offers hinput hoffer).ofText_text] at hdirectory
    cases hoffer with
    | file hkind => rw [hkind] at hdirectory; cases hdirectory
    | entry hkind hnames hname htext =>
      exact ⟨input, hinput, hkind, _, hnames, _, hname, htext, rfl, hdirectory⟩
  · rintro ⟨dir, hdir, hkind, names, hnames, name, hname, htext, rfl, hdirectory⟩
    have hoffer : Offers fs dir (dir.join name) := .entry hkind hnames hname htext
    rw [(htexts.of_offers hdir hoffer).ofText_text]
    exact ⟨⟨dir, hdir, _, hoffer, rfl⟩, hdirectory⟩

end

/-- A directory with a file and another directory in it, which both have the names of texts. -/
def nestedTree : FileTree where
  root := .directory [(.ofText "d", .directory [(.ofText "a.txt", .file []), (.ofText "sub.txt", .directory [])])]
  workingDirectory := []

theorem find_nestedTree :
    nestedTree.find (.ofText "d") =
      .ok (.directory [(.ofText "a.txt", .file []), (.ofText "sub.txt", .directory [])]) ∧
    nestedTree.find (.ofText "d/sub.txt") = .ok (.directory []) := by
  refine ⟨?_, ?_⟩
  · rw [FileTree.find_of_relative (by decide) rfl,
      show PathBytes.components (.ofText "d") = [.ofText "d"] from rfl,
      FileTree.walk_cons_of_directory (by decide) rfl, FileTree.walk]
    rfl
  · rw [FileTree.find_of_relative (by decide) rfl,
      show PathBytes.components (.ofText "d/sub.txt") = [.ofText "d", .ofText "sub.txt"] from rfl,
      FileTree.walk_cons_of_directory (by decide) rfl, FileTree.walk_cons_of_directory (by decide) rfl,
      FileTree.walk]
    rfl

theorem ofInputs_nestedTree :
    ofInputs nestedTree.fileSystem [.ofText "d"] = .ok ["d/a.txt", "d/sub.txt"] := by
  have hfind := find_nestedTree.1
  have hdirectory : Contributes nestedTree.fileSystem (.ofText "d") ["d/a.txt", "d/sub.txt"] :=
    .directory (FileTree.kind_of_directory hfind) (FileTree.names_of_directory hfind) (.refl _) (by decide +kernel)
  exact ofInputs_of_contributes (.cons hdirectory .nil)

/-- The inner directory of the nested tree is a split that cannot be read. -/
theorem splits_of_nestedTree :
    let fs := nestedTree.fileSystem
    ofInputs fs [.ofText "d"] = .ok ["d/a.txt", "d/sub.txt"] ∧
      fs.kind (.ofText "d/sub.txt") = .ok .directory ∧ fs.readText (.ofText "d/sub.txt") = .error .isDirectory := by
  intro fs
  have hkind : fs.kind (.ofText "d/sub.txt") = .ok .directory := FileTree.kind_of_directory find_nestedTree.2
  exact ⟨ofInputs_nestedTree, hkind, FileTree.readText_of_directory hkind⟩

theorem directory_splits_of_nestedTree :
    let fs := nestedTree.fileSystem
    ofInputs fs [.ofText "d"] = .ok ["d/a.txt", "d/sub.txt"] ∧ InTexts fs [.ofText "d"] ∧
      ∀ s, s ∈ ["d/a.txt", "d/sub.txt"] ∧ fs.kind (.ofText s) = .ok .directory ↔
        ∃ dir ∈ [PathBytes.ofText "d"], fs.kind dir = .ok .directory ∧ ∃ names, fs.names dir = .ok names ∧
          ∃ name ∈ names, IsTextName name ∧ (dir.join name).text = s ∧
            fs.kind (dir.join name) = .ok .directory := by
  intro fs
  have htexts : InTexts fs [.ofText "d"] := by
    refine ⟨?_, ?_⟩
    · intro input hinput
      exact ⟨"d", List.mem_singleton.1 hinput⟩
    · intro input hinput names hnames name hname
      rw [List.mem_singleton.1 hinput, FileTree.names_of_directory find_nestedTree.1, Except.ok.injEq] at hnames
      subst hnames
      rcases List.mem_pair.1 hname with rfl | rfl
      · exact ⟨"a.txt", rfl⟩
      · exact ⟨"sub.txt", rfl⟩
  exact ⟨ofInputs_nestedTree, htexts, directory_splits_iff ofInputs_nestedTree htexts⟩

end Splits
end Foreman
