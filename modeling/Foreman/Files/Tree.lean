import Foreman.Files

/-!
# File trees

A file tree is a file system in memory: directories, files and symbolic links. A path is walked name
by name. A point stays where it is, two points go back to the directory above, a link goes on with
its target; at most forty links are followed on one way.
-/

namespace Foreman

inductive Node
  | file (content : List UInt8)
  | directory (entries : List (PathBytes × Node))
  | link (target : PathBytes)

namespace Node

def entries : Node → List (PathBytes × Node)
  | .directory es => es
  | _ => []

def child? (n : Node) (name : PathBytes) : Option Node :=
  n.entries.lookup name

def setChild (n : Node) (name : PathBytes) (child : Node) : Node :=
  .directory ((n.entries.filter (·.1 ≠ name)) ++ [(name, child)])

/-- Puts a node below a directory, and makes the directories on the way to it. A directory that is
there already keeps its entries. -/
def put (new : Node) : List PathBytes → Node → Node
  | [], old => match old, new with
    | .directory es, .directory [] => .directory es
    | _, _ => new
  | name :: path, old =>
    old.setChild name (put new path ((old.child? name).getD (.directory [])))

end Node

namespace PathBytes

/-- The names of a path, with an empty one for every slash too many. -/
def components (path : PathBytes) : List PathBytes :=
  path.foldr (fun b parts => match parts with
    | [] => if b = slash then [[], []] else [[b]]
    | part :: rest => if b = slash then [] :: part :: rest else (b :: part) :: rest) [[]]

def isAbsolute (path : PathBytes) : Bool :=
  path.head? = some slash

end PathBytes

/-- A way down from the root: the directories that it enters, by name, the last one first. Its end can
be a file as well. -/
abbrev Trail := List (PathBytes × Node)

def Trail.node (root : Node) : Trail → Node
  | [] => root
  | (_, node) :: _ => node

def Trail.names (trail : Trail) : List PathBytes :=
  (trail.map (·.1)).reverse

/-- A file system in memory: its root directory, and the names that lead from there to the working
directory. -/
structure FileTree where
  root : Node
  workingDirectory : List PathBytes

namespace FileTree

def maxName : Nat := 255
def maxPath : Nat := 4095

def maxLinks : Nat := 40

/-! ## 1. Looking up -/

def walk (root : Node) (links : Nat) (trail : Trail) : List PathBytes → Except FileError Trail
  | [] => .ok trail
  | name :: rest =>
    if name.isEmpty || name = [PathBytes.dot] then walk root links trail rest
    else if name = [PathBytes.dot, PathBytes.dot] then walk root links trail.tail rest
    else if maxName < name.length then .error .nameTooLong
    else match (trail.node root).child? name with
      | none => .error .notFound
      | some (.directory es) => walk root links ((name, .directory es) :: trail) rest
      | some (.file content) =>
        if rest.isEmpty then .ok ((name, .file content) :: trail) else .error .notDirectory
      | some (.link target) =>
        match links with
        | 0 => .error .tooManyLinks
        | links + 1 =>
          -- The link is replaced by its target, and the walk goes on from the same directory.
          walk root links (if target.isAbsolute then [] else trail) (target.components ++ rest)
termination_by names => (links, names.length)

def follow (t : FileTree) (path : PathBytes) : Except FileError Trail :=
  if path.contains 0 then .error .nulInName
  else if path.isEmpty then .error .notFound
  else if maxPath < path.length then .error .nameTooLong
  else if path.isAbsolute then walk t.root maxLinks [] path.components
  else match walk t.root 0 [] t.workingDirectory with
    | .error e => .error e
    | .ok trail => walk t.root maxLinks trail path.components

def find (t : FileTree) (path : PathBytes) : Except FileError Node :=
  (t.follow path).map (Trail.node t.root)

def fileSystem (t : FileTree) : FileSystem where
  kind path := (t.find path).map fun
    | .directory _ => .directory
    | _ => .file
  names path := match t.find path with
    | .error e => .error e
    | .ok (.directory es) => .ok (es.map (·.1))
    | .ok _ => .error .notDirectory
  content path := match t.find path with
    | .error e => .error e
    | .ok (.file content) => .ok content
    | .ok _ => .error .isDirectory

/-! ## 2. Single steps of a walk -/

/-- The name is one that an entry of a directory can have. -/
def IsEntryName (name : PathBytes) : Prop :=
  name ≠ [] ∧ name ≠ [PathBytes.dot] ∧ name ≠ [PathBytes.dot, PathBytes.dot] ∧ name.length ≤ maxName

instance : DecidablePred IsEntryName := fun _ => inferInstanceAs (Decidable (_ ∧ _))

/-- The path can be looked up, and it starts from the working directory. -/
def IsRelative (path : PathBytes) : Prop :=
  path.contains 0 = false ∧ path ≠ [] ∧ path.length ≤ maxPath ∧ path.isAbsolute = false

instance : DecidablePred IsRelative := fun _ => inferInstanceAs (Decidable (_ ∧ _))

section

variable {root : Node} {links : Nat} {trail : Trail} {name : PathBytes} {rest : List PathBytes}

theorem walk_cons (hname : IsEntryName name) :
    walk root links trail (name :: rest) = match (trail.node root).child? name with
      | none => .error .notFound
      | some (.directory es) => walk root links ((name, .directory es) :: trail) rest
      | some (.file content) =>
        if rest.isEmpty then .ok ((name, .file content) :: trail) else .error .notDirectory
      | some (.link target) =>
        match links with
        | 0 => .error .tooManyLinks
        | links + 1 => walk root links (if target.isAbsolute then [] else trail) (target.components ++ rest) := by
  obtain ⟨hne, hdot, hdots, hlength⟩ := hname
  rw [walk, if_neg (by simp [hne, hdot]), if_neg hdots, if_neg (Nat.not_lt_of_le hlength)]

theorem walk_cons_of_directory (hname : IsEntryName name) {es : List (PathBytes × Node)}
    (h : (trail.node root).child? name = some (.directory es)) :
    walk root links trail (name :: rest) = walk root links ((name, .directory es) :: trail) rest := by
  rw [walk_cons hname, h]

theorem walk_of_file (hname : IsEntryName name) {content : List UInt8}
    (h : (trail.node root).child? name = some (.file content)) :
    walk root links trail [name] = .ok ((name, .file content) :: trail) := by
  rw [walk_cons hname, h]
  rfl

theorem walk_cons_of_none (hname : IsEntryName name) (h : (trail.node root).child? name = none) :
    walk root links trail (name :: rest) = .error .notFound := by
  rw [walk_cons hname, h]

end

section

variable {t : FileTree} {path : PathBytes}

theorem find_of_relative (hpath : IsRelative path) (hroot : t.workingDirectory = []) :
    t.find path = (walk t.root maxLinks [] path.components).map (Trail.node t.root) := by
  obtain ⟨hnul, hne, hlength, habsolute⟩ := hpath
  rw [find, follow, if_neg (by simpa using hnul), if_neg (by simpa using hne),
    if_neg (Nat.not_lt_of_le hlength), if_neg (by simp [habsolute]), hroot, walk]

theorem kind_of_directory {es : List (PathBytes × Node)} (h : t.find path = .ok (.directory es)) :
    t.fileSystem.kind path = .ok .directory := by
  simp [fileSystem, h, Except.map]

theorem names_of_directory {es : List (PathBytes × Node)} (h : t.find path = .ok (.directory es)) :
    t.fileSystem.names path = .ok (es.map (·.1)) := by
  simp [fileSystem, h]

theorem kind_of_file {content : List UInt8} (h : t.find path = .ok (.file content)) :
    t.fileSystem.kind path = .ok .file := by
  simp [fileSystem, h, Except.map]

theorem kind_of_error {e : FileError} (h : t.find path = .error e) :
    t.fileSystem.kind path = .error e := by
  simp [fileSystem, h, Except.map]

end

/-! ## 3. Building -/

/-- A tree with an empty working directory, and the file that is always empty. -/
def empty : FileTree :=
  let name := PathBytes.ofText
  { root := .directory [
      (name "dev", .directory [(name "null", .file [])]),
      (name "tmp", .directory [(name "scratch", .directory [])])]
    workingDirectory := [name "tmp", name "scratch"] }

/-- The names from the root to a directory, links followed. A directory that is not there yet will be
in the place of its name. The names of the path come with the last one first. -/
def placeOf (t : FileTree) : List PathBytes → List PathBytes
  | [] => t.workingDirectory
  | name :: above =>
    match (walk t.root 0 [] t.workingDirectory).bind
        fun trail => walk t.root maxLinks trail (above.reverse ++ [name]) with
    | .ok trail => trail.names
    | .error _ => t.placeOf above ++ [name]

def put (t : FileTree) (path : PathBytes) (new : Node) : FileTree :=
  match (path.components.filter fun n => !n.isEmpty && n ≠ [PathBytes.dot]).reverse with
  | [] => t
  | name :: above => { t with root := Node.put new (t.placeOf above ++ [name]) t.root }

end FileTree
end Foreman
