import Foreman.Files

/-!
# Input splits of a job

The inputs of a job are files and directories. A file is one split. A directory contributes the
entries whose names end in `.txt`, ordered by the text of their paths.
-/

namespace Foreman.Splits

def isSplitName (name : PathBytes) : Bool :=
  name.extension? = some (PathBytes.ofText "txt")

def ofNames (dir : PathBytes) (names : List PathBytes) : List String :=
  ((names.filter isSplitName).map fun name => (dir.join name).text).mergeSort (· ≤ ·)

def ofInput (fs : FileSystem) (input : PathBytes) : Except FileError (List String) :=
  match fs.kind input with
  | .error e => .error e
  | .ok .directory => (fs.names input).map (ofNames input)
  | .ok .file => .ok [input.text]

/-- The splits of all inputs, in their order; the first input that cannot be read is an error. -/
def ofInputs (fs : FileSystem) (inputs : List PathBytes) : Except FileError (List String) :=
  (inputs.mapM (ofInput fs)).map List.flatten

end Foreman.Splits
