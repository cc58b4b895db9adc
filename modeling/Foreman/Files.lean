import Foreman.Error
import Foreman.Text.Utf8

/-!
# Files

A path is a sequence of bytes, as are the names in a directory; neither has to be text. A file
system answers three questions about a path: what it names, what a directory holds, and what a file
holds. Links are followed in all of them.
-/

namespace Foreman

abbrev PathBytes := List UInt8

inductive FileKind
  | file
  | directory
deriving DecidableEq, Repr

structure FileSystem where
  kind : PathBytes → Except FileError FileKind
  /-- The names in a directory, in whatever order. -/
  names : PathBytes → Except FileError (List PathBytes)
  content : PathBytes → Except FileError (List UInt8)

namespace PathBytes

def slash : UInt8 := 0x2f

def dot : UInt8 := 0x2e

def join (dir name : PathBytes) : PathBytes :=
  if dir.isEmpty || dir.getLast? = some slash then dir ++ name else dir ++ slash :: name

/-- The extension of a name: what follows its last point. A name without a point, or with its only
point in front, has none. -/
def extension? (name : PathBytes) : Option PathBytes :=
  let reversed := name.reverse.takeWhile (· ≠ dot)
  if reversed.length + 1 < name.length then some reversed.reverse else none

/-- The text of a path, where replacement characters stand for what is not text. -/
def text (path : PathBytes) : String :=
  Text.Utf8.decodeLossy path

def ofText (s : String) : PathBytes :=
  Text.Utf8.encode s

end PathBytes

namespace FileSystem

def readText (fs : FileSystem) (path : PathBytes) : Except FileError String :=
  match fs.content path with
  | .error e => .error e
  | .ok bytes => match Text.Utf8.decode? bytes with
    | some s => .ok s
    | none => .error .notUtf8

end FileSystem
end Foreman
