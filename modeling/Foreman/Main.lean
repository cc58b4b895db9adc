import Foreman.CommandLine

/-!
# The command line

The first argument names the program, `coordinator` or `worker`, and the others are its arguments.
What a program does is decided in `Foreman.CommandLine`; here the environment and the files are
looked up, and the results are printed and written.
-/

namespace Foreman.CommandLine

def refusal : IO.Error → FileError
  | .noFileOrDirectory .. => .notFound
  | e => .other (toString e)

def ask {α : Type} (question : IO α) : IO (Except FileError α) := do
  try
    return .ok (← question)
  catch e =>
    return .error (refusal e)

def kindOf (path : String) : IO FileKind := do
  let data ← ((← IO.currentDir) / path).metadata
  return match data.type with
    | .dir => .directory
    | _ => .file

def namesIn (path : String) : IO (List PathBytes) := do
  let entries ← ((← IO.currentDir) / path).readDir
  return entries.toList.map fun entry => .ofText entry.fileName

def contentOf (path : String) : IO (List UInt8) := do
  return (← IO.FS.readBinFile path).data.toList

/-- What the operating system answers about some paths; nothing else is known to exist. -/
def lookedUp {α : Type} (paths : List String) (question : String → IO α) :
    IO (PathBytes → Except FileError α) := do
  let answers ← paths.mapM fun path => do
    return (PathBytes.ofText path, ← ask (question path))
  return fun path => (answers.lookup path).getD (.error .notFound)

/-- The file system as far as a job with these inputs looks at it: the inputs, and then the splits
that they give. -/
def fileSystem (inputs : List String) : IO FileSystem := do
  let kind ← lookedUp inputs kindOf
  let names ← lookedUp inputs namesIn
  let fs : FileSystem := { kind, names, content := fun _ => .error .notFound }
  let splits := (Splits.ofInputs fs (inputs.map .ofText)).toOption.getD []
  return { fs with content := ← lookedUp splits contentOf }

def environment : IO (String → Option String) := do
  let settings ← Setting.all.mapM fun setting => do
    return (setting.envName, ← IO.getEnv setting.envName)
  return fun name => (settings.lookup name).join

def writeResults (directory : String) (files : List (String × String)) : IO Unit := do
  let directory := (← IO.currentDir) / directory
  IO.FS.createDirAll directory
  for (name, text) in files do
    IO.FS.writeFile (directory / name) text

def runCoordinator (args : List String) : IO UInt32 := do
  let wanted := (JobArguments.read args).toOption
  let inputs := (wanted.map JobArguments.inputs).getD []
  let ended := coordinate args (← environment) (← fileSystem inputs)
  ended.stderr.forM IO.eprintln
  ended.stdout.forM IO.println
  if let some directory := wanted.bind JobArguments.output then
    if ended.code = 0 then writeResults directory ended.files
  return ended.code.toUInt32

/-- A worker is at its address until its standard input ends. It does not open a socket. -/
def runWorker (args : List String) : IO UInt32 := do
  match serve args with
  | .error code => return code.toUInt32
  | .ok address =>
    IO.println s!"ready at {address.text}"
    let _ ← (← IO.getStdin).readToEnd
    return 0

end Foreman.CommandLine

def main : List String → IO UInt32
  | "coordinator" :: args => Foreman.CommandLine.runCoordinator args
  | "worker" :: args => Foreman.CommandLine.runWorker args
  | _ => do
    IO.eprintln "usage: foreman coordinator|worker ARGUMENTS"
    return 2
