import CommandTree.CommandLine

/-!
# The executable

The files and directories that a request names are read once, before the request is answered. The
rest is pure.
-/

set_option autoImplicit false

namespace CommandTree.Main

/-- The answer that a failure of the system stands for. -/
def accessError : IO.Error → AccessError
  | .noFileOrDirectory .. => .notFound
  | .inappropriateType _ 20 _ => .notADirectory
  | .inappropriateType _ 21 _ => .isADirectory
  | error => .other error.toString

/-- Reads what lies at a place. Below it, symbolic links are left out. -/
partial def read (place : IO.FS.DirEntry) : IO Entry := do
  if ← place.path.isDir then
    let mut entries := []
    for inner in ← place.path.readDir do
      match (← inner.path.symlinkMetadata).type with
      | .dir | .file => entries := (inner.fileName, ← read inner) :: entries
      | _ => pure ()
    return .directory entries
  else
    return .file (Source.ofBytes (← IO.FS.readBinFile place.path).toList none)

/-- Reads what lies at a path. -/
def answerFor (path : String) : IO (Except AccessError Entry) := do
  match ← (read ⟨".", path⟩).toBaseIO with
  | .ok entry => return .ok entry
  | .error error => return .error (accessError error)

/-- The file system as far as the arguments name it. -/
def fileSystemFor (arguments : List String) : IO FileSystem := do
  let paths :=
    match CommandLine.Request.ofArguments arguments with
    | .ok request => request.paths
    | .error _ => []
  let answers ← paths.mapM fun path => do return (path, ← answerFor path)
  return .ofAnswers answers

end CommandTree.Main

/-- Runs the program. -/
def main (arguments : List String) : IO UInt32 := do
  let fs ← CommandTree.Main.fileSystemFor arguments
  let outcome := CommandTree.CommandLine.run fs arguments
  IO.print outcome.output
  for report in outcome.reports do
    IO.eprintln report.message
  if outcome.exitCode = 2 then
    IO.eprint CommandTree.CommandLine.usage
  return outcome.exitCode.toUInt32
