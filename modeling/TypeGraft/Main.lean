import TypeGraft.CommandLine.Run

/-
  The command line.

  The files that the arguments name are read first; the rest
  is `runProgram`.  Programs are not started from here, so
  types come from recordings.

  Key definitions include:
    * `main`
-/

namespace TypeGraft

/- Why the operating system refused a file. -/
def fileErrorOf : IO.Error → FileError
  | .permissionDenied .. => .permissionDenied
  | .inappropriateType .. => .isADirectory
  | _ => .notFound

/- Read a file, keeping the reason if that fails. -/
def readFileText
    (path : String) : IO (Except FileError String) := do
  try
    return .ok (← IO.FS.readFile path)
  catch e =>
    return .error (fileErrorOf e)

/- The files that some arguments name. -/
def Request.paths : Request → List String
  | .merge a =>
      [a.ast, a.source] ++ a.dump.toList ++ a.config.toList
  | _ => []

/- Surroundings that hold some files and no engine. -/
def recordedSurroundings
    (files : List (String × Except FileError String)) :
    Surroundings where
  isFile path :=
    match files.lookup path with
    | some (.ok _) => true
    | _ => false
  read path := (files.lookup path).getD (.error .notFound)
  flow settings _ :=
    let reason :=
      EngineError.spawnFailed
        (settings.binary.getD flowName)
        FileError.permissionDenied.text
    { name := flowName, answer := fun _ => .error reason }

end TypeGraft

open TypeGraft in
/- Run the program on the arguments of the command line. -/
def main (arguments : List String) : IO UInt32 := do
  let paths := (Request.ofArguments arguments).paths
  let files ←
    paths.mapM (fun path => do
      return (path, ← readFileText path))
  let result :=
    runProgram (recordedSurroundings files) arguments
  for report in result.reports do
    IO.eprintln report.compact
  IO.print result.stdout
  return UInt32.ofNat result.exitCode
