import TypeGraft.Engine.Error
import TypeGraft.Files.Table

/-
  Finding the Flow program.

  A configured program is taken as it is, or by its name from
  the search path.  Otherwise the nearest one among the tools
  of the projects around the source file is used, or the one
  on the search path.

  Key definitions include:
    * `onSearchPath?`
    * `nearestLocal?`
    * `locateConfigured`
    * `locateFlow`
-/

namespace TypeGraft

/- The directory in which programs are looked up by name. -/
def searchPath : String := "bin"

/- The name of the program. -/
def flowName : String := "flow"

/- Where a project keeps the program, from its directory on. -/
def localProgram : List String :=
  ["node_modules", ".bin", flowName]

/- A program on the search path. -/
def onSearchPath?
    (files : FileTable)
    (name : String) : Option String :=
  let path := PathText.join searchPath name
  match files.checkRunnable path with
  | .ok () => some path
  | .error _ => none

/- The tools of the projects around some steps, nearest first. -/
def localsAround
    (steps : List String) : List String :=
  (List.range (steps.length + 1)).reverse.map (fun k =>
    "/".intercalate (steps.take k ++ localProgram))

/-
  The nearest program among the tools of the projects around
  a source file.  The way up starts at the real directory of
  the file; a file that does not exist is taken by the text
  of its path.
-/
def nearestLocal?
    (files : FileTable)
    (source : String) : Option String :=
  match files.resolve source with
  | .ok .above => none
  | .ok (.below steps) =>
      let directory :=
        if files.isDirectoryAt (.below steps) then steps
        else steps.dropLast
      (localsAround directory).find? files.isFile
  | .error _ =>
      (PathText.parent? source).bind (fun directory =>
        ((PathText.ancestors directory).map (fun d =>
          localProgram.foldl PathText.join d)).find?
          files.isFile)

/- The program that the settings name. -/
def locateConfigured
    (files : FileTable)
    (path : String) : Except EngineError String :=
  if files.isFile path then .ok path
  else if PathText.steps path = 1 then
    match onSearchPath? files path with
    | some found => .ok found
    | none => .error (.notFound s!"PATH for `{path}`")
  else .error (.notFound path)

/- The program to use for a source file. -/
def locateFlow
    (files : FileTable)
    (configured : Option String)
    (source : String) : Except EngineError String :=
  match configured with
  | some path => locateConfigured files path
  | none =>
      match nearestLocal? files source with
      | some found => .ok found
      | none =>
          match onSearchPath? files flowName with
          | some found => .ok found
          | none =>
              .error (.notFound
                s!"node_modules/.bin above {source} and PATH")

end TypeGraft
