import TypeGraft.CommandLine.Arguments
import TypeGraft.Config
import TypeGraft.Engine.Session
import TypeGraft.Engine.Snapshot
import TypeGraft.Json.Writer
import TypeGraft.Tree.Export

/-
  The program as a function of its surroundings.

  Key definitions include:
    * `Surroundings`
    * `ProgramResult`
    * `runMerge`
    * `runProgram`
-/

namespace TypeGraft

/- What the program sees of the world. -/
structure Surroundings where
  isFile : String → Bool
  read : String → Except FileError String
  /- Flow, for some settings and a source file. -/
  flow : FlowSettings → String → Engine

/- A workspace as surroundings. -/
def Workspace.surroundings
    (w : Workspace) : Surroundings where
  isFile := w.files.isFile
  read := w.files.read
  flow settings source :=
    (FlowSession.mk settings source none).engine w

/- What the program leaves behind. -/
structure ProgramResult where
  exitCode : Nat
  stdout : String := ""
  /- Reports on the error channel, each a line. -/
  reports : List Json := []

------------------------------------------------------------
-- Parts of a Run
------------------------------------------------------------

/- The configuration, as arguments change it. -/
def loadConfig
    (around : Surroundings)
    (a : Arguments) : Except MergeError Config := do
  let config : Config ←
    match a.config with
    | none => pure {}
    | some path =>
        match around.read path with
        | .error e =>
            .error (.config s!"cannot read {path}: {e.text}")
        | .ok text =>
            match Config.parse? text with
            | some config => pure config
            | none => .error (.config "invalid configuration")
  let engine :=
    { config.engine with
      binary := a.flow <|> config.engine.binary
      root := a.root <|> config.engine.root }
  let merge :=
    { config.merge with
      strategy := a.strategy.getD config.merge.strategy }
  return { config with engine := engine, merge := merge }

/- The tree in a file. -/
def loadTree
    (around : Surroundings)
    (path : String) : Except MergeError Tree :=
  match around.read path with
  | .error _ => .error (.fileNotFound path)
  | .ok text => (Tree.parse text).mapError TreeError.asMergeError

/- The engine to ask: a recording, if there is one, or Flow. -/
def loadEngine
    (around : Surroundings)
    (a : Arguments)
    (config : Config) : Except MergeError Engine :=
  match a.dump with
  | none => .ok (around.flow config.engine a.source)
  | some path =>
      let snapshot : Except EngineError Snapshot :=
        match around.read path with
        | .error e => .error (.io e.text)
        | .ok text => Snapshot.parse text
      match snapshot with
      | .ok s => .ok s.engine
      | .error e => .error (e.asMergeError "snapshot")

/- Merge as the arguments say. -/
def runMerge
    (around : Surroundings)
    (a : Arguments) : Except MergeError Merged := do
  let config ← loadConfig around a
  if !around.isFile a.source then
    .error (.fileNotFound a.source)
  else
    let tree ← loadTree around a.ast
    let engine ← loadEngine around a config
    (merge config.mergeOptions engine a.source tree).1.result

------------------------------------------------------------
-- The Program
------------------------------------------------------------

/- What the program says of its version. -/
def versionText : String := "typemerge 0.1.0\n"

/- The report of an error. -/
def errorReport
    (e : MergeError) : Json :=
  .obj
    [("status", .str "error"),
      ("error",
        .obj
          [("code", .ofNat e.exitCode),
            ("message", .str e.message)])]

/- The report of a successful merge. -/
def statsReport
    (s : MergeStats) : Json :=
  .obj [("status", .str "ok"), ("stats", s.toJson)]

/- Run the program. -/
def runProgram
    (around : Surroundings)
    (arguments : List String) : ProgramResult :=
  match Request.ofArguments arguments with
  | .invalid => { exitCode := 2 }
  | .version => { exitCode := 0, stdout := versionText }
  | .merge a =>
      match runMerge around a with
      | .error e =>
          { exitCode := e.exitCode, reports := [errorReport e] }
      | .ok m =>
          { exitCode := 0
            stdout := m.tree.toJson.compact ++ "\n"
            reports :=
              if a.stats then [statsReport m.stats] else [] }

end TypeGraft
