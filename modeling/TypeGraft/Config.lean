import TypeGraft.Engine.Settings
import TypeGraft.Merge.Run
import TypeGraft.Toml.Document

/-
  Configuration files.

  Every section and every setting may be absent.

  Key definitions include:
    * `Config`
    * `Config.ofData?`
    * `Config.parse?`
    * `Config.mergeOptions`
-/

namespace TypeGraft

/- The section on merging. -/
structure MergeSection where
  strategy : Strategy := .bulk
  /- Overrides by the names of kinds. -/
  eligibility : List (String × Override) := []
deriving DecidableEq, Repr

/- Read the section; it has no other settings. -/
def MergeSection.ofData?
    (rules : DataRules)
    (v : Json) : Option MergeSection := do
  let fields ←
    rules.fields? ["strategy", "eligibility"] true v
  match fields with
  | [strategy, eligibility] =>
      let strategy ←
        Json.orDefault (rules.choice? Strategy.all Strategy.name)
          .bulk strategy
      let eligibility ←
        Json.orDefault (Eligibility.overridesOfData? rules) []
          eligibility
      return ⟨strategy, eligibility⟩
  | _ => none

/- The section as an object. -/
def MergeSection.toJson
    (s : MergeSection) : Json :=
  .obj
    [("strategy", .str s.strategy.name),
      ("eligibility",
        .obj
          (s.eligibility.map (fun o => (o.1, .str o.2.name))))]

/- A whole configuration. -/
structure Config where
  engine : FlowSettings := {}
  merge : MergeSection := {}
  dialect : Dialect := {}

namespace Config

/- Read a configuration; it has no other sections. -/
def ofData?
    (rules : DataRules)
    (v : Json) : Option Config := do
  let fields ← rules.fields? ["engine", "merge", "parser"] true v
  match fields with
  | [engine, merge, parser] =>
      let engine ←
        Json.orDefault (FlowSettings.ofData? rules) {} engine
      let merge ←
        Json.orDefault (MergeSection.ofData? rules) {} merge
      let dialect ←
        Json.orDefault (Dialect.ofData? rules) {} parser
      return ⟨engine, merge, dialect⟩
  | _ => none

/- Read the text of a configuration file. -/
def parse?
    (text : String) : Option Config :=
  (Toml.parse? text).bind (ofData? .toml)

/- A configuration as an object. -/
def toJson
    (c : Config) : Json :=
  .obj
    [("engine", c.engine.toJson), ("merge", c.merge.toJson),
      ("parser", c.dialect.toJson)]

/- Which nodes may carry a type. -/
def eligibility
    (c : Config) : Eligibility :=
  .ofOverrides
    (c.merge.eligibility.map (fun o => (.ofName o.1, o.2)))

/- How to merge. -/
def mergeOptions
    (c : Config) : MergeOptions where
  strategy := c.merge.strategy
  eligibility := c.eligibility
  dialect := c.dialect

end Config

end TypeGraft
