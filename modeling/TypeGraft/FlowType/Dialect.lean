import TypeGraft.Json.Record

/-
  The dialect of a source file.

  Key definitions include:
    * `SourceType`
    * `Plugin`
    * `Dialect`
    * `Dialect.has`
    * `Dialect.supportsTypes`
    * `Dialect.ofData?`
    * `Dialect.toJson`
-/

namespace TypeGraft

/- How a source file is loaded. -/
inductive SourceType where
  | module
  | script
  | unambiguous
deriving DecidableEq, Repr

namespace SourceType

/- The name of a source type. -/
def name : SourceType → String
  | .module => "module"
  | .script => "script"
  | .unambiguous => "unambiguous"

/- The source types. -/
def all : List SourceType := [.module, .script, .unambiguous]

end SourceType

/- An extension of the language. -/
inductive Plugin where
  | flow
  | flowComments
  | jsx
  | classProperties
deriving DecidableEq, Repr

namespace Plugin

/- The name of a plugin. -/
def name : Plugin → String
  | .flow => "flow"
  | .flowComments => "flowComments"
  | .jsx => "jsx"
  | .classProperties => "classProperties"

/- The plugins. -/
def all : List Plugin :=
  [.flow, .flowComments, .jsx, .classProperties]

end Plugin

/-
  The dialect of a source file.  Type texts are read in the
  dialect of the file they belong to.
-/
structure Dialect where
  sourceType : SourceType := .module
  plugins : List Plugin := [.flow, .flowComments]
deriving DecidableEq, Repr

namespace Dialect

/- Does the dialect have a plugin? -/
def has
    (d : Dialect)
    (p : Plugin) : Bool :=
  d.plugins.contains p

/- Does the dialect have type syntax? -/
def supportsTypes
    (d : Dialect) : Bool :=
  d.has .flow

/- Read a dialect from a record of its two fields. -/
def ofData?
    (rules : DataRules)
    (v : Json) : Option Dialect := do
  let fields ← rules.fields? ["source_type", "plugins"] false v
  match fields with
  | [sourceType, plugins] =>
      let sourceType ←
        Json.orDefault
          (rules.choice? SourceType.all SourceType.name)
          .module sourceType
      let plugins ←
        Json.orDefault
          (fun v => do
            (← v.asItems?).mapM
              (rules.choice? Plugin.all Plugin.name))
          [.flow, .flowComments] plugins
      return { sourceType := sourceType, plugins := plugins }
  | _ => none

/- A dialect as an object. -/
def toJson
    (d : Dialect) : Json :=
  .obj
    [("source_type", .str d.sourceType.name),
      ("plugins", .arr (d.plugins.map (fun p => .str p.name)))]

end Dialect

end TypeGraft
