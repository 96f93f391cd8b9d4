import TypeGraft.Json.Record

/-
  How the Flow engine is called.

  Key definitions include:
    * `FlowSettings`
    * `FlowSettings.ofData?`
    * `FlowSettings.toJson`
    * `FlowSettings.pointArguments`
    * `FlowSettings.dumpArguments`
-/

namespace TypeGraft

/- Settings for the calls of Flow. -/
structure FlowSettings where
  /- The program, found by itself if absent. -/
  binary : Option String := none
  /- The root of the project. -/
  root : Option String := none
  /- Are names of types to be written out? -/
  expandTypeAliases : Bool := true
  /- How long to wait for an answer. -/
  timeoutSeconds : Nat := 60
deriving DecidableEq, Repr

namespace FlowSettings

/- Read settings from a record; every field has a default. -/
def ofData?
    (rules : DataRules)
    (v : Json) : Option FlowSettings := do
  let fields ←
    rules.fields?
      ["binary", "root", "expand_type_aliases",
        "timeout_secs"] false v
  match fields with
  | [binary, root, expand, timeout] =>
      let binary ← Json.optional Json.asText? binary
      let root ← Json.optional Json.asText? root
      let expand ← Json.orDefault Json.asBool? true expand
      let timeout ← Json.orDefault Json.asNat? 60 timeout
      return ⟨binary, root, expand, timeout⟩
  | _ => none

/- A text that may be absent. -/
def textJson : Option String → Json
  | some s => .str s
  | none => .null

/- Settings as an object. -/
def toJson
    (s : FlowSettings) : Json :=
  .obj
    [("binary", textJson s.binary), ("root", textJson s.root),
      ("expand_type_aliases", .bool s.expandTypeAliases),
      ("timeout_secs", .ofNat s.timeoutSeconds)]

------------------------------------------------------------
-- Arguments
------------------------------------------------------------

/- The arguments that give the root, if there is one. -/
def rootArguments
    (s : FlowSettings) : List String :=
  match s.root with
  | some root => ["--root", root]
  | none => []

/- The arguments that ask for the type at a position. -/
def pointArguments
    (s : FlowSettings)
    (file : String)
    (line column : Nat) : List String :=
  ["type-at-pos"] ++
    (if s.expandTypeAliases then ["--expand-type-aliases"]
      else []) ++
    ["--json"] ++ s.rootArguments ++
    [file, toString line, toString column]

/- The arguments that ask for all types of a file. -/
def dumpArguments
    (s : FlowSettings)
    (file : String) : List String :=
  ["dump-types", "--json"] ++ s.rootArguments ++ [file]

/- The arguments that ask for the version. -/
def versionArguments : List String := ["version", "--json"]

end FlowSettings

end TypeGraft
