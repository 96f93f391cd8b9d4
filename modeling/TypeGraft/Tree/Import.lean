import TypeGraft.Json.Reader
import TypeGraft.Tree.Basic

/-
  Trees from JSON.

  An object with a text `type` is a node and needs a `loc`.
  Its other members become fields: a node becomes a child, an
  array of nodes and nulls with at least one node a list of
  children, and everything else stays a value.  Members that
  hold comments, tokens and the like stay values whatever
  they hold, and an annotation from an earlier run is
  dropped.

  Key definitions include:
    * `PathStep`
    * `TreeError`
    * `TreeError.message`
    * `isNode`
    * `isNodeList`
    * `Tree.ofJson`
    * `Tree.parse`
-/

namespace TypeGraft

------------------------------------------------------------
-- Paths and Errors
------------------------------------------------------------

/- One step into a JSON value. -/
inductive PathStep where
  | key (name : String)
  | index (i : Nat)
deriving DecidableEq, Repr

/- The text of a step. -/
def PathStep.text : PathStep → String
  | .key name => "." ++ name
  | .index i => s!"[{i}]"

/- The way to a value inside another. -/
abbrev JsonPath := List PathStep

/- The text of a path, from the root on. -/
def JsonPath.text
    (p : JsonPath) : String :=
  p.foldl (fun s step => s ++ step.text) "$"

/- What is wrong with a location. -/
inductive LocationFault where
  | missing (which : String)
  | notANumber (which key : String)
deriving DecidableEq, Repr

/- How messages name a fault. -/
def LocationFault.text : LocationFault → String
  | .missing which => s!"missing `{which}`"
  | .notANumber which key =>
      s!"`{which}.{key}` is not a line/column number"

/- Why a tree could not be read. -/
inductive TreeError where
  | notANode (path : JsonPath)
  | missingLocation (path : JsonPath)
  | invalidLocation (path : JsonPath) (fault : LocationFault)
  | json
deriving DecidableEq, Repr

/- The message of an error. -/
def TreeError.message : TreeError → String
  | .notANode path =>
      s!"expected a node object at {path.text}"
  | .missingLocation path =>
      s!"node at {path.text} has no `loc`"
  | .invalidLocation path fault =>
      s!"invalid `loc` at {path.text}: {fault.text}"
  | .json => "JSON error"

------------------------------------------------------------
-- Shapes
------------------------------------------------------------

/- Is the value an object with a text `type`? -/
def isNode
    (v : Json) : Bool :=
  match v.get? "type" with
  | some (.str _) => true
  | _ => false

/- Is the value `null`? -/
def isNull : Json → Bool
  | .null => true
  | _ => false

/- Is the value a list of nodes and nulls with a node? -/
def isNodeList : Json → Bool
  | .arr items =>
      items.any isNode &&
        items.all (fun v => isNull v || isNode v)
  | _ => false

/- Members whose values are never looked into. -/
def opaqueKeys : List String :=
  ["loc", "extra", "leadingComments", "trailingComments",
    "innerComments", "comments", "tokens", "errors"]

/- The member that holds an annotation. -/
def annotationKey : String := "inferredType"

------------------------------------------------------------
-- Locations
------------------------------------------------------------

/- Read a line or a column. -/
def readCoordinate
    (path : JsonPath)
    (which : String)
    (v : Json)
    (key : String) : Except TreeError Nat :=
  match (v.get? key).bind Json.asNat32? with
  | some n => .ok n
  | none =>
      .error (.invalidLocation path (.notANumber which key))

/- Read the position at one end of a location. -/
def readPosition
    (path : JsonPath)
    (loc : Json)
    (which : String) : Except TreeError Position :=
  match loc.get? which with
  | none => .error (.invalidLocation path (.missing which))
  | some v => do
      let line ← readCoordinate path which v "line"
      let column ← readCoordinate path which v "column"
      return ⟨line, column⟩

/- Read a location. -/
def readRange
    (path : JsonPath)
    (loc : Json) : Except TreeError SourceRange := do
  let start ← readPosition path loc "start"
  let stop ← readPosition path loc "end"
  return ⟨start, stop⟩

------------------------------------------------------------
-- Nodes
------------------------------------------------------------

/- A node without fields, from the members of its object. -/
def readHead
    (parent : Option NodeId)
    (path : JsonPath)
    (members : Members) : Except TreeError Node :=
  match members.get? "type" with
  | some (.str kind) =>
      match members.get? "loc" with
      | none => .error (.missingLocation path)
      | some loc => do
          let range ← readRange path loc
          return {
            kind := .ofName kind, range := range, parent := parent }
  | _ => .error (.notANode path)

/- Give the node at a place its fields. -/
def setFields
    (nodes : Array Node)
    (id : NodeId)
    (fields : List (String × Field)) : Array Node :=
  nodes.modify id.index (fun n => { n with fields := fields })

mutual

/-
  Put the node that a value stands for, and all nodes below
  it, at the end of a table.
-/
def importNode
    (parent : Option NodeId)
    (path : JsonPath)
    (nodes : Array Node) :
    Json → Except TreeError (NodeId × Array Node)
  | .obj members => do
      let head ← readHead parent path members
      let id : NodeId := ⟨nodes.size⟩
      let (fields, nodes) ←
        importFields id path (nodes.push head) members
      return (id, setFields nodes id fields)
  | _ => .error (.notANode path)

/- Read the members of a node as its fields. -/
def importFields
    (id : NodeId)
    (path : JsonPath)
    (nodes : Array Node) :
    List (String × Json) →
      Except TreeError (List (String × Field) × Array Node)
  | [] => .ok ([], nodes)
  | (key, value) :: members =>
      if key = "type" ∨ key = annotationKey then
        importFields id path nodes members
      else do
        let (field, nodes) ←
          importField id (path ++ [.key key])
            (opaqueKeys.contains key) nodes value
        let (fields, nodes) ←
          importFields id path nodes members
        return ((key, field) :: fields, nodes)

/- Read a member of a node as a field. -/
def importField
    (id : NodeId)
    (path : JsonPath)
    (isOpaque : Bool)
    (nodes : Array Node) :
    Json → Except TreeError (Field × Array Node)
  | .obj members =>
      if !isOpaque && isNode (.obj members) then do
        let head ← readHead (some id) path members
        let child : NodeId := ⟨nodes.size⟩
        let (fields, nodes) ←
          importFields child path (nodes.push head) members
        return (.node child, setFields nodes child fields)
      else .ok (.attr (.obj members), nodes)
  | .arr items =>
      if !isOpaque && isNodeList (.arr items) then do
        let (ids, nodes) ← importItems id path 0 nodes items
        return (.list ids, nodes)
      else .ok (.attr (.arr items), nodes)
  | value => .ok (.attr value, nodes)

/- Read the items of a list of nodes. -/
def importItems
    (id : NodeId)
    (path : JsonPath)
    (i : Nat)
    (nodes : Array Node) :
    List Json →
      Except TreeError (List (Option NodeId) × Array Node)
  | [] => .ok ([], nodes)
  | .null :: items => do
      let (ids, nodes) ← importItems id path (i + 1) nodes items
      return (none :: ids, nodes)
  | item :: items => do
      let (child, nodes) ←
        importNode (some id) (path ++ [.index i]) nodes item
      let (ids, nodes) ← importItems id path (i + 1) nodes items
      return (some child :: ids, nodes)

end

namespace Tree

/- The tree that a value stands for. -/
def ofJson
    (v : Json) : Except TreeError Tree := do
  let (_, nodes) ← importNode none [] #[] v
  return ⟨nodes⟩

/- The tree that a JSON text stands for. -/
def parse
    (text : String) : Except TreeError Tree :=
  match Json.parse? text with
  | some v => ofJson v
  | none => .error .json

end Tree

end TypeGraft
