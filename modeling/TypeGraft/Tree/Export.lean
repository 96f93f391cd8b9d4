import TypeGraft.FlowType.Encoding
import TypeGraft.Tree.Import

/-
  Trees as JSON.

  A node is an object with `type` first, its fields in order,
  its location if no field holds it, and its annotation.

  Key definitions include:
    * `Annotation.toJson`
    * `SourceRange.toJson`
    * `Tree.toJson`
-/

namespace TypeGraft

/- A position as an object. -/
def Position.toJson
    (p : Position) : Json :=
  .obj [("line", .ofNat p.line), ("column", .ofNat p.column)]

/- A range as an object. -/
def SourceRange.toJson
    (r : SourceRange) : Json :=
  .obj [("start", r.start.toJson), ("end", r.stop.toJson)]

/- A span as an object. -/
def Span.toJson
    (s : Span) : Json :=
  .obj
    [("line", .ofNat s.line),
      ("start_column", .ofNat s.startColumn),
      ("end_column", .ofNat s.endColumn)]

/- A fact as an object. -/
def TypeFact.toJson
    (f : TypeFact) : Json :=
  .obj
    [("range", f.range.toJson),
      ("raw_type", .str f.rawType),
      ("metadata", .obj f.metadata)]

/-
  An annotation as an object: the type, the text it came from
  and the metadata of its fact.
-/
def Annotation.toJson
    (a : Annotation) : Json :=
  .obj
    (("type", a.type.toJson) :: ("raw", .str a.source.rawType) ::
      a.source.metadata.filter
        (fun m => m.1 != "type" && m.1 != "raw"))

namespace Tree

/-
  The value of a node, in which nodes nest at most `k` deep.
-/
def nodeJson
    (t : Tree) :
    Nat → NodeId → Json
  | 0, _ => .null
  | k + 1, id =>
      match t.get? id with
      | none => .null
      | some n =>
          let fieldJson : Field → Json
            | .attr value => value
            | .node child => nodeJson t k child
            | .list items =>
                .arr
                  (items.map (fun item =>
                    match item with
                    | some child => nodeJson t k child
                    | none => .null))
          let members : Members :=
            n.fields.foldl
              (fun (ms : Members) f =>
                ms.insert f.1 (fieldJson f.2))
              [("type", .str n.kind.name)]
          let members : Members :=
            match members.get? "loc" with
            | some _ => members
            | none => members.insert "loc" n.range.toJson
          match n.annotation with
          | none => .obj members
          | some a => .obj (members.insert annotationKey a.toJson)

/-
  The value of a tree.  Nodes nest at most as deep as there
  are nodes in the table.
-/
def toJson
    (t : Tree) : Json :=
  if t.nodes.isEmpty then .null
  else t.nodeJson t.size root

end Tree

end TypeGraft
