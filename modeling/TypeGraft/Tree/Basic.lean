import TypeGraft.FlowType.Basic
import TypeGraft.Source.Fact
import TypeGraft.Tree.Kind

/-
  Syntax trees as tables of nodes.

  A tree is a table; nodes name one another by their place in
  it, and the root is the first.  The fields of a node are in
  the order of its source: values that the tree does not look
  into, single children, and lists of children with holes.

  Key definitions include:
    * `NodeId`
    * `Annotation`
    * `Field`
    * `Node`
    * `Node.children`
    * `Tree`
    * `Tree.preorder`
    * `Tree.ancestors`
    * `Tree.annotate`
    * `Tree.attach`
    * `Tree.clearAnnotations`
    * `Tree.describeContext`
-/

namespace TypeGraft

------------------------------------------------------------
-- Nodes
------------------------------------------------------------

/- The place of a node in its table. -/
structure NodeId where
  index : Nat
deriving DecidableEq, Repr

/- The text of a node id. -/
def NodeId.text
    (id : NodeId) : String :=
  s!"#{id.index}"

/- A type attached to a node, and the fact it came from. -/
structure Annotation where
  type : FlowType
  source : TypeFact

/-
  The annotation for a type and the fact it came from, without
  what differs from run to run.
-/
def Annotation.ofFact
    (fact : TypeFact)
    (type : FlowType) : Annotation :=
  ⟨type, fact.scrubbed⟩

/- Are two annotations the same? -/
def Annotation.same
    (a b : Annotation) : Bool :=
  a.type.same b.type && a.source.same b.source

/- The value of a named field. -/
inductive Field where
  /- A value that the tree does not look into. -/
  | attr (value : Json)
  /- One child. -/
  | node (child : NodeId)
  /- Several children, with holes between them. -/
  | list (items : List (Option NodeId))

namespace Field

/- The children in a field, without the holes. -/
def children : Field → List NodeId
  | .attr _ => []
  | .node child => [child]
  | .list items => items.filterMap id

/- Are two fields the same? -/
def same : Field → Field → Bool
  | .attr v, .attr w => v.beq w
  | .node c, .node d => c = d
  | .list xs, .list ys => xs = ys
  | _, _ => false

end Field

/- One node of a tree. -/
structure Node where
  kind : NodeKind
  range : SourceRange
  parent : Option NodeId
  fields : List (String × Field) := []
  annotation : Option Annotation := none

namespace Node

/- A field by its name. -/
def field?
    (n : Node)
    (name : String) : Option Field :=
  (n.fields.find? (fun f => f.1 = name)).map Prod.snd

/- A value that the tree does not look into, by its name. -/
def attr?
    (n : Node)
    (name : String) : Option Json :=
  match n.field? name with
  | some (.attr value) => some value
  | _ => none

/- The name that the node gives itself. -/
def name?
    (n : Node) : Option String :=
  (n.attr? "name").bind Json.asText?

/- The children in the order of the fields. -/
def children
    (n : Node) : List NodeId :=
  n.fields.flatMap (fun f => f.2.children)

/- Are two lists of fields the same, order included? -/
def sameFields :
    List (String × Field) → List (String × Field) → Bool
  | [], [] => true
  | (k, f) :: fs, (l, g) :: gs =>
      k = l && f.same g && sameFields fs gs
  | _, _ => false

/- Are two annotations, which may be absent, the same? -/
def sameAnnotation :
    Option Annotation → Option Annotation → Bool
  | none, none => true
  | some a, some b => a.same b
  | _, _ => false

/- Are two nodes the same? -/
def same
    (m n : Node) : Bool :=
  m.kind = n.kind && m.range = n.range &&
    m.parent = n.parent && sameFields m.fields n.fields &&
    sameAnnotation m.annotation n.annotation

end Node

------------------------------------------------------------
-- Trees
------------------------------------------------------------

/- A syntax tree. -/
structure Tree where
  nodes : Array Node

namespace Tree

/- The root of a tree. -/
def root : NodeId := ⟨0⟩

/- The number of nodes in the table. -/
def size
    (t : Tree) : Nat :=
  t.nodes.size

/- A node by its id. -/
def get?
    (t : Tree)
    (id : NodeId) : Option Node :=
  t.nodes[id.index]?

/- The children of a node; an absent node has none. -/
def childrenOf
    (t : Tree)
    (id : NodeId) : List NodeId :=
  match t.get? id with
  | some n => n.children
  | none => []

/- The parent of a node. -/
def parent?
    (t : Tree)
    (id : NodeId) : Option NodeId :=
  (t.get? id).bind Node.parent

/- Are two trees the same, ids and field order included? -/
def same
    (t u : Tree) : Bool :=
  t.nodes.size = u.nodes.size &&
    (t.nodes.toList.zip u.nodes.toList).all
      (fun p => p.1.same p.2)

instance : BEq Tree := ⟨same⟩

------------------------------------------------------------
-- Walks
------------------------------------------------------------

/-
  Visit the nodes on a stack and all below them, at most `k`
  of them.
-/
def walk
    (t : Tree) :
    Nat → List NodeId → List NodeId
  | 0, _ => []
  | _ + 1, [] => []
  | k + 1, id :: stack =>
      id :: walk t k (t.childrenOf id ++ stack)

/-
  The nodes below the root, parents before children and
  children in the order of the fields.  No node is below two
  others, so there are at most as many as the table holds.
-/
def preorder
    (t : Tree) : List NodeId :=
  if t.nodes.isEmpty then []
  else t.walk t.size [root]

/- The nodes around a node, at most `k` of them. -/
def ancestorsWithin
    (t : Tree) :
    Nat → NodeId → List NodeId
  | 0, _ => []
  | k + 1, id =>
      match t.parent? id with
      | none => []
      | some p => p :: ancestorsWithin t k p

/-
  The nodes around a node, from its parent up to the root.
  The table bounds how many there are.
-/
def ancestors
    (t : Tree)
    (id : NodeId) : List NodeId :=
  t.ancestorsWithin t.size id

/-
  Kinds and start positions of the two innermost nodes around
  a node.
-/
def describeContext
    (t : Tree)
    (id : NodeId) : String :=
  " < ".intercalate
    (((t.ancestors id).take 2).filterMap (fun a =>
      (t.get? a).map (fun n =>
        s!"{n.kind.name}@{n.range.start.text}")))

------------------------------------------------------------
-- Annotations
------------------------------------------------------------

/- The annotation of a node. -/
def annotation?
    (t : Tree)
    (id : NodeId) : Option Annotation :=
  (t.get? id).bind Node.annotation

/-
  Set the annotation of a node, if the node is there.  The
  annotation that it had comes back.
-/
def annotate
    (t : Tree)
    (id : NodeId)
    (a : Annotation) : Option Annotation × Tree :=
  (t.annotation? id,
    ⟨t.nodes.modify id.index
      (fun n => { n with annotation := some a })⟩)

/-
  Annotate a node with a fact and its type, and say whether
  the node is there.
-/
def attach
    (t : Tree)
    (id : NodeId)
    (fact : TypeFact)
    (type : FlowType) : Bool × Tree :=
  match t.get? id with
  | none => (false, t)
  | some _ => (true, (t.annotate id (.ofFact fact type)).2)

/- The annotated nodes in the order of the table. -/
def annotated
    (t : Tree) : List NodeId :=
  (List.range t.size).filterMap (fun i =>
    if (t.annotation? ⟨i⟩).isSome then some ⟨i⟩ else none)

/- Remove every annotation. -/
def clearAnnotations
    (t : Tree) : Tree :=
  ⟨t.nodes.map (fun n => { n with annotation := none })⟩

end Tree

end TypeGraft
