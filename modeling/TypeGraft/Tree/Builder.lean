import TypeGraft.Tree.Basic

/-
  Building trees step by step.

  A step names the node it works on.  A new node goes to the
  end of the table before its parent is looked up there, so a
  step that names a node outside the table is refused.

  Key definitions include:
    * `BuildStep`
    * `Tree.start`
    * `Tree.perform?`
    * `Tree.build?`
-/

namespace TypeGraft

/- One step of building a tree. -/
inductive BuildStep where
  /- Make a new node the only child in a field. -/
  | child
      (parent : NodeId)
      (field : String)
      (kind : NodeKind)
      (range : SourceRange)
  /- Put a new node at the end of a list field. -/
  | push
      (parent : NodeId)
      (field : String)
      (kind : NodeKind)
      (range : SourceRange)
  /- Put a hole at the end of a list field. -/
  | hole (parent : NodeId) (field : String)
  /- Make sure that a field is there, an empty list if new. -/
  | empty (node : NodeId) (field : String)
  /- Set a value that the tree does not look into. -/
  | attr (node : NodeId) (key : String) (value : Json)

namespace Node

/- Set a field in its place, or put a new one at the end. -/
def setField
    (n : Node)
    (name : String)
    (field : Field) : Node :=
  if n.fields.any (fun f => f.1 = name) then
    { n with
      fields :=
        n.fields.map (fun f =>
          if f.1 = name then (f.1, field) else f) }
  else { n with fields := n.fields ++ [(name, field)] }

/-
  Put an item at the end of a list field.  A field that is no
  list becomes a list of this item.
-/
def pushItem
    (n : Node)
    (name : String)
    (item : Option NodeId) : Node :=
  match n.field? name with
  | some (.list items) =>
      n.setField name (.list (items ++ [item]))
  | _ => n.setField name (.list [item])

/- Make sure that a field is there. -/
def ensureList
    (n : Node)
    (name : String) : Node :=
  match n.field? name with
  | some _ => n
  | none => n.setField name (.list [])

end Node

namespace Tree

/- A tree of a root alone. -/
def start
    (kind : NodeKind)
    (range : SourceRange) : Tree :=
  ⟨#[{ kind := kind, range := range, parent := none }]⟩

/- Change a node that has to be in the table. -/
def change?
    (t : Tree)
    (id : NodeId)
    (f : Node → Node) : Option Tree :=
  if id.index < t.size then
    some ⟨t.nodes.modify id.index f⟩
  else none

/- Put a node at the end of the table. -/
def append
    (t : Tree)
    (parent : NodeId)
    (kind : NodeKind)
    (range : SourceRange) : Tree :=
  ⟨t.nodes.push
    { kind := kind, range := range, parent := some parent }⟩

/-
  Carry out a step: the id of the new node, if the step makes
  one, and the tree after it.
-/
def perform?
    (t : Tree) :
    BuildStep → Option (Option NodeId × Tree)
  | .child parent field kind range =>
      let id : NodeId := ⟨t.size⟩
      ((t.append parent kind range).change? parent
        (fun n => n.setField field (.node id))).map
        (fun u => (some id, u))
  | .push parent field kind range =>
      let id : NodeId := ⟨t.size⟩
      ((t.append parent kind range).change? parent
        (fun n => n.pushItem field (some id))).map
        (fun u => (some id, u))
  | .hole parent field =>
      (t.change? parent (fun n => n.pushItem field none)).map
        (fun u => (none, u))
  | .empty id field =>
      (t.change? id (fun n => n.ensureList field)).map
        (fun u => (none, u))
  | .attr id key value =>
      (t.change? id
        (fun n => n.setField key (.attr value))).map
        (fun u => (none, u))

/- Carry out steps from a tree on. -/
def extend?
    (t : Tree) : List BuildStep → Option Tree
  | [] => some t
  | s :: ss =>
      match t.perform? s with
      | none => none
      | some (_, u) => extend? u ss

/- Build a tree from its root. -/
def build?
    (kind : NodeKind)
    (range : SourceRange)
    (steps : List BuildStep) : Option Tree :=
  (start kind range).extend? steps

end Tree

end TypeGraft
