import TypeGraft.Proofs.Tree.NodeMap

/-
  Changes of a value that an import does not notice.

  An import reads the `type` and the location of a node, and
  its fields in order.  A change that leaves these as they are
  gives a value that stands for the same tree, whatever else
  it does with the members of nodes.

  Key definitions include:
    * `Unnoticed`

  Main declarations:
    * `importFields_filter`
    * `Unnoticed.importNode_eq`
    * `Unnoticed.ofJson_mapNodes`
-/

namespace TypeGraft

------------------------------------------------------------
-- One Node
------------------------------------------------------------

/-
  A change of nodes that no import notices: kind, location and
  fields of a node stay as they are.
-/
structure Unnoticed
    (f : NodeId → Members → Members) : Prop where
  kind :
    ∀ id (ms : Members),
      (f id ms).get? "type" = ms.get? "type"
  loc :
    ∀ id (ms : Members),
      (f id ms).get? "loc" = ms.get? "loc"
  fields :
    ∀ id (ms : Members),
      (f id ms).filter (fun m => isField m.1) =
        ms.filter (fun m => isField m.1)

variable {id : NodeId}
variable {path : JsonPath}
variable {nodes : Array Node}

/- Members that are no fields are passed over. -/
theorem importFields_filter
    (members : List (String × Json)) :
    importFields id path nodes
        (members.filter (fun m => isField m.1)) =
      importFields id path nodes members := by
  induction members generalizing nodes with
  | nil => rfl
  | cons m members ih =>
      rcases m with ⟨key, value⟩
      by_cases hSkip : key = "type" ∨ key = annotationKey
      · have hField := isField_eq_false_iff.2 hSkip
        rw [importFields, if_pos hSkip, ← ih,
          List.filter_cons_of_neg (by simp [hField])]
      · have hField := isField_iff.2 hSkip
        rw [List.filter_cons_of_pos (by simpa using hField),
          importFields, importFields, if_neg hSkip,
          if_neg hSkip]
        simp only [ih]

/- A bare node is read from two members alone. -/
theorem readHead_congr
    {members others : Members}
    (hKind : members.get? "type" = others.get? "type")
    (hLoc : members.get? "loc" = others.get? "loc")
    (parent : Option NodeId) :
    readHead parent path members =
      readHead parent path others := by
  simp only [readHead, hKind, hLoc]

/- A hole is nothing but `null`. -/
theorem eq_null_of_isNull
    {v : Json}
    (h : isNull v = true) :
    v = .null := by
  cases v with
  | null => rfl
  | _ => cases h

/- An item that is no hole stands for a node. -/
theorem importItems_of_not_isNull
    {v : Json}
    {j : Nat}
    {items : List Json}
    (h : isNull v = false) :
    importItems id path j nodes (v :: items) = (do
      let (child, nodes) ←
        importNode (some id) (path ++ [.index j]) nodes v
      let (ids, nodes) ←
        importItems id path (j + 1) nodes items
      return (some child :: ids, nodes)) := by
  rw [importItems]
  rintro rfl
  cases h

------------------------------------------------------------
-- All Nodes
------------------------------------------------------------

namespace Unnoticed

variable {f : NodeId → Members → Members}

/- The fields of a changed node. -/
theorem importFields_eq
    (h : Unnoticed f)
    (number : NodeId)
    (members : Members) :
    importFields id path nodes (f number members) =
      importFields id path nodes members := by
  rw [← importFields_filter, h.fields, importFields_filter]

/- The bare node of a changed node that holds changed nodes. -/
theorem readHead_eq
    (h : Unnoticed f)
    (number : NodeId)
    (i : Nat)
    (parent : Option NodeId)
    (members : Members) :
    readHead parent path
        (f number (Json.mapMembersFrom f i members).1) =
      readHead parent path members := by
  apply readHead_congr
  · rw [h.kind, Json.get?_mapMembersFrom rfl]
  · rw [h.loc, Json.get?_mapMembersFrom rfl]

mutual

/-
  Importing a changed value does what importing the value
  does, errors included.
-/
theorem importNode_eq
    (h : Unnoticed f)
    (i : Nat)
    (parent : Option NodeId)
    (path : JsonPath)
    (nodes : Array Node) :
    ∀ v : Json,
      importNode parent path nodes
          (Json.mapNodesFrom f i v).1 =
        importNode parent path nodes v
  | .obj members => by
      by_cases hNode : isNode (.obj members) = true
      · have hFields :=
          fun id nodes =>
            h.importMembers_eq (i + 1) id path nodes members
        rw [Json.mapNodesFrom_of_isNode hNode, importNode,
          importNode, h.readHead_eq]
        simp only [h.importFields_eq, hFields]
      · rw [Json.mapNodesFrom, if_neg hNode]
  | .arr items => by
      rw [Json.mapNodesFrom]
      split <;> simp only [importNode]
  | .null => by simp
  | .bool _ => by simp
  | .num _ => by simp
  | .str _ => by simp

/- The same for members that hold changed nodes. -/
theorem importMembers_eq
    (h : Unnoticed f)
    (i : Nat)
    (id : NodeId)
    (path : JsonPath)
    (nodes : Array Node) :
    ∀ members : List (String × Json),
      importFields id path nodes
          (Json.mapMembersFrom f i members).1 =
        importFields id path nodes members
  | [] => by simp
  | (key, value) :: members => by
      have hRest :=
        fun i nodes =>
          h.importMembers_eq i id path nodes members
      cases hClosed : isClosed key with
      | true =>
          simp only [Json.mapMembersFrom_closed hClosed,
            importFields, hRest]
      | false =>
          have hOpen : opaqueKeys.contains key = false := by
            simp only [isClosed, Bool.or_eq_false_iff] at hClosed
            exact hClosed.2
          have hValue :=
            h.importField_eq i id (path ++ [.key key]) nodes
              value
          simp only [Json.mapMembersFrom_open hClosed,
            importFields, hOpen, hRest, hValue]

/- The same for a member that is looked into. -/
theorem importField_eq
    (h : Unnoticed f)
    (i : Nat)
    (id : NodeId)
    (path : JsonPath)
    (nodes : Array Node) :
    ∀ v : Json,
      importField id path false nodes
          (Json.mapNodesFrom f i v).1 =
        importField id path false nodes v
  | .obj members => by
      by_cases hNode : isNode (.obj members) = true
      · have hFields :=
          fun id nodes =>
            h.importMembers_eq (i + 1) id path nodes members
        have hChanged :=
          @Json.isNode_mapNodesFrom f i (.obj members) h.kind
        rw [Json.mapNodesFrom_of_isNode hNode] at hChanged ⊢
        rw [importField, importField, hChanged, hNode,
          h.readHead_eq]
        simp only [Bool.not_false, Bool.and_true, if_true,
          h.importFields_eq, hFields]
      · rw [Json.mapNodesFrom, if_neg hNode]
  | .arr items => by
      by_cases hList : isNodeList (.arr items) = true
      · have hChanged :=
          @Json.isNodeList_mapItemsFrom f i items h.kind
        rw [Json.mapNodesFrom_of_isNodeList hList,
          importField, importField, hChanged, hList,
          h.importItems_eq i id path 0 nodes items]
        simp only [Bool.not_false, Bool.and_true, if_true]
      · rw [Json.mapNodesFrom, if_neg hList]
  | .null => by simp
  | .bool _ => by simp
  | .num _ => by simp
  | .str _ => by simp

/- The same for a list of nodes. -/
theorem importItems_eq
    (h : Unnoticed f)
    (i : Nat)
    (id : NodeId)
    (path : JsonPath)
    (j : Nat)
    (nodes : Array Node) :
    ∀ items : List Json,
      importItems id path j nodes
          (Json.mapItemsFrom f i items).1 =
        importItems id path j nodes items
  | [] => by simp
  | v :: items => by
      have hRest :=
        fun i j nodes =>
          h.importItems_eq i id path j nodes items
      rw [Json.mapItemsFrom_cons]
      cases hNull : isNull v with
      | true =>
          rw [eq_null_of_isNull hNull, Json.mapNodesFrom_null]
          simp only [importItems, hRest]
      | false =>
          have hKept :
              isNull (Json.mapNodesFrom f i v).1 = false := by
            rw [Json.isNull_mapNodesFrom, hNull]
          rw [importItems_of_not_isNull hKept,
            importItems_of_not_isNull hNull,
            h.importNode_eq i (some id)
              (path ++ [PathStep.index j]) nodes v]
          simp only [hRest]

end

/- A value and what it is changed to stand for one tree. -/
theorem ofJson_mapNodes
    (h : Unnoticed f)
    (v : Json) :
    Tree.ofJson (Json.mapNodes f v) = Tree.ofJson v := by
  rw [Tree.ofJson, Tree.ofJson, Json.mapNodes, h.importNode_eq]

end Unnoticed

end TypeGraft
