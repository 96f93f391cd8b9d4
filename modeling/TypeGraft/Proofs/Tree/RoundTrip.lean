import TypeGraft.Proofs.Tree.Built
import TypeGraft.Proofs.Tree.Unnoticed
import TypeGraft.Tree.Export

/-
  Trees written and read again.

  A tree that was imported, whatever its annotations are now,
  is written as the value it was imported from with every node
  settled and, if it is annotated, one more member at its end.
  The proof goes along the import: what it adds to the table
  for a part of the value is written as that part is changed,
  with as many nodes inside one another as it adds at most.
  An import does not notice these changes, so that reading
  what is written gives the imported tree.

  The value is a document in all of this, as is every value
  that is read from text (`Document.exists_of_parse?`).

  Key definitions include:
    * `annotationMember`
    * `Tree.Covers`
    * `Tree.written`

  Main declarations:
    * `Tree.nodeJson_eq`
    * `Tree.nodeJson_importNode`
    * `Tree.toJson_of_clear`
    * `Tree.ofJson_toJson_of_clear`
    * `Tree.toJson_of_imported`
-/

namespace TypeGraft

------------------------------------------------------------
-- Writing one Node
------------------------------------------------------------

/- The member that holds an annotation, if there is one. -/
def annotationMember
    (a : Option Annotation) : Members :=
  a.toList.map (fun a => (annotationKey, a.toJson))

namespace Tree

/- The value of an item of a list of children. -/
def itemJson
    (t : Tree)
    (k : Nat) :
    Option NodeId → Json
  | some child => t.nodeJson k child
  | none => .null

/- The value of a field. -/
def fieldJson
    (t : Tree)
    (k : Nat) :
    Field → Json
  | .attr value => value
  | .node child => t.nodeJson k child
  | .list items => .arr (items.map (t.itemJson k))

/- The members of a node for its fields. -/
def fieldMembers
    (t : Tree)
    (k : Nat)
    (fields : List (String × Field)) : Members :=
  fields.map (fun f => (f.1, t.fieldJson k f.2))

section Writing

variable {t : Tree}
variable {k : Nat}
variable {id : NodeId}
variable {n : Node}

/- How a node is written, member by member. -/
theorem nodeJson_succ
    (h : t.get? id = some n) :
    t.nodeJson (k + 1) id =
      let members : Members :=
        n.fields.foldl
          (fun (ms : Members) f =>
            ms.insert f.1 (t.fieldJson k f.2))
          [("type", .str n.kind.name)]
      let members : Members :=
        match members.get? "loc" with
        | some _ => members
        | none => members.insert "loc" n.range.toJson
      match n.annotation with
      | none => .obj members
      | some a =>
          .obj (members.insert annotationKey a.toJson) := by
  rw [nodeJson, h]
  rfl

/-
  A node whose fields have distinct names, a location among
  them, is written field by field.
-/
theorem nodeJson_eq
    (hNode : t.get? id = some n)
    (hNames : n.fieldNames.Nodup)
    (hFields : ∀ name ∈ n.fieldNames, isField name = true)
    (hLoc : "loc" ∈ n.fieldNames) :
    t.nodeJson (k + 1) id =
      .obj (("type", .str n.kind.name) ::
        t.fieldMembers k n.fields ++
          annotationMember n.annotation) := by
  have hType : "type" ∉ n.fieldNames :=
    fun hMem => absurd (hFields _ hMem) (by decide)
  have hKey : annotationKey ∉ n.fieldNames :=
    fun hMem => absurd (hFields _ hMem) (by decide)
  let members : Members :=
    ("type", .str n.kind.name) :: t.fieldMembers k n.fields
  have hMembers :
      n.fields.foldl
          (fun (ms : Members) f =>
            ms.insert f.1 (t.fieldJson k f.2))
          [("type", .str n.kind.name)] = members :=
    Members.foldl_insert (t.fieldJson k) n.fields
      (List.nodup_cons.2 ⟨hType, hNames⟩)
  have hKeys : members.keys = "type" :: n.fieldNames := by
    simp [members, Members.keys, fieldMembers, Node.fieldNames]
  have hLocated : members.get? "loc" ≠ none := by
    rw [Ne, Members.get?_eq_none_iff, hKeys]
    simp [hLoc]
  have hNew : annotationKey ∉ members.keys := by
    rw [hKeys, List.mem_cons, not_or]
    exact ⟨by decide, hKey⟩
  rcases Option.ne_none_iff_exists'.1 hLocated with
    ⟨loc, hFound⟩
  rw [nodeJson_succ hNode]
  simp only [hMembers, hFound]
  cases n.annotation with
  | none => simp [annotationMember, members]
  | some a =>
      simp only [Members.insert_of_not_mem hNew]
      rfl

end Writing

------------------------------------------------------------
-- Writing what Was Read
------------------------------------------------------------

/-
  From a place on, a tree has the nodes of a table, but for
  their annotations.
-/
def Covers
    (u : Tree)
    (nodes : Array Node)
    (i : Nat) : Prop :=
  ∀ id : NodeId, i ≤ id.index → id.index < nodes.size →
    u.clearAnnotations.get? id =
      (Tree.mk nodes).clearAnnotations.get? id

namespace Covers

variable {u : Tree}
variable {nodes grown : Array Node}
variable {i j : Nat}

/- A later place asks for less. -/
theorem mono
    (h : u.Covers nodes i)
    (hLe : i ≤ j) :
    u.Covers nodes j :=
  fun id hNew hIn => h id (Nat.le_trans hLe hNew) hIn

/- What was there before the table grew. -/
theorem of_grows
    {owner : Option NodeId}
    {tops : List NodeId}
    (h : u.Covers grown i)
    (hGrows : Grows owner ⟨nodes⟩ ⟨grown⟩ tops) :
    u.Covers nodes i := by
  intro id hNew hIn
  have hOld := hGrows.old hIn
  rw [h id hNew (Nat.lt_of_lt_of_le hIn hGrows.size_le),
    get?_clearAnnotations, get?_clearAnnotations, hOld]

/- What is behind a node that was given its fields. -/
theorem of_setFields
    {fields : List (String × Field)}
    (h : u.Covers (setFields grown ⟨i⟩ fields) i) :
    u.Covers grown (i + 1) := by
  intro id hNew hIn
  have hNe : id ≠ ⟨i⟩ := by
    rintro rfl
    exact Nat.lt_irrefl i hNew
  rw [h id (Nat.le_of_succ_le hNew)
      (by rwa [setFields, Array.size_modify]),
    get?_clearAnnotations, get?_clearAnnotations, setFields,
    get?_modify, if_neg hNe]

/- The node that was given its fields. -/
theorem node
    {owner : Option NodeId}
    {tops : List NodeId}
    {head : Node}
    {fields : List (String × Field)}
    (h :
      u.Covers (setFields grown ⟨nodes.size⟩ fields)
        nodes.size)
    (hGrows :
      Grows owner ⟨nodes.push head⟩ ⟨grown⟩ tops) :
    ∃ n, u.get? ⟨nodes.size⟩ = some n ∧
      n.kind = head.kind ∧ n.fields = fields := by
  have hIn : nodes.size < grown.size := by
    have hLe := hGrows.size_le
    simp only [size, Array.size_push] at hLe
    exact hLe
  have hHead :
      (Tree.mk grown).get? ⟨nodes.size⟩ = some head := by
    rw [hGrows.old (by simp [size]), get?_push, if_pos rfl]
  have hSame :=
    h ⟨nodes.size⟩ (Nat.le_refl _)
      (by rwa [setFields, Array.size_modify])
  rw [get?_clearAnnotations, get?_clearAnnotations, setFields,
    get?_modify, if_pos rfl, hHead] at hSame
  rcases Option.map_eq_some_iff.1 hSame with ⟨n, hNode, hEq⟩
  injection hEq with hKind hRange hParent hFields
  exact ⟨n, hNode, hKind, hFields⟩

end Covers

/- How a tree writes the members of a node. -/
def written
    (u : Tree)
    (id : NodeId)
    (ms : Members) : Members :=
  ms.settled ++ annotationMember (u.annotation? id)

/- The names of fields are the keys that they come from. -/
theorem names_of_importFields
    {id : NodeId}
    {path : JsonPath}
    {nodes : Array Node}
    {members : Members}
    {r : List (String × Field) × Array Node}
    (h : importFields id path nodes members = .ok r) :
    r.1.map Prod.fst = members.keys.filter isField := by
  induction members generalizing nodes r with
  | nil =>
      rw [importFields] at h
      cases h
      rfl
  | cons m members ih =>
      rcases m with ⟨key, value⟩
      rw [importFields] at h
      split at h
      · rename_i hSkip
        have hField := isField_eq_false_iff.2 hSkip
        rw [ih h, Members.keys_cons,
          List.filter_cons_of_neg (by simp [hField])]
      · rename_i hKept
        have hField := isField_iff.2 hKept
        rcases bind_eq_ok_iff.1 h with
          ⟨⟨field, between⟩, -, hRest⟩
        rcases bind_eq_ok_iff.1 hRest with
          ⟨⟨fields, grown⟩, hFields, hResult⟩
        cases hResult
        rw [List.map_cons, ih hFields, Members.keys_cons,
          List.filter_cons_of_pos hField]

/- What is not looked into stays as it is. -/
theorem importField_of_opaque
    (id : NodeId)
    (path : JsonPath)
    (nodes : Array Node)
    (v : Json) :
    importField id path true nodes v =
      .ok (.attr v, nodes) := by
  cases v <;> simp [importField]

/- An object that a node is read from is a node. -/
theorem isNode_of_readHead
    {parent : Option NodeId}
    {path : JsonPath}
    {members : Members}
    {head : Node}
    (h : readHead parent path members = .ok head) :
    isNode (.obj members) = true := by
  rcases readHead_eq_ok_iff.1 h with
    ⟨kind, _, _, hKind, -, -, -⟩
  simp [isNode, Json.get?, hKind]

/-
  A node is written as its object is changed, if its fields
  are written as the members they come from are.
-/
theorem nodeJson_of_fields
    {u : Tree}
    {parent : Option NodeId}
    {path : JsonPath}
    {nodes grown : Array Node}
    {members : Members}
    {head : Node}
    {fields : List (String × Field)}
    {k : Nat}
    (hHead : readHead parent path members = .ok head)
    (hFields :
      importFields ⟨nodes.size⟩ path (nodes.push head)
        members = .ok (fields, grown))
    (hKeys : members.keys.Nodup)
    (hCovers :
      u.Covers (setFields grown ⟨nodes.size⟩ fields)
        nodes.size)
    (hMembers :
      u.fieldMembers k fields =
        (Json.mapMembersFrom u.written (nodes.size + 1)
          members).1.filter (fun m => isField m.1)) :
    u.nodeJson (k + 1) ⟨nodes.size⟩ =
      .obj (u.written ⟨nodes.size⟩
        (Json.mapMembersFrom u.written (nodes.size + 1)
          members).1) := by
  rcases hCovers.node (grows_importFields members hFields)
    with ⟨n, hNode, hKind, rfl⟩
  rcases readHead_eq_ok_iff.1 hHead with
    ⟨kind, loc, range, hType, hLoc, -, rfl⟩
  have hNames : n.fieldNames = members.keys.filter isField :=
    names_of_importFields hFields
  have hFront :
      (Json.mapMembersFrom u.written (nodes.size + 1)
          members).1.filter (fun m => m.1 = "type") =
        [("type", .str kind)] := by
    apply Members.filter_key
    · rwa [Json.keys_mapMembersFrom]
    · rw [Json.get?_mapMembersFrom rfl, hType]
  have hShown : u.annotation? ⟨nodes.size⟩ = n.annotation := by
    rw [annotation?, hNode, Option.bind_some]
  rw [written, Members.settled, hFront, ← hMembers, hShown,
    nodeJson_eq hNode, hKind, NodeKind.name_ofName]
  · rfl
  · rw [hNames]
    exact hKeys.filter _
  · rw [hNames]
    exact fun name hMem => (List.mem_filter.1 hMem).2
  · rw [hNames, List.mem_filter]
    refine ⟨?_, rfl⟩
    by_contra hNone
    cases (Members.get?_eq_none_iff.2 hNone).symm.trans hLoc

/-
  The same if the fields are written so with one node less
  inside one another.  The value has as many nodes as are
  added for it.
-/
theorem nodeJson_obj
    {u : Tree}
    {parent : Option NodeId}
    {path : JsonPath}
    {nodes grown : Array Node}
    {members : Members}
    {head : Node}
    {fields : List (String × Field)}
    {k : Nat}
    (hHead : readHead parent path members = .ok head)
    (hFields :
      importFields ⟨nodes.size⟩ path (nodes.push head)
        members = .ok (fields, grown))
    (hKeys : members.keys.Nodup)
    (hCovers :
      u.Covers (setFields grown ⟨nodes.size⟩ fields)
        nodes.size)
    (hEnough :
      (setFields grown ⟨nodes.size⟩ fields).size ≤
        nodes.size + k)
    (hInner :
      ∀ j, u.Covers grown (nodes.push head).size →
        grown.size ≤ (nodes.push head).size + j →
          (u.fieldMembers j fields, grown.size) =
            ((Json.mapMembersFrom u.written
                (nodes.push head).size members).1.filter
                (fun m => isField m.1),
              (Json.mapMembersFrom u.written
                (nodes.push head).size members).2)) :
    (u.nodeJson k ⟨nodes.size⟩,
        (setFields grown ⟨nodes.size⟩ fields).size) =
      Json.mapNodesFrom u.written nodes.size
        (.obj members) := by
  have hGrown := (grows_importFields members hFields).size_le
  simp only [size, setFields, Array.size_modify,
    Array.size_push] at hGrown hEnough hInner ⊢
  cases k with
  | zero => omega
  | succ k =>
      have hBelow :=
        hInner k hCovers.of_setFields (by omega)
      rw [Prod.mk.injEq] at hBelow
      rw [Json.mapNodesFrom_of_isNode
          (isNode_of_readHead hHead),
        nodeJson_of_fields hHead hFields hKeys hCovers
          hBelow.1, hBelow.2]

mutual

/-
  A tree that has the nodes of an import writes them as the
  imported value is changed, and an import takes a number for
  each node of the value.
-/
theorem nodeJson_importNode
    {u : Tree}
    {parent : Option NodeId}
    {path : JsonPath}
    {nodes : Array Node}
    {r : NodeId × Array Node}
    (k : Nat) :
    ∀ (v : Json),
      importNode parent path nodes v = .ok r →
      v.keysDistinct = true →
      u.Covers r.2 nodes.size →
      r.2.size ≤ nodes.size + k →
        (u.nodeJson k r.1, r.2.size) =
          Json.mapNodesFrom u.written nodes.size v
  | .obj members, h, hKeys, hCovers, hEnough => by
      rw [importNode] at h
      rcases bind_eq_ok_iff.1 h with ⟨head, hHead, hRest⟩
      rcases bind_eq_ok_iff.1 hRest with
        ⟨⟨fields, grown⟩, hFields, hResult⟩
      cases hResult
      rw [Json.keysDistinct_obj_iff] at hKeys
      exact nodeJson_obj hHead hFields hKeys.1 hCovers hEnough
        (fun j =>
          fieldMembers_importFields j members hFields hKeys.2)
  | .null, h, _, _, _ => by simp [importNode] at h
  | .bool _, h, _, _, _ => by simp [importNode] at h
  | .num _, h, _, _, _ => by simp [importNode] at h
  | .str _, h, _, _, _ => by simp [importNode] at h
  | .arr _, h, _, _, _ => by simp [importNode] at h

/-
  The members that are no fields are not written, and hold no
  nodes that would take a number.
-/
theorem fieldMembers_importFields
    {u : Tree}
    {id : NodeId}
    {path : JsonPath}
    {nodes : Array Node}
    {r : List (String × Field) × Array Node}
    (k : Nat) :
    ∀ (members : List (String × Json)),
      importFields id path nodes members = .ok r →
      (∀ m ∈ members, m.2.keysDistinct = true) →
      u.Covers r.2 nodes.size →
      r.2.size ≤ nodes.size + k →
        (u.fieldMembers k r.1, r.2.size) =
          ((Json.mapMembersFrom u.written nodes.size
              members).1.filter (fun m => isField m.1),
            (Json.mapMembersFrom u.written nodes.size
              members).2)
  | [], h, _, _, _ => by
      rw [importFields] at h
      cases h
      simp [fieldMembers]
  | (key, value) :: members, h, hKeys, hCovers, hEnough => by
      rw [List.forall_mem_cons] at hKeys
      rw [importFields] at h
      split at h
      · rename_i hSkip
        have hField := isField_eq_false_iff.2 hSkip
        have hRest :=
          fieldMembers_importFields k members h hKeys.2
            hCovers hEnough
        rw [hRest, Json.mapMembersFrom_closed
          (isClosed_of_not_isField key hField)]
        simp [hField]
      · rename_i hKept
        have hField := isField_iff.2 hKept
        rcases bind_eq_ok_iff.1 h with
          ⟨⟨field, between⟩, hValue, hNext⟩
        rcases bind_eq_ok_iff.1 hNext with
          ⟨⟨fields, grown⟩, hFields, hResult⟩
        cases hResult
        have hGrows := grows_importFields members hFields
        have hFirst : nodes.size ≤ between.size :=
          (grows_importField value hValue).size_le
        have hSecond : between.size ≤ grown.size :=
          hGrows.size_le
        have hBelow : between.size ≤ nodes.size + k :=
          Nat.le_trans hSecond hEnough
        have hBehind : grown.size ≤ between.size + k :=
          Nat.le_trans hEnough (Nat.add_le_add_right hFirst k)
        have hRest :=
          fieldMembers_importFields k members hFields hKeys.2
            (hCovers.mono hFirst) hBehind
        rw [Prod.mk.injEq] at hRest
        rw [← isClosed_of_isField hField] at hValue
        cases hClosed : isClosed key with
        | true =>
            rw [hClosed, importField_of_opaque] at hValue
            cases hValue
            rw [Json.mapMembersFrom_closed hClosed,
              List.filter_cons_of_pos (by simpa using hField),
              ← hRest.1, ← hRest.2]
            rfl
        | false =>
            rw [hClosed] at hValue
            have hHead :=
              fieldJson_importField k value hValue hKeys.1
                (hCovers.of_grows hGrows) hBelow
            rw [Json.mapMembersFrom_open hClosed, ← hHead,
              List.filter_cons_of_pos (by simpa using hField),
              ← hRest.1, ← hRest.2]
            rfl

/- The same for a member that is looked into. -/
theorem fieldJson_importField
    {u : Tree}
    {id : NodeId}
    {path : JsonPath}
    {nodes : Array Node}
    {r : Field × Array Node}
    (k : Nat) :
    ∀ (v : Json),
      importField id path false nodes v = .ok r →
      v.keysDistinct = true →
      u.Covers r.2 nodes.size →
      r.2.size ≤ nodes.size + k →
        (u.fieldJson k r.1, r.2.size) =
          Json.mapNodesFrom u.written nodes.size v
  | .obj members, h, hKeys, hCovers, hEnough => by
      rw [importField] at h
      split at h
      · rcases bind_eq_ok_iff.1 h with ⟨head, hHead, hRest⟩
        rcases bind_eq_ok_iff.1 hRest with
          ⟨⟨fields, grown⟩, hFields, hResult⟩
        cases hResult
        rw [Json.keysDistinct_obj_iff] at hKeys
        exact nodeJson_obj hHead hFields hKeys.1 hCovers
          hEnough (fun j =>
            fieldMembers_importFields j members hFields
              hKeys.2)
      · rename_i hValue
        cases h
        rw [Json.mapNodesFrom, if_neg (by simpa using hValue)]
        rfl
  | .arr items, h, hKeys, hCovers, hEnough => by
      rw [importField] at h
      split at h
      · rename_i hList
        rcases bind_eq_ok_iff.1 h with
          ⟨⟨ids, grown⟩, hItems, hResult⟩
        cases hResult
        rw [Json.keysDistinct_arr_iff] at hKeys
        have hWritten :=
          itemJson_importItems k items hItems hKeys hCovers
            hEnough
        rw [Json.mapNodesFrom_of_isNodeList
          (by simpa using hList), ← hWritten]
        rfl
      · rename_i hValue
        cases h
        rw [Json.mapNodesFrom, if_neg (by simpa using hValue)]
        rfl
  | .null, h, _, _, _ => by
      cases h
      simp [fieldJson]
  | .bool _, h, _, _, _ => by
      cases h
      simp [fieldJson]
  | .num _, h, _, _, _ => by
      cases h
      simp [fieldJson]
  | .str _, h, _, _, _ => by
      cases h
      simp [fieldJson]

/- The same for a list of nodes, with its holes. -/
theorem itemJson_importItems
    {u : Tree}
    {owner : NodeId}
    {path : JsonPath}
    {i : Nat}
    {nodes : Array Node}
    {r : List (Option NodeId) × Array Node}
    (k : Nat) :
    ∀ (items : List Json),
      importItems owner path i nodes items = .ok r →
      (∀ v ∈ items, v.keysDistinct = true) →
      u.Covers r.2 nodes.size →
      r.2.size ≤ nodes.size + k →
        (r.1.map (u.itemJson k), r.2.size) =
          Json.mapItemsFrom u.written nodes.size items
  | [], h, _, _, _ => by
      rw [importItems] at h
      cases h
      simp
  | v :: items, h, hKeys, hCovers, hEnough => by
      rw [List.forall_mem_cons] at hKeys
      cases hNull : isNull v with
      | true =>
          rw [eq_null_of_isNull hNull] at h ⊢
          rw [importItems] at h
          rcases bind_eq_ok_iff.1 h with
            ⟨⟨ids, grown⟩, hItems, hResult⟩
          cases hResult
          have hRest :=
            itemJson_importItems k items hItems hKeys.2
              hCovers hEnough
          rw [Json.mapItemsFrom_cons, Json.mapNodesFrom_null,
            ← hRest]
          rfl
      | false =>
          rw [importItems_of_not_isNull hNull] at h
          rcases bind_eq_ok_iff.1 h with
            ⟨⟨child, between⟩, hItem, hNext⟩
          rcases bind_eq_ok_iff.1 hNext with
            ⟨⟨ids, grown⟩, hItems, hResult⟩
          cases hResult
          have hGrows := grows_importItems items hItems
          have hFirst : nodes.size ≤ between.size :=
            (grows_importNode v hItem).size_le
          have hSecond : between.size ≤ grown.size :=
            hGrows.size_le
          have hBelow : between.size ≤ nodes.size + k :=
            Nat.le_trans hSecond hEnough
          have hBehind : grown.size ≤ between.size + k :=
            Nat.le_trans hEnough
              (Nat.add_le_add_right hFirst k)
          have hHead :=
            nodeJson_importNode k v hItem hKeys.1
              (hCovers.of_grows hGrows) hBelow
          have hRest :=
            itemJson_importItems k items hItems hKeys.2
              (hCovers.mono hFirst) hBehind
          rw [Json.mapItemsFrom_cons, ← hHead, ← hRest]
          rfl

end

/-
  A tree that was imported, whatever its annotations are now,
  is written as the document it was imported from, with every
  node changed to how it is written.
-/
theorem toJson_of_clear
    {d : Document}
    {t u : Tree}
    (hTree : ofJson d.value = .ok t)
    (hClear : u.clearAnnotations = t.clearAnnotations) :
    u.toJson = d.value.mapNodes u.written := by
  rcases bind_eq_ok_iff.1 hTree with
    ⟨⟨id, nodes⟩, hNode, hResult⟩
  cases hResult
  have hRoot : id = root := fst_of_importNode hNode
  have hSome : 0 < nodes.size :=
    Nat.lt_of_le_of_lt (Nat.zero_le _)
      ((grows_importNode d.value hNode).top
        (List.mem_singleton.2 rfl)).2.1
  have hSize : u.nodes.size = nodes.size :=
    size_eq_of_clear hClear
  have hCovers : u.Covers nodes 0 := by
    intro n _ _
    rw [hClear]
  have hWritten :=
    nodeJson_importNode u.size d.value hNode d.keysDistinct
      hCovers (by simp [size, hSize])
  rw [Prod.ext_iff] at hWritten
  rw [toJson, if_neg, ← hRoot, Json.mapNodes]
  · exact hWritten.1
  · rw [Array.isEmpty_iff_size_eq_zero, hSize]
    exact Nat.ne_of_gt hSome

/- An import does not notice how a tree writes its nodes. -/
theorem unnoticed_written
    (u : Tree) :
    Unnoticed u.written := by
  have hAway :
      ∀ (id : NodeId) (key : String), key ≠ annotationKey →
        (annotationMember (u.annotation? id)).get? key =
          none := by
    intro id key hNe
    cases u.annotation? id with
    | none => rfl
    | some a =>
        simp [annotationMember, Members.get?, Ne.symm hNe]
  constructor
  case kind =>
    intro id ms
    rw [written, Members.get?_append, hAway id _ (by decide),
      Option.or_none, Members.get?_type_settled]
  case loc =>
    intro id ms
    rw [written, Members.get?_append, hAway id _ (by decide),
      Option.or_none, Members.get?_settled (by decide)]
  case fields =>
    intro id ms
    rw [written, List.filter_append, Members.filter_settled]
    cases u.annotation? id <;>
      simp [annotationMember, isField]

/-
  Reading what an imported tree is written as, whatever its
  annotations are now, gives the imported tree.
-/
theorem ofJson_toJson_of_clear
    {d : Document}
    {t u : Tree}
    (hTree : ofJson d.value = .ok t)
    (hClear : u.clearAnnotations = t.clearAnnotations) :
    ofJson u.toJson = .ok t := by
  rw [toJson_of_clear hTree hClear,
    u.unnoticed_written.ofJson_mapNodes, hTree]

/- An imported tree writes every node settled. -/
theorem toJson_eq_mapNodes_settled
    {d : Document}
    {t : Tree}
    (hTree : ofJson d.value = .ok t) :
    t.toJson = d.value.mapNodes (fun _ => Members.settled) := by
  have hBare : t.written = fun _ => Members.settled := by
    funext id ms
    rw [written, ← clearAnnotations_of_ofJson hTree,
      annotation?_clearAnnotations]
    exact List.append_nil _
  rw [toJson_of_clear hTree rfl, hBare]

/-
  An imported tree is written as the document it was imported
  from, but that every node has its `type` first and no
  annotation.  Importing what is written gives the same tree.
-/
theorem toJson_of_imported
    (d : Document)
    {t : Tree}
    (hTree : ofJson d.value = .ok t) :
    t.toJson = d.value.mapNodes (fun _ => Members.settled) ∧
      ofJson t.toJson = .ok t :=
  ⟨toJson_eq_mapNodes_settled hTree,
    ofJson_toJson_of_clear hTree rfl⟩

/-
  An array with a hole and an identifier, a comment and an
  annotation from an earlier run.
-/
def arrayJson : Json :=
  .obj
    [("loc", (SourceRange.onLine 1 0 6).toJson),
      ("inferredType", .obj [("type", .str "Stale")]),
      ("type", .str "ArrayExpression"),
      ("elements", .arr
        [.null,
          .obj
            [("name", .str "a"),
              ("type", .str "Identifier"),
              ("inferredType", .null),
              ("loc", (SourceRange.onLine 1 3 4).toJson)]]),
      ("holes", .arr [.null]),
      ("comments", .arr
        [.obj
          [("value", .str "b"),
            ("type", .str "CommentLine"),
            ("inferredType", .null)]])]

/- Only the array and the identifier in it are settled. -/
theorem toJson_of_imported_array :
    ∃ t,
      ofJson arrayJson = .ok t ∧
      t.toJson =
        .obj
          [("type", .str "ArrayExpression"),
            ("loc", (SourceRange.onLine 1 0 6).toJson),
            ("elements", .arr
              [.null,
                .obj
                  [("type", .str "Identifier"),
                    ("name", .str "a"),
                    ("loc",
                      (SourceRange.onLine 1 3 4).toJson)]]),
            ("holes", .arr [.null]),
            ("comments", .arr
              [.obj
                [("value", .str "b"),
                  ("type", .str "CommentLine"),
                  ("inferredType", .null)]])] ∧
      ofJson t.toJson = .ok t := by
  have hSome : (ofJson arrayJson).isOk = true := by
    decide +kernel
  cases hTree : ofJson arrayJson with
  | error e => simp [hTree, Except.isOk, Except.toBool] at hSome
  | ok t =>
      rcases toJson_of_imported
        ⟨arrayJson, by decide +kernel⟩ hTree with
        ⟨hWritten, hRead⟩
      exact ⟨t, rfl, hWritten.trans rfl, hRead⟩

end Tree

end TypeGraft
