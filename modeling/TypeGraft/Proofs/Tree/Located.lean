import TypeGraft.Proofs.Fallible
import TypeGraft.Proofs.Tree.Unnoticed

/-
  Which values stand for trees.

  A value stands for a tree if it is a node and all of its
  nodes have locations.  Nodes are looked for where an import
  looks: in the members of nodes that are not closed, as a
  node or in a list of nodes.  An import visits them in order,
  each before those inside it, so that it blames the first one
  without a location, and says which way leads there.

  Key definitions include:
    * `Json.at?`
    * `Json.HasNode`
    * `Json.nodes`
    * `Json.IsLocated`
    * `Json.Blames`

  Main declarations:
    * `Json.mem_nodes_iff`
    * `Json.HasNode.at?_eq`
    * `failure?_importNode`
    * `Tree.ofJson_blames_first`
-/

namespace TypeGraft

namespace Json

------------------------------------------------------------
-- Paths
------------------------------------------------------------

/- Take one step into a value. -/
def step?
    (v : Json) : PathStep → Option Json
  | .key name => v.get? name
  | .index i =>
      match v with
      | .arr items => items[i]?
      | _ => none

/- The value that a path leads to. -/
def at?
    (v : Json)
    (path : JsonPath) : Option Json :=
  path.foldlM step? v

------------------------------------------------------------
-- Nodes of a Value
------------------------------------------------------------

/- The value is an object with a text `type`. -/
def IsNode
    (v : Json) : Prop :=
  ∃ kind, v.get? "type" = some (.str kind)

/- There are nodes and nulls, and at least one node. -/
def AreNodes
    (items : List Json) : Prop :=
  (∃ v ∈ items, v.IsNode) ∧ ∀ v ∈ items, v = .null ∨ v.IsNode

/-
  The nodes of a value, and the paths that lead to them: the
  value itself, those in its open members if it is a node, and
  those in its items if these are nodes.
-/
inductive HasNode : Json → JsonPath → Json → Prop where
  | self
      {v : Json}
      (hNode : v.IsNode) :
      HasNode v [] v
  | member
      {members : Members}
      {key : String}
      {value w : Json}
      {path : JsonPath}
      (hNode : (Json.obj members).IsNode)
      (hMember : (key, value) ∈ members)
      (hOpen : isClosed key = false)
      (hInside : HasNode value path w) :
      HasNode (.obj members) (.key key :: path) w
  | item
      {items : List Json}
      {i : Nat}
      {value w : Json}
      {path : JsonPath}
      (hNodes : AreNodes items)
      (hItem : items[i]? = some value)
      (hInside : HasNode value path w) :
      HasNode (.arr items) (.index i :: path) w

mutual

/- The nodes of a value behind a path, parents first. -/
def nodesFrom
    (path : JsonPath) :
    Json → List (JsonPath × Json)
  | .obj members =>
      if isNode (.obj members) then
        (path, .obj members) :: memberNodes path members
      else []
  | .arr items =>
      if isNodeList (.arr items) then itemNodes path 0 items
      else []
  | _ => []

/- The nodes that the members of a node hold. -/
def memberNodes
    (path : JsonPath) :
    List (String × Json) → List (JsonPath × Json)
  | [] => []
  | (key, value) :: members =>
      (if isClosed key then []
        else nodesFrom (path ++ [.key key]) value) ++
        memberNodes path members

/- The nodes in a list of nodes. -/
def itemNodes
    (path : JsonPath)
    (i : Nat) :
    List Json → List (JsonPath × Json)
  | [] => []
  | v :: items =>
      nodesFrom (path ++ [.index i]) v ++
        itemNodes path (i + 1) items

end

/- All nodes of a value, in the order in which they begin. -/
def nodes
    (v : Json) : List (JsonPath × Json) :=
  nodesFrom [] v

theorem isNode_iff
    {v : Json} :
    isNode v = true ↔ v.IsNode := by
  rw [isNode, IsNode]
  split <;> simp_all

theorem isNodeList_iff
    {items : List Json} :
    isNodeList (.arr items) = true ↔ AreNodes items := by
  have hNull : ∀ v : Json, isNull v = true ↔ v = .null :=
    fun v => ⟨eq_null_of_isNull, by rintro rfl; rfl⟩
  simp [isNodeList, AreNodes, isNode_iff, hNull]

section Members

variable {p q : JsonPath}
variable {w : Json}

/- The nodes of an open member are among those of a node. -/
theorem mem_memberNodes
    {x : JsonPath × Json}
    {key : String}
    {value : Json}
    {members : Members}
    (hMember : (key, value) ∈ members)
    (hOpen : isClosed key = false)
    (h : x ∈ nodesFrom (p ++ [.key key]) value) :
    x ∈ memberNodes p members := by
  induction members with
  | nil => cases hMember
  | cons m members ih =>
      rcases m with ⟨k, v⟩
      rw [memberNodes, List.mem_append]
      rcases List.mem_cons.1 hMember with hFirst | hLater
      · cases hFirst
        left
        simpa [hOpen] using h
      · exact .inr (ih hLater)

/- The nodes of an item are among those of a list. -/
theorem mem_itemNodes
    {x : JsonPath × Json}
    {i j : Nat}
    {value : Json}
    {items : List Json}
    (hItem : items[j]? = some value)
    (h : x ∈ nodesFrom (p ++ [.index (i + j)]) value) :
    x ∈ itemNodes p i items := by
  induction items generalizing i j with
  | nil => simp at hItem
  | cons v items ih =>
      rw [itemNodes, List.mem_append]
      cases j with
      | zero =>
          rw [List.getElem?_cons_zero] at hItem
          cases hItem
          exact .inl h
      | succ j =>
          rw [List.getElem?_cons_succ] at hItem
          refine .inr (ih hItem ?_)
          rw [Nat.add_right_comm]
          exact h

/- What a value has is listed. -/
theorem HasNode.mem_nodesFrom
    {v : Json}
    {path : JsonPath}
    (h : v.HasNode path w) :
    (p ++ path, w) ∈ nodesFrom p v := by
  induction h generalizing p with
  | @self v hNode =>
      cases v with
      | obj members =>
          rw [nodesFrom, if_pos (isNode_iff.2 hNode)]
          simp
      | _ =>
          rcases hNode with ⟨_, hKind⟩
          cases hKind
  | @member _ key _ _ path hNode hMember hOpen _ ih =>
      rw [nodesFrom, if_pos (isNode_iff.2 hNode)]
      apply List.mem_cons_of_mem
      apply mem_memberNodes hMember hOpen
      have hListed := @ih (p ++ [.key key])
      rw [List.append_assoc] at hListed
      exact hListed
  | @item _ i _ _ path hNodes hItem _ ih =>
      rw [nodesFrom, if_pos (isNodeList_iff.2 hNodes)]
      apply mem_itemNodes hItem
      have hListed := @ih (p ++ [.index i])
      rw [List.append_assoc] at hListed
      rw [Nat.zero_add]
      exact hListed

mutual

/- What is listed for a value is a node of it. -/
theorem hasNode_of_mem_nodesFrom
    (p : JsonPath) :
    ∀ v : Json, (q, w) ∈ nodesFrom p v →
      ∃ path, q = p ++ path ∧ v.HasNode path w
  | .obj members, h => by
      rw [nodesFrom] at h
      split at h
      · rename_i hNode
        rcases List.mem_cons.1 h with hSelf | hInside
        · cases hSelf
          exact ⟨[], by simp, .self (isNode_iff.1 hNode)⟩
        · rcases member_of_mem_memberNodes p members hInside
            with ⟨key, value, path, hMember, hOpen, rfl, hHas⟩
          exact ⟨_, rfl, .member (isNode_iff.1 hNode) hMember
            hOpen hHas⟩
      · cases h
  | .arr items, h => by
      rw [nodesFrom] at h
      split at h
      · rename_i hList
        rcases item_of_mem_itemNodes p 0 items h with
          ⟨j, value, path, hItem, rfl, hHas⟩
        refine ⟨.index j :: path, by simp, ?_⟩
        exact .item (isNodeList_iff.1 hList) hItem hHas
      · cases h
  | .null, h => by simp [nodesFrom] at h
  | .bool _, h => by simp [nodesFrom] at h
  | .num _, h => by simp [nodesFrom] at h
  | .str _, h => by simp [nodesFrom] at h

/- What is listed for members is a node of an open one. -/
theorem member_of_mem_memberNodes
    (p : JsonPath) :
    ∀ members : List (String × Json),
      (q, w) ∈ memberNodes p members →
        ∃ key value path,
          (key, value) ∈ members ∧ isClosed key = false ∧
            q = p ++ .key key :: path ∧ value.HasNode path w
  | [], h => by simp [memberNodes] at h
  | (key, value) :: members, h => by
      rw [memberNodes, List.mem_append] at h
      rcases h with hFirst | hLater
      · split at hFirst
        · cases hFirst
        · rename_i hOpen
          rcases hasNode_of_mem_nodesFrom _ value hFirst with
            ⟨path, rfl, hHas⟩
          exact ⟨key, value, path, List.mem_cons_self,
            by simpa using hOpen, by simp, hHas⟩
      · rcases member_of_mem_memberNodes p members hLater with
          ⟨k, v, path, hMember, hRest⟩
        exact ⟨k, v, path, List.mem_cons_of_mem _ hMember,
          hRest⟩

/- What is listed for items is a node of one of them. -/
theorem item_of_mem_itemNodes
    (p : JsonPath)
    (i : Nat) :
    ∀ items : List Json, (q, w) ∈ itemNodes p i items →
      ∃ j value path,
        items[j]? = some value ∧
          q = p ++ .index (i + j) :: path ∧
            value.HasNode path w
  | [], h => by simp [itemNodes] at h
  | v :: items, h => by
      rw [itemNodes, List.mem_append] at h
      rcases h with hFirst | hLater
      · rcases hasNode_of_mem_nodesFrom _ v hFirst with
          ⟨path, rfl, hHas⟩
        exact ⟨0, v, path, rfl, by simp, hHas⟩
      · rcases item_of_mem_itemNodes p (i + 1) items hLater
          with ⟨j, value, path, hItem, rfl, hHas⟩
        refine ⟨j + 1, value, path, hItem, ?_, hHas⟩
        rw [Nat.add_right_comm, Nat.add_assoc]

end

/- The nodes of a value are all listed, and nothing else is. -/
theorem mem_nodes_iff
    {v : Json}
    {path : JsonPath} :
    (path, w) ∈ v.nodes ↔ v.HasNode path w := by
  constructor
  · intro h
    rcases hasNode_of_mem_nodesFrom [] v h with
      ⟨path, rfl, hHas⟩
    exact hHas
  · intro h
    exact @HasNode.mem_nodesFrom [] w v path h

/- The path of a node leads to it. -/
theorem HasNode.at?_eq
    {v : Json}
    {path : JsonPath}
    (h : v.HasNode path w)
    (hKeys : v.keysDistinct = true) :
    v.at? path = some w := by
  induction h with
  | self => rfl
  | member _ hMember _ _ ih =>
      rcases keysDistinct_obj_iff.1 hKeys with
        ⟨hDistinct, hValues⟩
      have hGet := Members.get?_of_mem hDistinct hMember
      rw [at?, List.foldlM_cons, step?, get?, hGet]
      exact ih (hValues _ hMember)
  | item _ hItem _ ih =>
      rw [at?, List.foldlM_cons, step?, hItem]
      exact ih (keysDistinct_arr_iff.1 hKeys _
        (List.mem_of_getElem? hItem))

end Members

------------------------------------------------------------
-- Locations
------------------------------------------------------------

/- The member with a key is a whole number of 32 bits. -/
def HasCoordinate
    (v : Json)
    (key : String) : Prop :=
  ∃ n : Nat, n < twoTo 32 ∧ v.get? key = some (.num (.whole n))

/- The member with a key has a line and a column. -/
def HasPosition
    (loc : Json)
    (which : String) : Prop :=
  ∃ v, loc.get? which = some v ∧
    v.HasCoordinate "line" ∧ v.HasCoordinate "column"

/- The value has a start and an end. -/
def IsLocation
    (loc : Json) : Prop :=
  loc.HasPosition "start" ∧ loc.HasPosition "end"

/- The value has a location. -/
def IsLocated
    (w : Json) : Prop :=
  ∃ loc, w.get? "loc" = some loc ∧ loc.IsLocation

/- What is wrong with one end of a location. -/
inductive HasFault
    (loc : Json)
    (which : String) : LocationFault → Prop where
  | missing
      (hNone : loc.get? which = none) :
      HasFault loc which (.missing which)
  | notANumber
      {v : Json}
      {key : String}
      (hSome : loc.get? which = some v)
      (hKey : key ∈ ["line", "column"])
      (hNot : ¬ v.HasCoordinate key) :
      HasFault loc which (.notANumber which key)

/- The error is about the location of the node at the path. -/
def Blames
    (path : JsonPath)
    (w : Json)
    (e : TreeError) : Prop :=
  (w.get? "loc" = none ∧ e = .missingLocation path) ∨
    ∃ loc fault,
      w.get? "loc" = some loc ∧ ¬ loc.IsLocation ∧
        (loc.HasFault "start" fault ∨
          loc.HasFault "end" fault) ∧
        e = .invalidLocation path fault

end Json

------------------------------------------------------------
-- Reading Locations
------------------------------------------------------------

/- A coordinate is read just if it is there. -/
theorem readCoordinate_cases
    (path : JsonPath)
    (which : String)
    (v : Json)
    (key : String) :
    (v.HasCoordinate key ∧
      ∃ n, readCoordinate path which v key = .ok n) ∨
    (¬ v.HasCoordinate key ∧
      readCoordinate path which v key =
        .error
          (.invalidLocation path (.notANumber which key))) := by
  have hRead :
      ∀ n, (v.get? key).bind Json.asNat32? = some n ↔
        n < twoTo 32 ∧ v.get? key = some (.num (.whole n)) := by
    intro n
    simp only [Option.bind_eq_some_iff, Json.asNat32?_eq_some_iff]
    grind
  rw [readCoordinate]
  split
  · rename_i n hSome
    exact .inl ⟨⟨n, (hRead n).1 hSome⟩, n, rfl⟩
  · rename_i hNone
    refine .inr ⟨?_, rfl⟩
    rintro ⟨n, hHolds⟩
    rw [(hRead n).2 hHolds] at hNone
    cases hNone

/- So is a position, or else one of its coordinates is wrong. -/
theorem readPosition_cases
    (path : JsonPath)
    (loc : Json)
    (which : String) :
    (loc.HasPosition which ∧
      ∃ p, readPosition path loc which = .ok p) ∨
    (¬ loc.HasPosition which ∧
      ∃ fault, loc.HasFault which fault ∧
        readPosition path loc which =
          .error (.invalidLocation path fault)) := by
  rw [readPosition]
  cases hGet : loc.get? which with
  | none =>
      refine .inr ⟨?_, _, .missing hGet, rfl⟩
      rintro ⟨v, hSome, -⟩
      rw [hGet] at hSome
      cases hSome
  | some v =>
      have hNot :
          ∀ key ∈ ["line", "column"], ¬ v.HasCoordinate key →
            ¬ loc.HasPosition which := by
        rintro key hKey hWrong ⟨u, hSome, hLine, hColumn⟩
        rw [hGet] at hSome
        cases hSome
        simp only [List.mem_cons, List.not_mem_nil,
          or_false] at hKey
        rcases hKey with rfl | rfl
        · exact hWrong hLine
        · exact hWrong hColumn
      rcases readCoordinate_cases path which v "line" with
        ⟨hLine, line, hReadLine⟩ | ⟨hLine, hReadLine⟩
      · rcases readCoordinate_cases path which v "column" with
          ⟨hColumn, column, hReadColumn⟩ | ⟨hColumn, hReadColumn⟩
        · refine .inl ⟨⟨v, hGet, hLine, hColumn⟩,
            ⟨line, column⟩, ?_⟩
          simp only [hReadLine, hReadColumn]
          rfl
        · refine .inr ⟨hNot _ (by simp) hColumn, _,
            .notANumber hGet (by simp) hColumn, ?_⟩
          simp only [hReadLine, hReadColumn]
          rfl
      · refine .inr ⟨hNot _ (by simp) hLine, _,
          .notANumber hGet (by simp) hLine, ?_⟩
        simp only [hReadLine]
        rfl

/- A location is read, or it is said what is wrong with it. -/
theorem readRange_cases
    (path : JsonPath)
    (loc : Json) :
    (loc.IsLocation ∧ ∃ range, readRange path loc = .ok range) ∨
    (¬ loc.IsLocation ∧
      ∃ fault,
        (loc.HasFault "start" fault ∨
          loc.HasFault "end" fault) ∧
        readRange path loc =
          .error (.invalidLocation path fault)) := by
  rw [readRange]
  rcases readPosition_cases path loc "start" with
    ⟨hStart, start, hReadStart⟩ |
      ⟨hStart, fault, hFault, hReadStart⟩
  · rcases readPosition_cases path loc "end" with
      ⟨hEnd, stop, hReadEnd⟩ | ⟨hEnd, fault, hFault, hReadEnd⟩
    · refine .inl ⟨⟨hStart, hEnd⟩, ⟨start, stop⟩, ?_⟩
      simp only [hReadStart, hReadEnd]
      rfl
    · refine .inr ⟨fun h => hEnd h.2, fault, .inr hFault, ?_⟩
      simp only [hReadStart, hReadEnd]
      rfl
  · refine .inr ⟨fun h => hStart h.1, fault, .inl hFault, ?_⟩
    simp only [hReadStart]
    rfl

------------------------------------------------------------
-- Failures
------------------------------------------------------------

/- The error of an import at a node, if it has no location. -/
def locationError?
    (place : JsonPath × Json) : Option TreeError :=
  match place.2.get? "loc" with
  | none => some (.missingLocation place.1)
  | some loc => failure? (readRange place.1 loc)

/- There is none just if the node has a location. -/
theorem locationError?_eq_none_iff
    {path : JsonPath}
    {w : Json} :
    locationError? (path, w) = none ↔ w.IsLocated := by
  rw [locationError?, Json.IsLocated]
  cases w.get? "loc" with
  | none => simp
  | some loc =>
      simp only [Option.some.injEq, exists_eq_left']
      rcases readRange_cases path loc with
        ⟨hLocation, range, hRead⟩ | ⟨hNot, fault, -, hRead⟩
      · simp [hRead, failure?, hLocation]
      · simp [hRead, failure?, hNot]

/- The error is about what the node has. -/
theorem blames_of_locationError?
    {path : JsonPath}
    {w : Json}
    {e : TreeError}
    (h : locationError? (path, w) = some e) :
    Json.Blames path w e := by
  rw [locationError?] at h
  cases hLoc : w.get? "loc" with
  | none =>
      simp only [hLoc, Option.some.injEq] at h
      exact .inl ⟨hLoc, h.symm⟩
  | some loc =>
      simp only [hLoc] at h
      rcases readRange_cases path loc with
        ⟨-, range, hRead⟩ | ⟨hNot, fault, hFault, hRead⟩
      · simp [hRead, failure?] at h
      · rw [failure?_eq_some_iff, hRead] at h
        cases h
        exact .inr ⟨loc, fault, hLoc, hNot, hFault, rfl⟩

theorem failure?_readHead
    {parent : Option NodeId}
    {path : JsonPath}
    {members : Members}
    (hNode : isNode (.obj members) = true) :
    failure? (readHead parent path members) =
      locationError? (path, .obj members) := by
  rcases Json.isNode_iff.1 hNode with ⟨kind, hKind⟩
  rw [Json.get?] at hKind
  simp only [readHead, hKind, locationError?, Json.get?]
  cases members.get? "loc" with
  | none => rfl
  | some loc =>
      show failure? (readRange path loc >>= fun _ => _) = _
      rw [@failure?_bind _ _ _ _ _ none (fun _ => rfl),
        Option.or_none]

/- Making a result of what a step gives adds no error. -/
theorem failure?_bind_pure
    {ε α β : Type}
    {x : Except ε α}
    (f : α → β) :
    failure? (x >>= fun a => pure (f a)) = failure? x := by
  cases x <;> rfl

/- A node fails at its own location, or else in its members. -/
theorem failure?_node
    {β : Type}
    {parent : Option NodeId}
    {id : NodeId}
    {path : JsonPath}
    {nodes : Array Node}
    {members : Members}
    (hNode : isNode (.obj members) = true)
    (hMembers :
      ∀ grown, failure? (importFields id path grown members) =
        (Json.memberNodes path members).findSome?
          locationError?)
    (build : List (String × Field) × Array Node → β) :
    failure? (do
        let head ← readHead parent path members
        let r ← importFields id path (nodes.push head) members
        return build r) =
      ((Json.obj members).nodesFrom path).findSome?
        locationError? := by
  rw [@failure?_bind _ _ _ _ _
      ((Json.memberNodes path members).findSome?
        locationError?)
      (fun head => by rw [failure?_bind_pure, hMembers]),
    failure?_readHead hNode, Json.nodesFrom, if_pos hNode,
    List.findSome?_cons]
  cases locationError? (path, .obj members) <;> rfl

mutual

/- An import of a node fails at the first bad node. -/
theorem failure?_importNode
    (parent : Option NodeId)
    (path : JsonPath)
    (nodes : Array Node) :
    ∀ v : Json, isNode v = true →
      failure? (importNode parent path nodes v) =
        (v.nodesFrom path).findSome? locationError?
  | .obj members, hNode => by
      rw [importNode]
      exact failure?_node hNode
        (fun grown =>
          failure?_importFields _ path grown members) _
  | .null, hNode => by cases hNode
  | .bool _, hNode => by cases hNode
  | .num _, hNode => by cases hNode
  | .str _, hNode => by cases hNode
  | .arr _, hNode => by cases hNode

/- So does an import of members. -/
theorem failure?_importFields
    (id : NodeId)
    (path : JsonPath)
    (nodes : Array Node) :
    ∀ members : List (String × Json),
      failure? (importFields id path nodes members) =
        (Json.memberNodes path members).findSome?
          locationError?
  | [] => by
      rw [importFields, Json.memberNodes]
      rfl
  | (key, value) :: members => by
      rw [importFields, Json.memberNodes,
        List.findSome?_append]
      split
      · rename_i hSkip
        have hClosed :=
          isClosed_of_not_isField key
            (isField_eq_false_iff.2 hSkip)
        rw [failure?_importFields id path nodes members,
          if_pos hClosed]
        rfl
      · rename_i hField
        rw [@failure?_bind _ _ _ _ _
            ((Json.memberNodes path members).findSome?
              locationError?)
            (fun r => by
              rw [← failure?_importFields id path r.2 members]
              exact failure?_bind_pure _),
          failure?_importField id _ _ nodes value,
          isClosed_of_isField (isField_iff.2 hField)]
        split <;> rfl

/- Nothing fails in a member that is not looked into. -/
theorem failure?_importField
    (id : NodeId)
    (path : JsonPath)
    (isOpaque : Bool)
    (nodes : Array Node) :
    ∀ v : Json,
      failure? (importField id path isOpaque nodes v) =
        if isOpaque then none
        else (v.nodesFrom path).findSome? locationError?
  | .obj members => by
      rw [importField]
      cases isOpaque with
      | true => rfl
      | false =>
          by_cases hNode : isNode (.obj members) = true
          · rw [if_pos (by simp [hNode])]
            exact failure?_node hNode
              (fun grown =>
                failure?_importFields _ path grown members) _
          · rw [if_neg (by simp [hNode]), Json.nodesFrom,
              if_neg hNode]
            rfl
  | .arr items => by
      rw [importField]
      cases isOpaque with
      | true => rfl
      | false =>
          by_cases hList : isNodeList (.arr items) = true
          · rw [if_pos (by simp [hList]), Json.nodesFrom,
              if_pos hList]
            rw [← failure?_importItems id path 0 nodes items
              (Json.isNodeList_iff.1 hList).2]
            exact failure?_bind_pure _
          · rw [if_neg (by simp [hList]), Json.nodesFrom,
              if_neg hList]
            rfl
  | .null => by simp [importField, Json.nodesFrom, failure?]
  | .bool _ => by simp [importField, Json.nodesFrom, failure?]
  | .num _ => by simp [importField, Json.nodesFrom, failure?]
  | .str _ => by simp [importField, Json.nodesFrom, failure?]

/- Nulls in a list of nodes are passed over. -/
theorem failure?_importItems
    (id : NodeId)
    (path : JsonPath)
    (i : Nat)
    (nodes : Array Node) :
    ∀ items : List Json,
      (∀ v ∈ items, v = .null ∨ v.IsNode) →
        failure? (importItems id path i nodes items) =
          (Json.itemNodes path i items).findSome?
            locationError?
  | [], _ => by
      rw [importItems, Json.itemNodes]
      rfl
  | v :: items, h => by
      have hRest :
          ∀ grown,
            failure? (importItems id path (i + 1) grown items) =
              (Json.itemNodes path (i + 1) items).findSome?
                locationError? :=
        fun grown =>
          failure?_importItems id path (i + 1) grown items
            (fun u hMem => h u (List.mem_cons_of_mem _ hMem))
      rw [Json.itemNodes, List.findSome?_append]
      cases hNull : isNull v with
      | true =>
          rw [eq_null_of_isNull hNull, importItems,
            Json.nodesFrom, ← hRest nodes]
          · exact failure?_bind_pure _
          all_goals simp
      | false =>
          have hNode : isNode v = true := by
            rcases h v List.mem_cons_self with rfl | hNode
            · cases hNull
            · exact Json.isNode_iff.2 hNode
          rw [importItems_of_not_isNull hNull,
            ← failure?_importNode (some id) _ nodes v hNode]
          apply failure?_bind
          intro r
          rw [← hRest r.2]
          exact failure?_bind_pure _

end

------------------------------------------------------------
-- Trees
------------------------------------------------------------

/- What is no node stands for no tree. -/
theorem importNode_of_not_isNode
    {parent : Option NodeId}
    {path : JsonPath}
    {nodes : Array Node}
    {v : Json}
    (h : ¬ v.IsNode) :
    importNode parent path nodes v = .error (.notANode path) := by
  cases v with
  | obj members =>
      have hHead :
          readHead parent path members =
            .error (.notANode path) := by
        rw [readHead]
        split
        · rename_i kind hKind
          exact absurd ⟨kind, hKind⟩ h
        · rfl
      rw [importNode, hHead]
      rfl
  | _ =>
      rw [importNode]
      simp

namespace Tree

theorem failure?_ofJson
    {v : Json}
    (hNode : v.IsNode) :
    failure? (ofJson v) = v.nodes.findSome? locationError? := by
  rw [Json.nodes, ← failure?_importNode none [] #[] v
    (Json.isNode_iff.2 hNode)]
  exact failure?_bind_pure _

theorem ofJson_of_not_isNode
    {v : Json}
    (h : ¬ v.IsNode) :
    ofJson v = .error (.notANode []) := by
  rw [ofJson, importNode_of_not_isNode h]
  rfl

/-
  A value stands for a tree just if it is a node and all its
  nodes have locations.  If it does not, then either it is no
  node, or the error is about the first of its nodes without a
  location, and has the path that leads there in a document.
-/
theorem ofJson_blames_first
    (v : Json) :
    ((∃ t, ofJson v = .ok t) ↔
      v.IsNode ∧ ∀ path w, v.HasNode path w → w.IsLocated) ∧
    ∀ e, ofJson v = .error e →
      (¬ v.IsNode ∧ e = .notANode []) ∨
      (v.IsNode ∧
        ∃ before path w after,
          v.nodes = before ++ (path, w) :: after ∧
          (∀ earlier ∈ before, earlier.2.IsLocated) ∧
          v.HasNode path w ∧
          (∀ d : Document, d.value = v →
            d.value.at? path = some w) ∧
          Json.Blames path w e) := by
  by_cases hNode : v.IsNode
  · have hFails := failure?_ofJson hNode
    constructor
    · rw [← failure?_eq_none_iff, hFails,
        List.findSome?_eq_none_iff]
      constructor
      · intro hNone
        refine ⟨hNode, fun path w hHas => ?_⟩
        exact locationError?_eq_none_iff.1
          (hNone _ (Json.mem_nodes_iff.2 hHas))
      · rintro ⟨-, hAll⟩ ⟨path, w⟩ hMem
        exact locationError?_eq_none_iff.2
          (hAll path w (Json.mem_nodes_iff.1 hMem))
    · intro e hError
      rw [failure?_eq_some_iff.2 hError] at hFails
      rcases List.findSome?_eq_some_iff.1 hFails.symm with
        ⟨before, ⟨path, w⟩, after, hNodes, hBad, hBefore⟩
      have hHas : v.HasNode path w :=
        Json.mem_nodes_iff.1 (by rw [hNodes]; simp)
      refine .inr ⟨hNode, before, path, w, after, hNodes, ?_,
        hHas, ?_, blames_of_locationError? hBad⟩
      · rintro ⟨path, u⟩ hMem
        exact locationError?_eq_none_iff.1 (hBefore _ hMem)
      · rintro d rfl
        exact hHas.at?_eq d.keysDistinct
  · rw [ofJson_of_not_isNode hNode]
    constructor
    · simp [hNode]
    · intro e hError
      cases hError
      exact .inl ⟨hNode, rfl⟩

/-
  A program with nodes that have no location.  All but the
  last one are where no nodes are looked for.
-/
def unlocatedProgram : Json :=
  let bare : Json := .obj [("type", .str "EmptyStatement")]
  let position : Json :=
    .obj [("line", .num (.whole 1)), ("column", .num (.whole 0))]
  .obj
    [("type", .str "Program"),
      ("loc", .obj [("start", position), ("end", position)]),
      ("comments", .arr [bare]), ("inferredType", bare),
      ("mixed", .arr [bare, .str "a"]),
      ("body", .arr [.null, bare])]

/- The error is about that one. -/
theorem ofJson_blames_first_unlocated :
    ∃ w e,
      ofJson unlocatedProgram = .error e ∧
      unlocatedProgram.at? [.key "body", .index 1] = some w ∧
      Json.Blames [.key "body", .index 1] w e := by
  have hError :
      ofJson unlocatedProgram =
        .error (.missingLocation [.key "body", .index 1]) :=
    failure?_eq_some_iff.1 (by decide +kernel)
  rcases (ofJson_blames_first unlocatedProgram).2 _ hError with
    ⟨-, hOther⟩ | ⟨-, _, path, w, _, -, -, -, hAt, hBlames⟩
  · cases hOther
  · have hPath : path = [.key "body", .index 1] := by
      rcases hBlames with ⟨-, hSame⟩ | ⟨_, _, -, -, -, hSame⟩
      · exact (TreeError.missingLocation.inj hSame).symm
      · cases hSame
    subst hPath
    exact ⟨w, _, hError,
      hAt ⟨unlocatedProgram, by decide +kernel⟩ rfl, hBlames⟩

end Tree

end TypeGraft
