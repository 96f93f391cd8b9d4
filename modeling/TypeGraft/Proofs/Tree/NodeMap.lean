import TypeGraft.Proofs.Json.Keys
import TypeGraft.Tree.Import

/-
  Changing the nodes of a value.

  The nodes of a value are the value itself, if it is a node,
  and the nodes that its members hold as a child or in a list
  of children.  They are numbered in the order in which they
  begin, as an import numbers them.  A change of all nodes
  gives each of them new members by its number and the
  members it has, in which the nodes are changed already.

  Key definitions include:
    * `isClosed`
    * `Json.mapNodes`
    * `Json.LeavesNodes`
    * `Members.settled`

  Main declarations:
    * `Json.isNode_mapNodesFrom`
    * `Json.isNodeList_mapItemsFrom`
    * `Json.mapNodes_mapNodes`
    * `Members.mapMembersFrom_settled`
-/

namespace TypeGraft

------------------------------------------------------------
-- Numbered Nodes
------------------------------------------------------------

/- Members that hold no nodes of a tree, by their keys. -/
def isClosed
    (key : String) : Bool :=
  key = "type" || key = annotationKey || opaqueKeys.contains key

/- Members that a tree keeps as fields, by their keys. -/
def isField
    (key : String) : Bool :=
  key != "type" && key != annotationKey

/- All members are fields but for these two. -/
theorem isField_eq_false_iff
    {key : String} :
    isField key = false ↔
      key = "type" ∨ key = annotationKey := by
  rw [isField, Bool.and_eq_false_iff, bne_eq_false_iff_eq,
    bne_eq_false_iff_eq]

theorem isField_iff
    {key : String} :
    isField key = true ↔
      ¬ (key = "type" ∨ key = annotationKey) := by
  rw [← isField_eq_false_iff, Bool.not_eq_false]

/- A member that is no field holds no nodes. -/
theorem isClosed_of_not_isField
    (key : String)
    (h : isField key = false) :
    isClosed key = true := by
  rcases isField_eq_false_iff.1 h with rfl | rfl <;> rfl

/- A field holds no nodes just if it is not looked into. -/
theorem isClosed_of_isField
    {key : String}
    (h : isField key = true) :
    isClosed key = opaqueKeys.contains key := by
  rw [isField, Bool.and_eq_true, bne_iff_ne, bne_iff_ne] at h
  simp [isClosed, h.1, h.2]

namespace Json

mutual

/-
  Change the nodes of a value, numbered from `i` on, and give
  the next number.
-/
def mapNodesFrom
    (f : NodeId → Members → Members)
    (i : Nat) :
    Json → Json × Nat
  | .obj members =>
      if isNode (.obj members) then
        let r := mapMembersFrom f (i + 1) members
        (.obj (f ⟨i⟩ r.1), r.2)
      else (.obj members, i)
  | .arr items =>
      if isNodeList (.arr items) then
        let r := mapItemsFrom f i items
        (.arr r.1, r.2)
      else (.arr items, i)
  | v => (v, i)

/- Change the nodes that the members of a node hold. -/
def mapMembersFrom
    (f : NodeId → Members → Members)
    (i : Nat) :
    List (String × Json) → List (String × Json) × Nat
  | [] => ([], i)
  | (key, value) :: members =>
      if isClosed key then
        let r := mapMembersFrom f i members
        ((key, value) :: r.1, r.2)
      else
        let r := mapNodesFrom f i value
        let s := mapMembersFrom f r.2 members
        ((key, r.1) :: s.1, s.2)

/- Change the nodes in a list of nodes. -/
def mapItemsFrom
    (f : NodeId → Members → Members)
    (i : Nat) :
    List Json → List Json × Nat
  | [] => ([], i)
  | v :: items =>
      let r := mapNodesFrom f i v
      let s := mapItemsFrom f r.2 items
      (r.1 :: s.1, s.2)

end

/- Change all nodes of a value. -/
def mapNodes
    (f : NodeId → Members → Members)
    (v : Json) : Json :=
  (mapNodesFrom f 0 v).1

variable {f g : NodeId → Members → Members}
variable {i : Nat}
variable {key : String}
variable {value : Json}
variable {members others : Members}
variable {items : List Json}

/- A node is changed after what it holds. -/
theorem mapNodesFrom_of_isNode
    (h : isNode (.obj members) = true) :
    mapNodesFrom f i (.obj members) =
      (.obj (f ⟨i⟩ (mapMembersFrom f (i + 1) members).1),
        (mapMembersFrom f (i + 1) members).2) := by
  rw [mapNodesFrom, if_pos h]

theorem mapNodesFrom_of_isNodeList
    (h : isNodeList (.arr items) = true) :
    mapNodesFrom f i (.arr items) =
      (.arr (mapItemsFrom f i items).1,
        (mapItemsFrom f i items).2) := by
  rw [mapNodesFrom, if_pos h]

@[simp]
theorem mapNodesFrom_null :
    mapNodesFrom f i .null = (.null, i) := by
  rw [mapNodesFrom] <;> simp

@[simp]
theorem mapNodesFrom_bool
    (b : Bool) :
    mapNodesFrom f i (.bool b) = (.bool b, i) := by
  rw [mapNodesFrom] <;> simp

@[simp]
theorem mapNodesFrom_num
    (n : Number) :
    mapNodesFrom f i (.num n) = (.num n, i) := by
  rw [mapNodesFrom] <;> simp

@[simp]
theorem mapNodesFrom_str
    (s : String) :
    mapNodesFrom f i (.str s) = (.str s, i) := by
  rw [mapNodesFrom] <;> simp

@[simp]
theorem mapMembersFrom_nil :
    mapMembersFrom f i [] = ([], i) := by
  rw [mapMembersFrom]

theorem mapMembersFrom_closed
    (h : isClosed key = true) :
    mapMembersFrom f i ((key, value) :: members) =
      ((key, value) :: (mapMembersFrom f i members).1,
        (mapMembersFrom f i members).2) := by
  rw [mapMembersFrom, if_pos h]

theorem mapMembersFrom_open
    (h : isClosed key = false) :
    mapMembersFrom f i ((key, value) :: members) =
      ((key, (mapNodesFrom f i value).1) ::
          (mapMembersFrom f (mapNodesFrom f i value).2
            members).1,
        (mapMembersFrom f (mapNodesFrom f i value).2
          members).2) := by
  rw [mapMembersFrom, if_neg (by simp [h])]

@[simp]
theorem mapItemsFrom_nil :
    mapItemsFrom f i [] = ([], i) := by
  rw [mapItemsFrom]

theorem mapItemsFrom_cons :
    mapItemsFrom f i (value :: items) =
      ((mapNodesFrom f i value).1 ::
          (mapItemsFrom f (mapNodesFrom f i value).2 items).1,
        (mapItemsFrom f (mapNodesFrom f i value).2
          items).2) := by
  rw [mapItemsFrom]

------------------------------------------------------------
-- Members
------------------------------------------------------------

/- The keys of members stay. -/
@[simp]
theorem keys_mapMembersFrom :
    Members.keys (mapMembersFrom f i members).1 =
      Members.keys members := by
  induction members generalizing i with
  | nil => simp
  | cons m members ih =>
      rcases m with ⟨key, value⟩
      cases hClosed : isClosed key with
      | true => simp [mapMembersFrom_closed hClosed, ih]
      | false => simp [mapMembersFrom_open hClosed, ih]

/- What a closed member holds stays. -/
theorem get?_mapMembersFrom
    (h : isClosed key = true) :
    Members.get? (mapMembersFrom f i members).1 key =
      Members.get? members key := by
  induction members generalizing i with
  | nil => simp
  | cons m members ih =>
      rcases m with ⟨k, value⟩
      cases hClosed : isClosed k with
      | true =>
          simp only [mapMembersFrom_closed hClosed,
            Members.get?, ih]
      | false =>
          have hNe : k ≠ key := by
            rintro rfl
            cases hClosed.symm.trans h
          simp only [mapMembersFrom_open hClosed, Members.get?,
            if_neg hNe, ih]

/- Members one after the other. -/
theorem mapMembersFrom_append :
    mapMembersFrom f i (members ++ others) =
      ((mapMembersFrom f i members).1 ++
          (mapMembersFrom f (mapMembersFrom f i members).2
            others).1,
        (mapMembersFrom f (mapMembersFrom f i members).2
          others).2) := by
  induction members generalizing i with
  | nil => simp
  | cons m members ih =>
      rcases m with ⟨key, value⟩
      rw [List.cons_append]
      cases hClosed : isClosed key with
      | true => simp [mapMembersFrom_closed hClosed, ih]
      | false => simp [mapMembersFrom_open hClosed, ih]

section Filter

variable {test : String → Bool}

/- Closed members stay, and no number is given to them. -/
theorem mapMembersFrom_filter_closed
    (h : ∀ key, test key = true → isClosed key = true) :
    mapMembersFrom f i
        (members.filter (fun m => test m.1)) =
      (members.filter (fun m => test m.1), i) := by
  induction members with
  | nil => simp
  | cons m members ih =>
      rcases m with ⟨key, value⟩
      cases hTest : test key with
      | true =>
          simp [hTest, mapMembersFrom_closed (h key hTest), ih]
      | false => simp [hTest, ih]

/- They are the same before and after a change. -/
theorem filter_mapMembersFrom_closed
    (h : ∀ key, test key = true → isClosed key = true) :
    (mapMembersFrom f i members).1.filter
        (fun m => test m.1) =
      members.filter (fun m => test m.1) := by
  induction members generalizing i with
  | nil => simp
  | cons m members ih =>
      rcases m with ⟨key, value⟩
      cases hClosed : isClosed key with
      | true =>
          simp [mapMembersFrom_closed hClosed,
            List.filter_cons, ih]
      | false =>
          have hTest : test key = false := by
            cases hTest : test key with
            | false => rfl
            | true => cases hClosed.symm.trans (h key hTest)
          simp [mapMembersFrom_open hClosed, hTest, ih]

/- Without some closed members the others change alike. -/
theorem mapMembersFrom_filter
    (h : ∀ key, test key = false → isClosed key = true) :
    mapMembersFrom f i
        (members.filter (fun m => test m.1)) =
      ((mapMembersFrom f i members).1.filter
          (fun m => test m.1),
        (mapMembersFrom f i members).2) := by
  induction members generalizing i with
  | nil => simp
  | cons m members ih =>
      rcases m with ⟨key, value⟩
      cases hClosed : isClosed key with
      | true =>
          cases hTest : test key <;>
            simp [hTest, mapMembersFrom_closed hClosed, ih]
      | false =>
          have hTest : test key = true := by
            cases hTest : test key with
            | true => rfl
            | false => cases hClosed.symm.trans (h key hTest)
          simp [hTest, mapMembersFrom_open hClosed, ih]

end Filter

------------------------------------------------------------
-- Shapes
------------------------------------------------------------

/- Nodes are told from other values by their `type`. -/
theorem isNode_obj_congr
    (h :
      Members.get? members "type" =
        Members.get? others "type") :
    isNode (.obj members) = isNode (.obj others) := by
  simp only [isNode, Json.get?, h]

section Shapes

variable (hKind :
  ∀ id (ms : Members), (f id ms).get? "type" = ms.get? "type")

include hKind

/- Nodes stay nodes, and nothing else becomes one. -/
theorem isNode_mapNodesFrom :
    isNode (mapNodesFrom f i value).1 = isNode value := by
  cases value with
  | obj members =>
      by_cases hNode : isNode (.obj members) = true
      · rw [mapNodesFrom_of_isNode hNode]
        apply isNode_obj_congr
        rw [hKind, get?_mapMembersFrom rfl]
      · rw [mapNodesFrom, if_neg hNode]
  | arr items =>
      rw [mapNodesFrom]
      split <;> rfl
  | _ => simp

omit hKind in
/- Holes stay holes. -/
theorem isNull_mapNodesFrom :
    isNull (mapNodesFrom f i value).1 = isNull value := by
  cases value with
  | obj members =>
      rw [mapNodesFrom]
      split <;> rfl
  | arr items =>
      rw [mapNodesFrom]
      split <;> rfl
  | _ => simp

omit hKind in
/-
  A view that shows all values as before shows all lists as
  before.
-/
theorem map_mapItemsFrom
    {view : Json → Bool}
    (h : ∀ i v, view (mapNodesFrom f i v).1 = view v) :
    (mapItemsFrom f i items).1.map view = items.map view := by
  induction items generalizing i with
  | nil => simp
  | cons v items ih => simp [mapItemsFrom_cons, h, ih]

/- Lists of nodes stay lists of nodes. -/
theorem isNodeList_mapItemsFrom :
    isNodeList (.arr (mapItemsFrom f i items).1) =
      isNodeList (.arr items) := by
  have hNode :=
    @map_mapItemsFrom f i items isNode
      (fun _ _ => isNode_mapNodesFrom hKind)
  have hItem :=
    @map_mapItemsFrom f i items
      (fun v => isNull v || isNode v) (by
        intro j v
        rw [isNull_mapNodesFrom, isNode_mapNodesFrom hKind])
  have hAny := congrArg (fun bs => bs.any id) hNode
  have hAll := congrArg (fun bs => bs.all id) hItem
  simp only [List.any_map, List.all_map, Function.id_comp]
    at hAny hAll
  simp only [isNodeList, hAny, hAll]

end Shapes

------------------------------------------------------------
-- Two Changes
------------------------------------------------------------

/-
  A change leaves nodes where they are: a node keeps its kind,
  and a second change of the nodes that it holds can as well
  be made before.
-/
structure LeavesNodes
    (f g : NodeId → Members → Members) : Prop where
  kind :
    ∀ id (ms : Members),
      (f id ms).get? "type" = ms.get? "type"
  inner :
    ∀ id i (ms : Members),
      mapMembersFrom g i (f id ms) =
        (f id (mapMembersFrom g i ms).1,
          (mapMembersFrom g i ms).2)

mutual

/- Then both changes are one, with the same numbers. -/
theorem mapNodesFrom_mapNodesFrom
    (h : LeavesNodes f g)
    (i : Nat) :
    ∀ v : Json,
      mapNodesFrom g i (mapNodesFrom f i v).1 =
          mapNodesFrom (fun id ms => g id (f id ms)) i v ∧
        (mapNodesFrom f i v).2 =
          (mapNodesFrom (fun id ms => g id (f id ms)) i v).2
  | .obj members => by
      by_cases hNode : isNode (.obj members) = true
      · have hChanged :=
          @isNode_mapNodesFrom f i (.obj members) h.kind
        have hInner :=
          mapMembersFrom_mapMembersFrom h (i + 1) members
        rw [mapNodesFrom_of_isNode hNode] at hChanged ⊢
        rw [mapNodesFrom_of_isNode hNode,
          mapNodesFrom_of_isNode (hChanged.trans hNode),
          h.inner, hInner.1]
        exact ⟨rfl, hInner.2⟩
      · simp only [mapNodesFrom, if_neg hNode, and_self]
  | .arr items => by
      by_cases hList : isNodeList (.arr items) = true
      · have hChanged :=
          @isNodeList_mapItemsFrom f i items h.kind
        have hInner := mapItemsFrom_mapItemsFrom h i items
        rw [mapNodesFrom_of_isNodeList hList,
          mapNodesFrom_of_isNodeList hList,
          mapNodesFrom_of_isNodeList (hChanged.trans hList),
          hInner.1]
        exact ⟨rfl, hInner.2⟩
      · simp only [mapNodesFrom, if_neg hList, and_self]
  | .null => by simp
  | .bool _ => by simp
  | .num _ => by simp
  | .str _ => by simp

/- The same for the nodes that members hold. -/
theorem mapMembersFrom_mapMembersFrom
    (h : LeavesNodes f g)
    (i : Nat) :
    ∀ members : List (String × Json),
      mapMembersFrom g i (mapMembersFrom f i members).1 =
          mapMembersFrom (fun id ms => g id (f id ms)) i
            members ∧
        (mapMembersFrom f i members).2 =
          (mapMembersFrom (fun id ms => g id (f id ms)) i
            members).2
  | [] => by simp
  | (key, value) :: members => by
      cases hClosed : isClosed key with
      | true =>
          have hRest :=
            mapMembersFrom_mapMembersFrom h i members
          simp only [mapMembersFrom_closed hClosed, hRest.1,
            true_and]
          exact hRest.2
      | false =>
          have hValue := mapNodesFrom_mapNodesFrom h i value
          have hRest :=
            mapMembersFrom_mapMembersFrom h
              (mapNodesFrom f i value).2 members
          rw [hValue.2] at hRest
          simp only [mapMembersFrom_open hClosed, hValue.1,
            hValue.2, hRest.1, true_and]
          exact hRest.2

/- The same for a list of nodes. -/
theorem mapItemsFrom_mapItemsFrom
    (h : LeavesNodes f g)
    (i : Nat) :
    ∀ items : List Json,
      mapItemsFrom g i (mapItemsFrom f i items).1 =
          mapItemsFrom (fun id ms => g id (f id ms)) i items ∧
        (mapItemsFrom f i items).2 =
          (mapItemsFrom (fun id ms => g id (f id ms)) i
            items).2
  | [] => by simp
  | value :: items => by
      have hValue := mapNodesFrom_mapNodesFrom h i value
      have hRest :=
        mapItemsFrom_mapItemsFrom h (mapNodesFrom f i value).2
          items
      rw [hValue.2] at hRest
      simp only [mapItemsFrom_cons, hValue.1, hValue.2,
        hRest.1, true_and]
      exact hRest.2

end

/- The same for all nodes of a value. -/
theorem mapNodes_mapNodes
    (h : LeavesNodes f g)
    (v : Json) :
    mapNodes g (mapNodes f v) =
      mapNodes (fun id ms => g id (f id ms)) v :=
  congrArg Prod.fst (mapNodesFrom_mapNodesFrom h 0 v).1

end Json

------------------------------------------------------------
-- Settled Nodes
------------------------------------------------------------

namespace Members

/-
  The members of a node as a tree writes them: `type` first,
  then the others in their order, without an annotation.
-/
def settled
    (ms : Members) : Members :=
  ms.filter (fun m => m.1 = "type") ++
    ms.filter (fun m => isField m.1)

variable {ms : Members}
variable {key : String}
variable {value : Json}

/- With distinct keys a key stands for one member. -/
theorem filter_key
    (hKeys : ms.keys.Nodup)
    (hValue : ms.get? key = some value) :
    ms.filter (fun m => m.1 = key) = [(key, value)] := by
  induction ms with
  | nil => cases hValue
  | cons m ms ih =>
      rcases m with ⟨k, v⟩
      rw [keys_cons, List.nodup_cons] at hKeys
      by_cases hEq : k = key
      · subst hEq
        have hRest : ms.filter (fun m => m.1 = k) = [] := by
          rw [List.filter_eq_nil_iff]
          intro m hMem hSame
          have hIn : m.1 ∈ keys ms := List.mem_map_of_mem hMem
          rw [of_decide_eq_true hSame] at hIn
          exact hKeys.1 hIn
        rw [get?, if_pos rfl, Option.some.injEq] at hValue
        simp [hRest, hValue]
      · rw [get?, if_neg hEq] at hValue
        simp [hEq, ih hKeys.2 hValue]

/- A settled node has the kind it had. -/
theorem get?_type_settled :
    ms.settled.get? "type" = ms.get? "type" := by
  have hFront :=
    @get?_filter ms "type" (fun key => key = "type") rfl
  have hBack :
      Members.get? (ms.filter (fun m => isField m.1)) "type" =
        none := by
    rw [get?_eq_none_iff, keys, List.mem_map]
    rintro ⟨⟨k, v⟩, hMem, rfl⟩
    exact absurd (List.mem_filter.1 hMem).2 (by simp [isField])
  rw [settled, get?_append, hFront, hBack, Option.or_none]

/- It has the fields it had. -/
theorem filter_settled :
    ms.settled.filter (fun m => isField m.1) =
      ms.filter (fun m => isField m.1) := by
  have hType :
      ∀ m ∈ ms.filter (fun m => m.1 = "type"),
        ¬ isField m.1 = true := by
    intro m hMem
    rw [of_decide_eq_true (List.mem_filter.1 hMem).2]
    decide
  rw [settled, List.filter_append,
    List.filter_eq_nil_iff.2 hType, List.nil_append,
    List.filter_filter]
  simp only [Bool.and_self]

/- Each of them holds what it held. -/
theorem get?_settled
    (h : isField key = true) :
    ms.settled.get? key = ms.get? key := by
  rw [← get?_filter isField h, filter_settled,
    get?_filter isField h]

/- A settled node holds the nodes it held. -/
theorem mapMembersFrom_settled
    (f : NodeId → Members → Members)
    (i : Nat) :
    Json.mapMembersFrom f i ms.settled =
      (settled (Json.mapMembersFrom f i ms).1,
        (Json.mapMembersFrom f i ms).2) := by
  have hType :
      ∀ key : String,
        decide (key = "type") = true → isClosed key = true := by
    intro key hEq
    rw [of_decide_eq_true hEq]
    rfl
  rw [settled, Json.mapMembersFrom_append,
    Json.mapMembersFrom_filter_closed hType,
    Json.mapMembersFrom_filter isClosed_of_not_isField,
    settled, Json.filter_mapMembersFrom_closed hType]

end Members

end TypeGraft
