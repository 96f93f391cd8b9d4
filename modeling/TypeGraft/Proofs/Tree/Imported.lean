import TypeGraft.Proofs.Tree.Order
import TypeGraft.Tree.Import

/-
  Imported trees are linked.

  An import puts a node at the end of the table and all that
  is below it behind it, so what it adds is a stretch of the
  table whose nodes name only one another.

  Key definitions include:
    * `Tree.Grows`
    * `ImportCases`

  Main declarations:
    * `readHead_eq_ok_iff`
    * `ImportCases.of_importNode`
    * `grows_importNode`
    * `Tree.linked_of_ofJson`
    * `Tree.clearAnnotations_of_ofJson`
-/

namespace TypeGraft

namespace Tree

------------------------------------------------------------
-- Giving a Node its Fields
------------------------------------------------------------

section Fields

variable {nodes : Array Node}
variable {fields : List (String × Field)}
variable {p c : NodeId}

/- Fields do not change parents. -/
theorem parent?_setFields :
    (Tree.mk (setFields nodes p fields)).parent? c =
      (Tree.mk nodes).parent? c := by
  simp only [parent?, setFields, get?_modify]
  split
  · cases (Tree.mk nodes).get? c <;> rfl
  · rfl

/- Nor do they change annotations. -/
theorem annotation?_setFields :
    (Tree.mk (setFields nodes p fields)).annotation? c =
      (Tree.mk nodes).annotation? c := by
  simp only [annotation?, setFields, get?_modify]
  split
  · cases (Tree.mk nodes).get? c <;> rfl
  · rfl

/- The children of a node are those in its fields. -/
theorem childrenOf_setFields_self
    (h : p.index < nodes.size) :
    (Tree.mk (setFields nodes p fields)).childrenOf p =
      fields.flatMap (fun f => f.2.children) := by
  have hGet : (Tree.mk nodes).get? p = some nodes[p.index] :=
    Array.getElem?_eq_getElem h
  simp [childrenOf, setFields, get?_modify, hGet,
    Node.children]

/- Other nodes keep their children. -/
theorem childrenOf_setFields_of_ne
    (h : c ≠ p) :
    (Tree.mk (setFields nodes p fields)).childrenOf c =
      (Tree.mk nodes).childrenOf c := by
  apply childrenOf_congr
  rw [setFields, get?_modify, if_neg h]

end Fields

------------------------------------------------------------
-- Imported Trees
------------------------------------------------------------

/-
  A table `u` is `t` with more nodes behind it, and these
  hang together: those listed in `tops` belong to an owner
  outside, and every other one to a new node before it.  None
  of them is annotated.
-/
structure Grows
    (owner : Option NodeId)
    (t u : Tree)
    (tops : List NodeId) : Prop where
  size_le : t.size ≤ u.size
  old :
    ∀ {id : NodeId}, id.index < t.size →
      u.get? id = t.get? id
  top :
    ∀ {c : NodeId}, c ∈ tops →
      t.size ≤ c.index ∧ c.index < u.size ∧
        u.parent? c = owner
  sorted :
    tops.Pairwise (fun c d => c.index < d.index)
  child :
    ∀ {p c : NodeId}, t.size ≤ p.index →
      c ∈ u.childrenOf p → u.parent? c = some p
  nodup :
    ∀ {p : NodeId}, t.size ≤ p.index →
      (u.childrenOf p).Nodup
  parent :
    ∀ {p c : NodeId}, t.size ≤ c.index →
      u.parent? c = some p →
        owner = some p ∨ (t.size ≤ p.index ∧ p.index < c.index)
  bare :
    ∀ {id : NodeId}, t.size ≤ id.index →
      u.annotation? id = none

namespace Grows

variable {owner : Option NodeId}
variable {t u v : Tree}
variable {xs ys : List NodeId}

/- Nothing is added. -/
theorem refl
    (owner : Option NodeId)
    (t : Tree) :
    Grows owner t t [] where
  size_le := Nat.le_refl _
  old _ := rfl
  top h := by simp at h
  sorted := .nil
  child hNew h := by simp [childrenOf_eq_nil hNew] at h
  nodup hNew := by simp [childrenOf_eq_nil hNew]
  parent hNew h := by simp [parent?_eq_none hNew] at h
  bare hNew := annotation?_eq_none hNew

/- Something is added, and then something else. -/
theorem trans
    (hFirst : Grows owner t u xs)
    (hSecond : Grows owner u v ys) :
    Grows owner t v (xs ++ ys) where
  size_le := Nat.le_trans hFirst.size_le hSecond.size_le
  old hOld :=
    (hSecond.old
      (Nat.lt_of_lt_of_le hOld hFirst.size_le)).trans
      (hFirst.old hOld)
  top := by
    intro c hMem
    have hLe := hFirst.size_le
    have hLeSecond := hSecond.size_le
    rcases List.mem_append.1 hMem with hIn | hIn
    · rcases hFirst.top hIn with ⟨hNew, hSize, hParent⟩
      rw [parent?_congr (hSecond.old hSize)]
      exact ⟨hNew, by omega, hParent⟩
    · rcases hSecond.top hIn with ⟨hNew, hSize, hParent⟩
      exact ⟨by omega, hSize, hParent⟩
  sorted := by
    refine List.pairwise_append.2
      ⟨hFirst.sorted, hSecond.sorted, ?_⟩
    intro c hIn d hLater
    have hBefore := (hFirst.top hIn).2.1
    have hAfter := (hSecond.top hLater).1
    omega
  child := by
    intro p c hNew hChild
    by_cases hIn : p.index < u.size
    · rw [childrenOf_congr (hSecond.old hIn)] at hChild
      have hParent := hFirst.child hNew hChild
      rw [parent?_congr
        (hSecond.old (lt_size_of_parent hParent))]
      exact hParent
    · exact hSecond.child (by omega) hChild
  nodup := by
    intro p hNew
    by_cases hIn : p.index < u.size
    · rw [childrenOf_congr (hSecond.old hIn)]
      exact hFirst.nodup hNew
    · exact hSecond.nodup (by omega)
  parent := by
    intro p c hNew hParent
    have hLe := hFirst.size_le
    by_cases hIn : c.index < u.size
    · rw [parent?_congr (hSecond.old hIn)] at hParent
      exact hFirst.parent hNew hParent
    · rcases hSecond.parent (by omega) hParent with
        hOwner | hBetween
      · exact .inl hOwner
      · exact .inr ⟨by omega, hBetween.2⟩
  bare := by
    intro id hNew
    by_cases hIn : id.index < u.size
    · rw [annotation?_congr (hSecond.old hIn)]
      exact hFirst.bare hNew
    · exact hSecond.bare (by omega)

/-
  A node is added without fields, then what belongs to it,
  and last it is given its fields.
-/
theorem node
    {nodes grown : Array Node}
    {head : Node}
    {fields : List (String × Field)}
    (hBare : head.annotation = none)
    (hInner :
      Grows (some ⟨nodes.size⟩) ⟨nodes.push head⟩ ⟨grown⟩
        (fields.flatMap (fun f => f.2.children))) :
    Grows head.parent ⟨nodes⟩
      ⟨setFields grown ⟨nodes.size⟩ fields⟩
      [⟨nodes.size⟩] := by
  have hPush :
      (Tree.mk (nodes.push head)).size = nodes.size + 1 :=
    Array.size_push head
  have hGrown : nodes.size + 1 ≤ grown.size :=
    hPush ▸ hInner.size_le
  have hSize :
      (Tree.mk (setFields grown ⟨nodes.size⟩ fields)).size =
        grown.size :=
    Array.size_modify
  have hParent :
      (Tree.mk grown).parent? ⟨nodes.size⟩ = head.parent := by
    rw [parent?, hInner.old (by simp [hPush]), get?_push,
      if_pos rfl, Option.bind_some]
  have hOwn :=
    @childrenOf_setFields_self grown fields ⟨nodes.size⟩
      hGrown
  have hLater :
      ∀ c : NodeId, c ≠ ⟨nodes.size⟩ →
        nodes.size ≤ c.index → nodes.size + 1 ≤ c.index := by
    intro c hNe hNew
    have hIndex : c.index ≠ nodes.size :=
      fun hEq => hNe (by cases c; simp_all)
    omega
  constructor
  case size_le =>
    rw [hSize]
    exact Nat.le_of_succ_le hGrown
  case old =>
    intro c hOld
    have hIndex : c.index < nodes.size := hOld
    have hNe : c ≠ ⟨nodes.size⟩ := by
      rintro rfl
      exact Nat.lt_irrefl _ hIndex
    rw [setFields, get?_modify, if_neg hNe,
      hInner.old (by omega), get?_push,
      if_neg (Nat.ne_of_lt hIndex)]
  case top =>
    intro c hMem
    cases List.mem_singleton.1 hMem
    rw [hSize, parent?_setFields]
    exact ⟨Nat.le_refl _, hGrown, hParent⟩
  case sorted => exact List.pairwise_singleton _ _
  case child =>
    intro q c hNew hChild
    rw [parent?_setFields]
    by_cases hEq : q = ⟨nodes.size⟩
    · subst hEq
      rw [hOwn] at hChild
      exact (hInner.top hChild).2.2
    · rw [childrenOf_setFields_of_ne hEq] at hChild
      exact hInner.child (hPush ▸ hLater q hEq hNew) hChild
  case nodup =>
    intro q hNew
    by_cases hEq : q = ⟨nodes.size⟩
    · subst hEq
      rw [hOwn]
      refine hInner.sorted.imp ?_
      rintro c d hLt rfl
      exact Nat.lt_irrefl _ hLt
    · rw [childrenOf_setFields_of_ne hEq]
      exact hInner.nodup (hPush ▸ hLater q hEq hNew)
  case parent =>
    intro q c hNew hLink
    rw [parent?_setFields] at hLink
    by_cases hEq : c = ⟨nodes.size⟩
    · subst hEq
      exact .inl (hParent.symm.trans hLink)
    · have hBehind := hLater c hEq hNew
      rcases hInner.parent (hPush ▸ hBehind) hLink with
        hOwner | ⟨hAfter, hBefore⟩
      · cases hOwner
        exact .inr ⟨Nat.le_refl _, hBehind⟩
      · rw [hPush] at hAfter
        exact .inr ⟨Nat.le_of_succ_le hAfter, hBefore⟩
  case bare =>
    intro c hNew
    rw [annotation?_setFields]
    by_cases hEq : c = ⟨nodes.size⟩
    · subst hEq
      rw [annotation?, hInner.old (by simp [hPush]), get?_push,
        if_pos rfl, Option.bind_some, hBare]
    · exact hInner.bare (hPush ▸ hLater c hEq hNew)

end Grows

end Tree

/- What a successful chain of two steps went through. -/
theorem bind_eq_ok_iff
    {ε α β : Type}
    {x : Except ε α}
    {f : α → Except ε β}
    {b : β} :
    (x >>= f) = .ok b ↔ ∃ a, x = .ok a ∧ f a = .ok b := by
  cases x <;> simp [bind, Except.bind]

/- What the bare node of an object is read from. -/
theorem readHead_eq_ok_iff
    {parent : Option NodeId}
    {path : JsonPath}
    {members : Members}
    {head : Node} :
    readHead parent path members = .ok head ↔
      ∃ kind loc range,
        members.get? "type" = some (.str kind) ∧
        members.get? "loc" = some loc ∧
        readRange path loc = .ok range ∧
        head =
          { kind := .ofName kind, range := range,
            parent := parent } := by
  constructor
  · intro h
    simp only [readHead] at h
    split at h
    · rename_i kind hKind
      split at h
      · cases h
      · rename_i loc hLoc
        rcases bind_eq_ok_iff.1 h with ⟨range, hRange, hHead⟩
        cases hHead
        exact ⟨kind, loc, range, hKind, hLoc, hRange, rfl⟩
    · cases h
  · rintro ⟨kind, loc, range, hKind, hLoc, hRange, rfl⟩
    simp only [readHead, hKind, hLoc]
    exact bind_eq_ok_iff.2 ⟨range, hRange, rfl⟩

/- The bare node of an object has the parent it was read for. -/
theorem parent_of_readHead
    {parent : Option NodeId}
    {path : JsonPath}
    {members : Members}
    {head : Node}
    (h : readHead parent path members = .ok head) :
    head.parent = parent := by
  rcases readHead_eq_ok_iff.1 h with ⟨_, _, _, -, -, -, rfl⟩
  rfl

/- It has no annotation. -/
theorem annotation_of_readHead
    {parent : Option NodeId}
    {path : JsonPath}
    {members : Members}
    {head : Node}
    (h : readHead parent path members = .ok head) :
    head.annotation = none := by
  rcases readHead_eq_ok_iff.1 h with ⟨_, _, _, -, -, -, rfl⟩
  rfl

/-
  What every import of nodes does to a table: it holds if
  nothing is imported, of one import after another, and of a
  node around the import of what belongs to it.
-/
structure ImportCases
    (P : Option NodeId → Tree → Tree → List NodeId → Prop) :
    Prop where
  refl :
    ∀ (owner : Option NodeId) (t : Tree), P owner t t []
  trans :
    ∀ {owner : Option NodeId} {t u v : Tree}
      {xs ys : List NodeId},
      P owner t u xs → P owner u v ys → P owner t v (xs ++ ys)
  node :
    ∀ {nodes grown : Array Node} {head : Node}
      {fields : List (String × Field)},
      head.annotation = none →
      P (some ⟨nodes.size⟩) ⟨nodes.push head⟩ ⟨grown⟩
        (fields.flatMap (fun f => f.2.children)) →
      P head.parent ⟨nodes⟩
        ⟨setFields grown ⟨nodes.size⟩ fields⟩ [⟨nodes.size⟩]

namespace ImportCases

variable
  {P : Option NodeId → Tree → Tree → List NodeId → Prop}

mutual

/- Importing a node. -/
theorem of_importNode
    (hCases : ImportCases P)
    {parent : Option NodeId}
    {path : JsonPath}
    {nodes : Array Node}
    {r : NodeId × Array Node} :
    ∀ (v : Json),
      importNode parent path nodes v = .ok r →
        P parent ⟨nodes⟩ ⟨r.2⟩ [r.1]
  | .obj members, h => by
      rw [importNode] at h
      rcases bind_eq_ok_iff.1 h with ⟨head, hHead, hRest⟩
      rcases bind_eq_ok_iff.1 hRest with
        ⟨⟨fields, grown⟩, hFields, hResult⟩
      cases hResult
      rw [← parent_of_readHead hHead]
      exact hCases.node (annotation_of_readHead hHead)
        (of_importFields hCases members hFields)
  | .null, h => by simp [importNode] at h
  | .bool _, h => by simp [importNode] at h
  | .num _, h => by simp [importNode] at h
  | .str _, h => by simp [importNode] at h
  | .arr _, h => by simp [importNode] at h

/- Importing what belongs to the members of an object. -/
theorem of_importFields
    (hCases : ImportCases P)
    {id : NodeId}
    {path : JsonPath}
    {nodes : Array Node}
    {r : List (String × Field) × Array Node} :
    ∀ (members : List (String × Json)),
      importFields id path nodes members = .ok r →
        P (some id) ⟨nodes⟩ ⟨r.2⟩
          (r.1.flatMap (fun f => f.2.children))
  | [], h => by
      rw [importFields] at h
      cases h
      exact hCases.refl _ _
  | (key, value) :: members, h => by
      rw [importFields] at h
      split at h
      · exact of_importFields hCases members h
      · rcases bind_eq_ok_iff.1 h with
          ⟨⟨field, between⟩, hField, hRest⟩
        rcases bind_eq_ok_iff.1 hRest with
          ⟨⟨fields, grown⟩, hFields, hResult⟩
        cases hResult
        exact hCases.trans
          (of_importField hCases value hField)
          (of_importFields hCases members hFields)

/- Importing the children in one field. -/
theorem of_importField
    (hCases : ImportCases P)
    {id : NodeId}
    {path : JsonPath}
    {isOpaque : Bool}
    {nodes : Array Node}
    {r : Field × Array Node} :
    ∀ (v : Json),
      importField id path isOpaque nodes v = .ok r →
        P (some id) ⟨nodes⟩ ⟨r.2⟩ r.1.children
  | .obj members, h => by
      rw [importField] at h
      split at h
      · rcases bind_eq_ok_iff.1 h with ⟨head, hHead, hRest⟩
        rcases bind_eq_ok_iff.1 hRest with
          ⟨⟨fields, grown⟩, hFields, hResult⟩
        cases hResult
        rw [← parent_of_readHead hHead]
        exact hCases.node (annotation_of_readHead hHead)
          (of_importFields hCases members hFields)
      · cases h
        exact hCases.refl _ _
  | .arr items, h => by
      rw [importField] at h
      split at h
      · rcases bind_eq_ok_iff.1 h with
          ⟨⟨ids, grown⟩, hItems, hResult⟩
        cases hResult
        exact of_importItems hCases items hItems
      · cases h
        exact hCases.refl _ _
  | .null, h => by cases h; exact hCases.refl _ _
  | .bool _, h => by cases h; exact hCases.refl _ _
  | .num _, h => by cases h; exact hCases.refl _ _
  | .str _, h => by cases h; exact hCases.refl _ _

/- Importing the nodes among the items of a list. -/
theorem of_importItems
    (hCases : ImportCases P)
    {owner : NodeId}
    {path : JsonPath}
    {i : Nat}
    {nodes : Array Node}
    {r : List (Option NodeId) × Array Node} :
    ∀ (items : List Json),
      importItems owner path i nodes items = .ok r →
        P (some owner) ⟨nodes⟩ ⟨r.2⟩ (r.1.filterMap id)
  | [], h => by
      rw [importItems] at h
      cases h
      exact hCases.refl _ _
  | item :: items, h => by
      cases item with
      | null =>
          rw [importItems] at h
          rcases bind_eq_ok_iff.1 h with
            ⟨⟨ids, grown⟩, hItems, hResult⟩
          cases hResult
          simpa using of_importItems hCases items hItems
      | _ =>
          rw [importItems] at h
          · rcases bind_eq_ok_iff.1 h with
              ⟨⟨child, between⟩, hItem, hRest⟩
            rcases bind_eq_ok_iff.1 hRest with
              ⟨⟨ids, grown⟩, hItems, hResult⟩
            cases hResult
            exact hCases.trans
              (of_importNode hCases _ hItem)
              (of_importItems hCases items hItems)
          · simp

end

end ImportCases

/- An import puts its node at the end of the table. -/
theorem fst_of_importNode
    {parent : Option NodeId}
    {path : JsonPath}
    {nodes : Array Node}
    {v : Json}
    {r : NodeId × Array Node}
    (h : importNode parent path nodes v = .ok r) :
    r.1 = ⟨nodes.size⟩ := by
  cases v with
  | obj members =>
      rw [importNode] at h
      rcases bind_eq_ok_iff.1 h with ⟨head, -, hRest⟩
      rcases bind_eq_ok_iff.1 hRest with ⟨_, -, hResult⟩
      cases hResult
      rfl
  | _ => simp [importNode] at h

/- Importing adds nodes that hang together. -/
theorem Tree.Grows.importCases : ImportCases Tree.Grows where
  refl := .refl
  trans := .trans
  node := .node

section Growth

variable {owner : NodeId}
variable {path : JsonPath}
variable {nodes : Array Node}

/- Importing a node adds it and all that is below it. -/
theorem grows_importNode
    {parent : Option NodeId}
    {r : NodeId × Array Node}
    (v : Json)
    (h : importNode parent path nodes v = .ok r) :
    Tree.Grows parent ⟨nodes⟩ ⟨r.2⟩ [r.1] :=
  Tree.Grows.importCases.of_importNode v h

/- The members of an object add what belongs to its node. -/
theorem grows_importFields
    {r : List (String × Field) × Array Node}
    (members : List (String × Json))
    (h : importFields owner path nodes members = .ok r) :
    Tree.Grows (some owner) ⟨nodes⟩ ⟨r.2⟩
      (r.1.flatMap (fun f => f.2.children)) :=
  Tree.Grows.importCases.of_importFields members h

/- One member adds the children in its field. -/
theorem grows_importField
    {isOpaque : Bool}
    {r : Field × Array Node}
    (v : Json)
    (h : importField owner path isOpaque nodes v = .ok r) :
    Tree.Grows (some owner) ⟨nodes⟩ ⟨r.2⟩ r.1.children :=
  Tree.Grows.importCases.of_importField v h

/- The items of a list add the children among them. -/
theorem grows_importItems
    {i : Nat}
    {r : List (Option NodeId) × Array Node}
    (items : List Json)
    (h : importItems owner path i nodes items = .ok r) :
    Tree.Grows (some owner) ⟨nodes⟩ ⟨r.2⟩
      (r.1.filterMap id) :=
  Tree.Grows.importCases.of_importItems items h

end Growth

namespace Tree

/- Imported trees are linked. -/
theorem linked_of_ofJson
    {v : Json}
    {t : Tree}
    (h : ofJson v = .ok t) :
    t.Linked := by
  rcases bind_eq_ok_iff.1 h with ⟨⟨id, nodes⟩, hNode, hTree⟩
  cases hTree
  have hGrows := grows_importNode v hNode
  constructor
  case parent_of_child =>
    intro p c hChild
    exact hGrows.child (Nat.zero_le _) hChild
  case nodup_children =>
    intro p
    exact hGrows.nodup (Nat.zero_le _)
  case parent_le =>
    intro p c hParent
    rcases hGrows.parent (Nat.zero_le _) hParent with
      hOwner | ⟨-, hBefore⟩
    · cases hOwner
    · exact Nat.le_of_lt hBefore
  case parent_root =>
    rw [Option.eq_none_iff_forall_not_mem]
    intro p hParent
    rcases hGrows.parent (Nat.zero_le _) hParent with
      hOwner | ⟨-, hBefore⟩
    · cases hOwner
    · exact Nat.not_lt_zero _ hBefore

/- They have a root. -/
theorem size_pos_of_ofJson
    {v : Json}
    {t : Tree}
    (h : ofJson v = .ok t) :
    0 < t.size := by
  rcases bind_eq_ok_iff.1 h with ⟨⟨id, nodes⟩, hNode, hTree⟩
  cases hTree
  have hTop :=
    (grows_importNode v hNode).top (List.mem_singleton.2 rfl)
  exact Nat.lt_of_le_of_lt (Nat.zero_le _) hTop.2.1

/- They have no annotations. -/
theorem clearAnnotations_of_ofJson
    {v : Json}
    {t : Tree}
    (h : ofJson v = .ok t) :
    t.clearAnnotations = t := by
  rcases bind_eq_ok_iff.1 h with ⟨⟨id, nodes⟩, hNode, hTree⟩
  cases hTree
  apply eq_of_annotations (clearAnnotations_clearAnnotations _)
  intro n
  rw [annotation?_clearAnnotations]
  exact ((grows_importNode v hNode).bare (Nat.zero_le _)).symm

end Tree

end TypeGraft
