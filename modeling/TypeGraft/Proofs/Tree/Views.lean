import TypeGraft.Tree.Basic

/-
  What can be seen of a table after a change.

  A change of one entry is seen at that entry alone.
  Annotating a node changes what it shows and no link, so two
  trees that are equal without their annotations are walked
  alike.

  Key definitions include:
    * `Tree.kind?`
    * `Tree.isIdentifier`

  Main declarations:
    * `Tree.get?_push`
    * `Tree.get?_modify`
    * `Tree.preorder_clearAnnotations`
    * `Tree.annotation?_annotate`
    * `Tree.clearAnnotations_annotate`
    * `Tree.eq_of_annotations`
-/

namespace TypeGraft

namespace Tree

/- The kind of a node. -/
def kind?
    (t : Tree)
    (id : NodeId) : Option NodeKind :=
  (t.get? id).map Node.kind

/- Is the node an identifier? -/
def isIdentifier
    (t : Tree)
    (id : NodeId) : Bool :=
  t.kind? id = some .identifier

------------------------------------------------------------
-- Entries
------------------------------------------------------------

/- The children of a node in the table. -/
theorem childrenOf_eq
    {t : Tree}
    {id : NodeId}
    {n : Node}
    (h : t.get? id = some n) :
    t.childrenOf id = n.children := by
  simp only [childrenOf, h]

/- The links of a node are in its entry. -/
theorem childrenOf_congr
    {t u : Tree}
    {id : NodeId}
    (h : u.get? id = t.get? id) :
    u.childrenOf id = t.childrenOf id := by
  simp only [childrenOf, h]

theorem parent?_congr
    {t u : Tree}
    {id : NodeId}
    (h : u.get? id = t.get? id) :
    u.parent? id = t.parent? id := by
  simp only [parent?, h]

theorem annotation?_congr
    {t u : Tree}
    {id : NodeId}
    (h : u.get? id = t.get? id) :
    u.annotation? id = t.annotation? id := by
  simp only [annotation?, h]

/- A node outside the table has no children. -/
theorem childrenOf_eq_nil
    {t : Tree}
    {id : NodeId}
    (h : t.size ≤ id.index) :
    t.childrenOf id = [] := by
  have hNone : t.get? id = none :=
    Array.getElem?_eq_none h
  simp [childrenOf, hNone]

/- Nor has it a parent or an annotation. -/
theorem parent?_eq_none
    {t : Tree}
    {id : NodeId}
    (h : t.size ≤ id.index) :
    t.parent? id = none := by
  have hNone : t.get? id = none :=
    Array.getElem?_eq_none h
  simp [parent?, hNone]

theorem annotation?_eq_none
    {t : Tree}
    {id : NodeId}
    (h : t.size ≤ id.index) :
    t.annotation? id = none := by
  have hNone : t.get? id = none :=
    Array.getElem?_eq_none h
  simp [annotation?, hNone]

/- The table with one more node. -/
theorem get?_push
    (nodes : Array Node)
    (n : Node)
    (id : NodeId) :
    (Tree.mk (nodes.push n)).get? id =
      if id.index = nodes.size then some n
      else (Tree.mk nodes).get? id := by
  simp only [get?, Array.getElem?_push]

/- The table with one node changed. -/
theorem get?_modify
    (nodes : Array Node)
    (f : Node → Node)
    (p id : NodeId) :
    (Tree.mk (nodes.modify p.index f)).get? id =
      if id = p then ((Tree.mk nodes).get? id).map f
      else (Tree.mk nodes).get? id := by
  have hIndex : p.index = id.index ↔ id = p := by
    cases p
    cases id
    simp [eq_comm]
  simp only [get?, Array.getElem?_modify, hIndex]

/- A node with a parent is in the table. -/
theorem lt_size_of_parent
    {t : Tree}
    {p c : NodeId}
    (h : t.parent? c = some p) :
    c.index < t.size := by
  rcases Option.bind_eq_some_iff.1 h with ⟨n, hNode, -⟩
  exact (Array.getElem?_eq_some_iff.1 hNode).1

/- A node with a child is in the table. -/
theorem lt_size_of_mem_childrenOf
    {t : Tree}
    {p c : NodeId}
    (h : c ∈ t.childrenOf p) :
    p.index < t.size := by
  simp only [childrenOf] at h
  split at h
  · rename_i n hNode
    exact (Array.getElem?_eq_some_iff.1 hNode).1
  · simp at h

------------------------------------------------------------
-- Without Annotations
------------------------------------------------------------

section Cleared

variable (t : Tree)
variable (id : NodeId)

@[simp]
theorem get?_clearAnnotations :
    t.clearAnnotations.get? id =
      (t.get? id).map
        (fun n => { n with annotation := none }) := by
  simp [clearAnnotations, get?]

@[simp]
theorem size_clearAnnotations :
    t.clearAnnotations.size = t.size := by
  simp [clearAnnotations, size]

@[simp]
theorem parent?_clearAnnotations :
    t.clearAnnotations.parent? id = t.parent? id := by
  simp only [parent?, get?_clearAnnotations]
  cases t.get? id <;> rfl

@[simp]
theorem childrenOf_clearAnnotations :
    t.clearAnnotations.childrenOf id = t.childrenOf id := by
  simp only [childrenOf, get?_clearAnnotations]
  cases t.get? id <;> rfl

@[simp]
theorem kind?_clearAnnotations :
    t.clearAnnotations.kind? id = t.kind? id := by
  simp only [kind?, get?_clearAnnotations]
  cases t.get? id <;> rfl

@[simp]
theorem annotation?_clearAnnotations :
    t.clearAnnotations.annotation? id = none := by
  simp only [annotation?, get?_clearAnnotations]
  cases t.get? id <;> rfl

@[simp]
theorem clearAnnotations_clearAnnotations :
    t.clearAnnotations.clearAnnotations =
      t.clearAnnotations := by
  simp [clearAnnotations, Function.comp_def]

@[simp]
theorem walk_clearAnnotations
    (k : Nat)
    (stack : List NodeId) :
    t.clearAnnotations.walk k stack = t.walk k stack := by
  induction k generalizing stack with
  | zero => rfl
  | succ k ih =>
      cases stack with
      | nil => rfl
      | cons id stack => simp [walk, ih]

@[simp]
theorem preorder_clearAnnotations :
    t.clearAnnotations.preorder = t.preorder := by
  have hEmpty :
      t.clearAnnotations.nodes.isEmpty = t.nodes.isEmpty := by
    simp [clearAnnotations, Array.isEmpty]
  simp [preorder, hEmpty]

end Cleared

------------------------------------------------------------
-- One More Annotation
------------------------------------------------------------

section Annotate

variable (t : Tree)
variable (id n : NodeId)
variable (a : Annotation)

theorem get?_annotate :
    (t.annotate id a).2.get? n =
      if n = id then
        (t.get? n).map
          (fun m => { m with annotation := some a })
      else t.get? n :=
  get?_modify t.nodes _ id n

/- A node shows what it was annotated with last. -/
theorem annotation?_annotate
    (h : id.index < t.size) :
    (t.annotate id a).2.annotation? n =
      if n = id then some a else t.annotation? n := by
  simp only [annotation?, get?_annotate]
  split
  · rename_i hEq
    subst hEq
    have hNode : t.get? n = some t.nodes[n.index] :=
      Array.getElem?_eq_getElem h
    simp [hNode]
  · rfl

/- Annotating changes only annotations. -/
@[simp]
theorem clearAnnotations_annotate :
    (t.annotate id a).2.clearAnnotations =
      t.clearAnnotations := by
  simp only [clearAnnotations, annotate, Tree.mk.injEq]
  apply Array.ext_getElem?
  intro i
  simp only [Array.getElem?_map, Array.getElem?_modify]
  split
  · cases t.nodes[i]? <;> rfl
  · rfl

end Annotate

------------------------------------------------------------
-- Trees that Differ in Annotations
------------------------------------------------------------

section Same

variable {t u : Tree}
variable {id : NodeId}

theorem parent?_eq_of_clear
    (h : u.clearAnnotations = t.clearAnnotations) :
    u.parent? id = t.parent? id := by
  rw [← parent?_clearAnnotations u, h,
    parent?_clearAnnotations]

theorem size_eq_of_clear
    (h : u.clearAnnotations = t.clearAnnotations) :
    u.size = t.size := by
  rw [← size_clearAnnotations u, h, size_clearAnnotations]

/- A tree is its links and its annotations. -/
theorem eq_of_annotations
    (hClear : u.clearAnnotations = t.clearAnnotations)
    (hShows : ∀ id, u.annotation? id = t.annotation? id) :
    u = t := by
  have hEntry : ∀ id, u.get? id = t.get? id := by
    intro id
    have hBare :=
      congrArg (fun v : Tree => v.get? id) hClear
    have hShow := hShows id
    simp only [get?_clearAnnotations] at hBare
    simp only [annotation?] at hShow
    cases hFirst : u.get? id with
    | none =>
        cases hSecond : t.get? id with
        | none => rfl
        | some n => simp [hFirst, hSecond] at hBare
    | some m =>
        cases hSecond : t.get? id with
        | none => simp [hFirst, hSecond] at hBare
        | some n =>
            simp only [hFirst, hSecond, Option.map_some,
              Option.bind_some, Option.some.injEq]
              at hBare hShow
            cases m
            cases n
            simp_all
  cases u
  cases t
  exact congrArg Tree.mk
    (Array.ext_getElem? (fun i => hEntry ⟨i⟩))

end Same

end Tree

end TypeGraft
