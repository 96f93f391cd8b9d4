import Mathlib.Data.List.Nodup
import Mathlib.Data.List.Perm.Subperm
import TypeGraft.Proofs.Tree.Views

/-
  The order in which a tree is walked.

  In a linked table the children of a node name it as their
  parent, no node is listed twice, and no parent comes after
  its child.  The walk from the root then lists a node, all
  that is below its first child, all that is below its second
  child, and so on; it ends by itself before it has taken as
  many steps as the table has nodes.

  Key definitions include:
    * `Tree.Linked`
    * `Tree.subtree`

  Main declarations:
    * `Tree.Linked.preorder_eq`
    * `Tree.Linked.nodup_preorder`
    * `Tree.Linked.parents_first_preorder`
    * `Tree.Linked.filter_preorder`
-/

namespace TypeGraft

namespace Tree

------------------------------------------------------------
-- Linked Tables
------------------------------------------------------------

/-
  Children and parents agree.  A node may be its own parent,
  as builders can make one, but then it hangs on no other.
-/
structure Linked
    (t : Tree) : Prop where
  parent_of_child :
    ∀ {p c : NodeId},
      c ∈ t.childrenOf p → t.parent? c = some p
  nodup_children :
    ∀ p : NodeId, (t.childrenOf p).Nodup
  parent_le :
    ∀ {p c : NodeId},
      t.parent? c = some p → p.index ≤ c.index
  parent_root : t.parent? root = none

/- A node and all that is below it, parents first. -/
def subtree
    (t : Tree)
    (id : NodeId) : List NodeId :=
  id :: (t.childrenOf id).attach.flatMap (fun c =>
    if id.index < c.1.index then t.subtree c.1 else [])
termination_by t.size - id.index
decreasing_by
  have hSize := lt_size_of_mem_childrenOf c.2
  omega

namespace Linked

variable {t : Tree}
variable {p c d x n : NodeId}

/- A child of a node that is not its own parent. -/
theorem child_ne
    (hLinked : t.Linked)
    (hOwn : t.parent? p ≠ some p)
    (h : c ∈ t.childrenOf p) :
    c ≠ p := by
  intro hEq
  exact hOwn (hLinked.parent_of_child (hEq ▸ h))

/- Children come after their parents. -/
theorem lt_of_child
    (hLinked : t.Linked)
    (hOwn : t.parent? p ≠ some p)
    (h : c ∈ t.childrenOf p) :
    p.index < c.index := by
  have hLe := hLinked.parent_le (hLinked.parent_of_child h)
  have hNe := hLinked.child_ne hOwn h
  have hIndex : c.index ≠ p.index :=
    fun hEq => hNe (by cases c; cases p; simp_all)
  omega

/- Nor is such a child its own parent. -/
theorem child_own
    (hLinked : t.Linked)
    (hOwn : t.parent? p ≠ some p)
    (h : c ∈ t.childrenOf p) :
    t.parent? c ≠ some c := by
  rw [hLinked.parent_of_child h]
  intro hEq
  exact hLinked.child_ne hOwn h (Option.some.inj hEq).symm

/- What holds of a node if it holds of its children. -/
theorem induct
    {P : NodeId → Prop}
    (hLinked : t.Linked)
    (step :
      ∀ id, t.parent? id ≠ some id →
        (∀ c ∈ t.childrenOf id, P c) → P id)
    (id : NodeId)
    (hOwn : t.parent? id ≠ some id) :
    P id := by
  apply step id hOwn
  intro c hChild
  have hSize := lt_size_of_mem_childrenOf hChild
  have hLt := hLinked.lt_of_child hOwn hChild
  exact hLinked.induct step c (hLinked.child_own hOwn hChild)
termination_by t.size - id.index

/- A subtree, one level opened. -/
theorem subtree_eq
    (hLinked : t.Linked)
    (hOwn : t.parent? p ≠ some p) :
    t.subtree p =
      p :: (t.childrenOf p).flatMap t.subtree := by
  have hChildren :
      ∀ c : {c // c ∈ t.childrenOf p},
        (if p.index < c.1.index then t.subtree c.1 else []) =
          t.subtree c.1 := by
    intro c
    rw [if_pos (hLinked.lt_of_child hOwn c.2)]
  rw [subtree]
  simp only [hChildren]
  rw [List.flatMap_subtype (fun _ _ => rfl),
    List.unattach_attach]

/- What is in a subtree. -/
theorem mem_subtree_iff
    (hLinked : t.Linked)
    (hOwn : t.parent? p ≠ some p) :
    x ∈ t.subtree p ↔
      x = p ∨ ∃ c ∈ t.childrenOf p, x ∈ t.subtree c := by
  simp [hLinked.subtree_eq hOwn]

/- Nothing in a subtree comes before its top. -/
theorem le_of_mem_subtree
    (hLinked : t.Linked)
    (hOwn : t.parent? p ≠ some p)
    (h : x ∈ t.subtree p) :
    p.index ≤ x.index := by
  revert h
  refine hLinked.induct
    (P := fun p => x ∈ t.subtree p → p.index ≤ x.index)
    ?_ p hOwn
  intro p hOwn ih h
  rcases (hLinked.mem_subtree_iff hOwn).1 h with
    rfl | ⟨c, hChild, hBelow⟩
  · exact Nat.le_refl _
  · have hLt := hLinked.lt_of_child hOwn hChild
    have hLe := ih c hChild hBelow
    omega

/- Below the top there are only later nodes. -/
theorem lt_of_mem_below
    (hLinked : t.Linked)
    (hOwn : t.parent? p ≠ some p)
    (hChild : c ∈ t.childrenOf p)
    (h : x ∈ t.subtree c) :
    p.index < x.index := by
  have hLt := hLinked.lt_of_child hOwn hChild
  have hLe :=
    hLinked.le_of_mem_subtree
      (hLinked.child_own hOwn hChild) h
  omega

/- The parent of anything but the top is in the subtree. -/
theorem parent_mem_subtree
    (hLinked : t.Linked)
    (hOwn : t.parent? p ≠ some p)
    (h : x ∈ t.subtree p)
    (hNe : x ≠ p) :
    ∃ q ∈ t.subtree p, t.parent? x = some q := by
  revert h hNe
  refine hLinked.induct
    (P := fun p => x ∈ t.subtree p → x ≠ p →
      ∃ q ∈ t.subtree p, t.parent? x = some q) ?_ p hOwn
  intro p hOwn ih h hNe
  rcases (hLinked.mem_subtree_iff hOwn).1 h with
    hEq | ⟨c, hChild, hBelow⟩
  · exact absurd hEq hNe
  · by_cases hTop : x = c
    · subst hTop
      exact ⟨p, (hLinked.mem_subtree_iff hOwn).2 (.inl rfl),
        hLinked.parent_of_child hChild⟩
    · rcases ih c hChild hBelow hTop with ⟨q, hMem, hParent⟩
      exact ⟨q, (hLinked.mem_subtree_iff hOwn).2
        (.inr ⟨c, hChild, hMem⟩), hParent⟩

/- Of two subtrees with a common node one holds the other. -/
theorem nested_of_mem
    (hLinked : t.Linked)
    (hOwn : t.parent? c ≠ some c)
    (hOther : t.parent? d ≠ some d)
    (hFirst : x ∈ t.subtree c)
    (hSecond : x ∈ t.subtree d) :
    c ∈ t.subtree d ∨ d ∈ t.subtree c := by
  revert hFirst
  refine hLinked.induct
    (P := fun c => x ∈ t.subtree c →
      c ∈ t.subtree d ∨ d ∈ t.subtree c) ?_ c hOwn
  intro c hOwn ih hFirst
  rcases (hLinked.mem_subtree_iff hOwn).1 hFirst with
    rfl | ⟨b, hChild, hBelow⟩
  · exact .inl hSecond
  have hHold :
      d ∈ t.subtree b → d ∈ t.subtree c :=
    fun h => (hLinked.mem_subtree_iff hOwn).2
      (.inr ⟨b, hChild, h⟩)
  rcases ih b hChild hBelow with hIn | hHolds
  · by_cases hTop : b = d
    · subst hTop
      exact .inr (hHold
        ((hLinked.mem_subtree_iff hOther).2 (.inl rfl)))
    · rcases hLinked.parent_mem_subtree hOther hIn hTop with
        ⟨q, hMem, hParent⟩
      rw [hLinked.parent_of_child hChild] at hParent
      cases hParent
      exact .inl hMem
  · exact .inr (hHold hHolds)

/- No child of a node is below another child of it. -/
theorem child_not_mem_sibling
    (hLinked : t.Linked)
    (hOwn : t.parent? p ≠ some p)
    (hFirst : c ∈ t.childrenOf p)
    (hSecond : d ∈ t.childrenOf p)
    (hNe : c ≠ d) :
    c ∉ t.subtree d := by
  intro h
  rcases hLinked.parent_mem_subtree
    (hLinked.child_own hOwn hSecond) h hNe with
    ⟨q, hMem, hParent⟩
  rw [hLinked.parent_of_child hFirst] at hParent
  cases hParent
  exact Nat.lt_irrefl _
    (hLinked.lt_of_mem_below hOwn hSecond hMem)

/- Nothing is below two children of one node. -/
theorem not_mem_sibling
    (hLinked : t.Linked)
    (hOwn : t.parent? p ≠ some p)
    (hFirst : c ∈ t.childrenOf p)
    (hSecond : d ∈ t.childrenOf p)
    (hNe : c ≠ d)
    (h : x ∈ t.subtree c) :
    x ∉ t.subtree d := by
  intro hOther
  rcases hLinked.nested_of_mem
    (hLinked.child_own hOwn hFirst)
    (hLinked.child_own hOwn hSecond) h hOther with hIn | hIn
  · exact hLinked.child_not_mem_sibling hOwn hFirst hSecond
      hNe hIn
  · exact hLinked.child_not_mem_sibling hOwn hSecond hFirst
      (Ne.symm hNe) hIn

/- Nothing in a subtree is its own parent. -/
theorem own_of_mem_subtree
    (hLinked : t.Linked)
    (hOwn : t.parent? p ≠ some p)
    (h : x ∈ t.subtree p) :
    t.parent? x ≠ some x := by
  revert h
  refine hLinked.induct
    (P := fun p => x ∈ t.subtree p → t.parent? x ≠ some x)
    ?_ p hOwn
  intro p hOwn ih h
  rcases (hLinked.mem_subtree_iff hOwn).1 h with
    rfl | ⟨c, hChild, hBelow⟩
  · exact hOwn
  · exact ih c hChild hBelow

------------------------------------------------------------
-- The Order of a Subtree
------------------------------------------------------------

/-
  A relation between earlier and later nodes of a subtree
  holds if it holds within the subtree of each child, between
  the subtrees of two children, and from the top to the rest.
-/
theorem pairwise_below
    {R : NodeId → NodeId → Prop}
    (hLinked : t.Linked)
    (hOwn : t.parent? p ≠ some p)
    (hTop :
      ∀ c ∈ t.childrenOf p, ∀ x ∈ t.subtree c, R p x)
    (hWithin :
      ∀ c ∈ t.childrenOf p, (t.subtree c).Pairwise R)
    (hAcross :
      ∀ c ∈ t.childrenOf p, ∀ d ∈ t.childrenOf p, c ≠ d →
        ∀ x ∈ t.subtree c, ∀ y ∈ t.subtree d, R x y) :
    (t.subtree p).Pairwise R := by
  rw [hLinked.subtree_eq hOwn, List.pairwise_cons,
    List.pairwise_flatMap]
  refine ⟨?_, hWithin, ?_⟩
  · intro x hMem
    rcases List.mem_flatMap.1 hMem with ⟨c, hChild, hBelow⟩
    exact hTop c hChild x hBelow
  · refine (hLinked.nodup_children p).imp_of_mem ?_
    intro c d hFirst hSecond hNe
    exact hAcross c hFirst d hSecond hNe

/- No node is listed twice. -/
theorem nodup_subtree
    (hLinked : t.Linked)
    (hOwn : t.parent? p ≠ some p) :
    (t.subtree p).Nodup := by
  refine hLinked.induct
    (P := fun p => (t.subtree p).Nodup) ?_ p hOwn
  intro p hOwn ih
  apply hLinked.pairwise_below hOwn
  · intro c hChild x hBelow hEq
    subst hEq
    exact Nat.lt_irrefl _
      (hLinked.lt_of_mem_below hOwn hChild hBelow)
  · exact ih
  · intro c hFirst d hSecond hNe x hMem y hOther hEq
    subst hEq
    exact hLinked.not_mem_sibling hOwn hFirst hSecond hNe hMem
      hOther

/- No node is listed before its parent. -/
theorem parents_first
    (hLinked : t.Linked)
    (hOwn : t.parent? p ≠ some p) :
    (t.subtree p).Pairwise
      (fun x y => t.parent? x ≠ some y) := by
  refine hLinked.induct
    (P := fun p => (t.subtree p).Pairwise
      (fun x y => t.parent? x ≠ some y)) ?_ p hOwn
  intro p hOwn ih
  apply hLinked.pairwise_below hOwn
  · intro c hChild x hBelow hParent
    have hLe := hLinked.parent_le hParent
    have hLt := hLinked.lt_of_mem_below hOwn hChild hBelow
    omega
  · exact ih
  · intro c hFirst d hSecond hNe x hMem y hOther hParent
    by_cases hTop : x = c
    · subst hTop
      rw [hLinked.parent_of_child hFirst] at hParent
      cases hParent
      exact Nat.lt_irrefl _
        (hLinked.lt_of_mem_below hOwn hSecond hOther)
    · rcases hLinked.parent_mem_subtree
        (hLinked.child_own hOwn hFirst) hMem hTop with
        ⟨q, hParentMem, hSame⟩
      rw [hParent] at hSame
      cases hSame
      exact hLinked.not_mem_sibling hOwn hFirst hSecond hNe
        hParentMem hOther

/- Whose children a node below a child can be. -/
theorem parent_below
    (hLinked : t.Linked)
    (hOwn : t.parent? p ≠ some p)
    (hChild : c ∈ t.childrenOf p)
    (hBelow : x ∈ t.subtree c)
    (hParent : t.parent? x = some n) :
    (x = c ∧ n = p) ∨ (x ≠ c ∧ n ∈ t.subtree c) := by
  by_cases hTop : x = c
  · subst hTop
    rw [hLinked.parent_of_child hChild] at hParent
    exact .inl ⟨rfl, (Option.some.inj hParent).symm⟩
  · rcases hLinked.parent_mem_subtree
      (hLinked.child_own hOwn hChild) hBelow hTop with
      ⟨q, hMem, hSame⟩
    rw [hParent] at hSame
    cases hSame
    exact .inr ⟨hTop, hMem⟩

/- Below a child, only the child itself is one. -/
theorem filter_child
    (hLinked : t.Linked)
    (hOwn : t.parent? p ≠ some p)
    (hChild : c ∈ t.childrenOf p) :
    (t.subtree c).filter (fun x => t.parent? x = some p) =
      [c] := by
  have hOwnChild := hLinked.child_own hOwn hChild
  have hNodup := hLinked.nodup_subtree hOwnChild
  have hMem :
      ∀ x, x ∈ (t.childrenOf c).flatMap t.subtree →
        x ∈ t.subtree c := by
    intro x h
    rw [hLinked.subtree_eq hOwnChild]
    exact List.mem_cons_of_mem _ h
  rw [hLinked.subtree_eq hOwnChild] at hNodup ⊢
  rw [List.filter_cons_of_pos
    (by simpa using hLinked.parent_of_child hChild)]
  rw [List.filter_eq_nil_iff.2]
  intro x h hParent
  rcases hLinked.parent_below hOwn hChild (hMem x h)
    (of_decide_eq_true hParent) with ⟨hTop, -⟩ | ⟨-, hIn⟩
  · exact (List.nodup_cons.1 hNodup).1 (hTop ▸ h)
  · exact Nat.lt_irrefl _
      (hLinked.lt_of_mem_below hOwn hChild hIn)

/-
  Among the nodes of a subtree, the children of one of them
  stand in the order of its fields.
-/
theorem filter_subtree
    (hLinked : t.Linked)
    (hOwn : t.parent? p ≠ some p)
    (h : n ∈ t.subtree p) :
    (t.subtree p).filter (fun x => t.parent? x = some n) =
      t.childrenOf n := by
  revert h
  refine hLinked.induct
    (P := fun p => n ∈ t.subtree p →
      (t.subtree p).filter (fun x => t.parent? x = some n) =
        t.childrenOf n) ?_ p hOwn
  intro p hOwn ih h
  rcases (hLinked.mem_subtree_iff hOwn).1 h with
    rfl | ⟨c, hChild, hBelow⟩
  · rw [hLinked.subtree_eq hOwn,
      List.filter_cons_of_neg (by simpa using hOwn),
      List.filter_flatMap]
    calc
      (t.childrenOf n).flatMap (fun c =>
          (t.subtree c).filter (fun x => t.parent? x = some n))
        = (t.childrenOf n).flatMap (fun c => [c]) :=
          List.flatMap_congr
            (fun c hChild => hLinked.filter_child hOwn hChild)
      _ = t.childrenOf n := List.flatMap_singleton' _
  · have hTop : t.parent? p ≠ some n := by
      intro hParent
      have hLe := hLinked.parent_le hParent
      have hLt := hLinked.lt_of_mem_below hOwn hChild hBelow
      omega
    -- The other children have nothing of it below them.
    have hOther :
        ∀ d ∈ t.childrenOf p, c ≠ d →
          (t.subtree d).filter
            (fun x => t.parent? x = some n) = [] := by
      intro d hSecond hNe
      rw [List.filter_eq_nil_iff]
      intro x hMem hParent
      rcases hLinked.parent_below hOwn hSecond hMem
        (of_decide_eq_true hParent) with ⟨-, hEq⟩ | ⟨-, hIn⟩
      · subst hEq
        exact Nat.lt_irrefl _
          (hLinked.lt_of_mem_below hOwn hChild hBelow)
      · exact hLinked.not_mem_sibling hOwn hChild hSecond hNe
          hBelow hIn
    have hNodup := hLinked.nodup_children p
    rw [hLinked.subtree_eq hOwn,
      List.filter_cons_of_neg (by simpa using hTop),
      List.filter_flatMap]
    rcases List.append_of_mem hChild with ⟨before, after, hEq⟩
    rw [hEq] at hNodup hOther ⊢
    rw [List.nodup_middle, List.nodup_cons,
      List.mem_append] at hNodup
    rw [List.flatMap_append, List.flatMap_cons,
      ih c hChild hBelow, List.flatMap_eq_nil_iff.2,
      List.flatMap_eq_nil_iff.2]
    · simp
    · intro d hMem
      exact hOther d (by simp [hMem])
        (fun hEq => hNodup.1 (.inr (hEq ▸ hMem)))
    · intro d hMem
      exact hOther d (by simp [hMem])
        (fun hEq => hNodup.1 (.inl (hEq ▸ hMem)))

------------------------------------------------------------
-- The Walk from the Root
------------------------------------------------------------

/- The root is not its own parent. -/
theorem root_own
    (hLinked : t.Linked) :
    t.parent? root ≠ some root := by
  simp [hLinked.parent_root]

/-
  A walk that may take enough steps lists the subtrees of all
  nodes on the stack.
-/
theorem walk_eq
    (hLinked : t.Linked)
    (k : Nat)
    (stack : List NodeId)
    (hOwn : ∀ id ∈ stack, t.parent? id ≠ some id)
    (hLength : (stack.flatMap t.subtree).length ≤ k) :
    t.walk k stack = stack.flatMap t.subtree := by
  induction k generalizing stack with
  | zero =>
      have hNil := List.length_eq_zero_iff.1 (Nat.le_zero.1 hLength)
      rw [hNil, walk]
  | succ k ih =>
      cases stack with
      | nil => rfl
      | cons id stack =>
          have hTop := hOwn id (by simp)
          have hSplit :
              (id :: stack).flatMap t.subtree =
                id :: (t.childrenOf id ++ stack).flatMap
                  t.subtree := by
            simp [hLinked.subtree_eq hTop]
          rw [hSplit, List.length_cons] at hLength
          rw [hSplit, walk, ih _ ?_ (by omega)]
          intro c hMem
          rcases List.mem_append.1 hMem with hChild | hLater
          · exact hLinked.child_own hTop hChild
          · exact hOwn c (by simp [hLater])

/- All of a subtree but its top has a place in the table. -/
theorem lt_size_of_mem_subtree
    (hLinked : t.Linked)
    (hSize : p.index < t.size)
    (hOwn : t.parent? p ≠ some p)
    (h : x ∈ t.subtree p) :
    x.index < t.size := by
  by_cases hTop : x = p
  · exact hTop ▸ hSize
  · rcases hLinked.parent_mem_subtree hOwn h hTop with
      ⟨q, -, hParent⟩
    exact lt_size_of_parent hParent

/- A subtree has no more nodes than the table. -/
theorem length_subtree_le
    (hLinked : t.Linked)
    (hSize : p.index < t.size)
    (hOwn : t.parent? p ≠ some p) :
    (t.subtree p).length ≤ t.size := by
  have hIndices :
      ((t.subtree p).map NodeId.index).Nodup := by
    refine (hLinked.nodup_subtree hOwn).map ?_
    intro c d hEq
    cases c
    cases d
    simpa using hEq
  have hRange :
      (t.subtree p).map NodeId.index ⊆ List.range t.size := by
    intro i hMem
    rcases List.mem_map.1 hMem with ⟨x, hIn, rfl⟩
    exact List.mem_range.2
      (hLinked.lt_size_of_mem_subtree hSize hOwn hIn)
  simpa using (hIndices.subperm hRange).length_le

/- The walk from the root lists all that is below it. -/
theorem preorder_eq
    (hLinked : t.Linked)
    (hSize : 0 < t.size) :
    t.preorder = t.subtree root := by
  have hEmpty : t.nodes.isEmpty = false := by
    simpa [size, Nat.pos_iff_ne_zero] using hSize
  have hLength :=
    hLinked.length_subtree_le hSize hLinked.root_own
  rw [preorder, hEmpty, if_neg (by simp),
    hLinked.walk_eq _ _ (by simp [hLinked.root_own])
      (by rwa [List.flatMap_singleton]),
    List.flatMap_singleton]

/- A table without nodes has nothing to walk. -/
theorem preorder_eq_nil
    (hSize : ¬ 0 < t.size) :
    t.preorder = [] := by
  have hEmpty : t.nodes.isEmpty = true := by
    simpa [size] using hSize
  rw [preorder, hEmpty, if_pos rfl]

/- The walk meets only nodes of the table. -/
theorem lt_size_of_mem_preorder
    (hLinked : t.Linked)
    (h : x ∈ t.preorder) :
    x.index < t.size := by
  by_cases hSize : 0 < t.size
  · rw [hLinked.preorder_eq hSize] at h
    exact hLinked.lt_size_of_mem_subtree hSize
      hLinked.root_own h
  · simp [preorder_eq_nil hSize] at h

/- It meets no node that is its own parent. -/
theorem own_of_mem_preorder
    (hLinked : t.Linked)
    (h : x ∈ t.preorder) :
    t.parent? x ≠ some x := by
  by_cases hSize : 0 < t.size
  · rw [hLinked.preorder_eq hSize] at h
    exact hLinked.own_of_mem_subtree hLinked.root_own h
  · simp [preorder_eq_nil hSize] at h

/- The walk meets no node twice. -/
theorem nodup_preorder
    (hLinked : t.Linked) :
    t.preorder.Nodup := by
  by_cases hSize : 0 < t.size
  · rw [hLinked.preorder_eq hSize]
    exact hLinked.nodup_subtree hLinked.root_own
  · rw [preorder_eq_nil hSize]
    exact List.nodup_nil

/- The walk meets no node before its parent. -/
theorem parents_first_preorder
    (hLinked : t.Linked) :
    t.preorder.Pairwise
      (fun x y => t.parent? x ≠ some y) := by
  by_cases hSize : 0 < t.size
  · rw [hLinked.preorder_eq hSize]
    exact hLinked.parents_first hLinked.root_own
  · rw [preorder_eq_nil hSize]
    exact List.Pairwise.nil

/-
  The walk meets the children of each node that it meets in
  the order of the fields.
-/
theorem filter_preorder
    (hLinked : t.Linked)
    (h : n ∈ t.preorder) :
    t.preorder.filter (fun x => t.parent? x = some n) =
      t.childrenOf n := by
  by_cases hSize : 0 < t.size
  · rw [hLinked.preorder_eq hSize] at h ⊢
    exact hLinked.filter_subtree hLinked.root_own h
  · simp [preorder_eq_nil hSize] at h

end Linked

end Tree

end TypeGraft
