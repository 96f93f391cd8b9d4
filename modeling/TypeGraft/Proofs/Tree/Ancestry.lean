import Mathlib.Logic.Relation
import TypeGraft.Proofs.Tree.Built

/-
  The way from a node of a built tree up to the root.

  The parents of a built tree are the nodes that its steps
  named, in order.  A step may name any node of the table and
  also the node it is about to make, which then becomes its
  own parent.  Going from parent to parent goes to ever
  smaller places and ends at the root, unless it meets such a
  node; then it never ends.

  Key definitions include:
    * `owners`
    * `Tree.Under`
    * `Tree.Climbs`

  Main declarations:
    * `Tree.parents_of_extend`
    * `Tree.Linked.climbs_ancestors`
    * `Tree.not_climbs_of_own_parent`
    * `Tree.ancestry_of_build`
-/

namespace TypeGraft

------------------------------------------------------------
-- The Parents that Steps Name
------------------------------------------------------------

/- The parent that a step names for the node it makes. -/
def BuildStep.owner? : BuildStep → Option NodeId
  | .child parent _ _ _ => some parent
  | .push parent _ _ _ => some parent
  | _ => none

/- The parents named for the nodes that some steps make. -/
def owners
    (steps : List BuildStep) : List NodeId :=
  steps.filterMap BuildStep.owner?

theorem owners_cons
    (s : BuildStep)
    (steps : List BuildStep) :
    owners (s :: steps) = s.owner?.toList ++ owners steps := by
  cases hOwner : s.owner? <;>
    simp [owners, hOwner]

namespace Node

theorem parent_pushItem
    (n : Node)
    (name : String)
    (item : Option NodeId) :
    (n.pushItem name item).parent = n.parent := by
  unfold pushItem
  split <;> exact parent_setField

theorem parent_ensureList
    (n : Node)
    (name : String) :
    (n.ensureList name).parent = n.parent := by
  unfold ensureList
  split
  · rfl
  · exact parent_setField

end Node

namespace Tree

section Parents

variable {t u : Tree}
variable {p : NodeId}
variable {f : Node → Node}

/- A change of the fields of a node keeps all parents. -/
theorem parents_of_change
    (hKeeps : ∀ n, (f n).parent = n.parent)
    (h : t.change? p f = some u) :
    u.size = t.size ∧ ∀ id, u.parent? id = t.parent? id := by
  unfold change? at h
  split at h
  · cases h
    refine ⟨Array.size_modify, ?_⟩
    intro id
    have hGet := get?_modify t.nodes f p id
    simp only [parent?, hGet]
    split
    · cases t.get? id with
      | none => rfl
      | some n => exact hKeeps n
    · rfl
  · cases h

/- A new node, and then such a change. -/
theorem parents_of_append_change
    {kind : NodeKind}
    {range : SourceRange}
    (hKeeps : ∀ n, (f n).parent = n.parent)
    (h : (t.append p kind range).change? p f = some u) :
    u.size = t.size + 1 ∧
      ∀ id, u.parent? id =
        if id.index = t.size then some p else t.parent? id := by
  rcases parents_of_change hKeeps h with ⟨hSize, hParents⟩
  constructor
  · rw [hSize]
    exact Array.size_push _
  · intro id
    rw [hParents, parent?_append]

/-
  A step that makes a node puts it at the end of the table
  with the parent it names; any other step keeps the table
  and all parents.
-/
theorem parents_of_perform
    {s : BuildStep}
    {r : Option NodeId × Tree}
    (h : t.perform? s = some r) :
    r.2.size = t.size + s.owner?.toList.length ∧
      ∀ id, r.2.parent? id =
        if id.index = t.size then s.owner?
        else t.parent? id := by
  have hOutside :
      ∀ id : NodeId, t.parent? id =
        if id.index = t.size then none else t.parent? id := by
    intro id
    split
    · rename_i hEnd
      exact parent?_eq_none (Nat.le_of_eq hEnd.symm)
    · rfl
  cases s with
  | child parent field kind range =>
      rcases Option.map_eq_some_iff.1 h with ⟨u, hChange, rfl⟩
      exact parents_of_append_change
        (fun _ => Node.parent_setField) hChange
  | push parent field kind range =>
      rcases Option.map_eq_some_iff.1 h with ⟨u, hChange, rfl⟩
      exact parents_of_append_change
        (fun n => n.parent_pushItem field _) hChange
  | hole parent field =>
      rcases Option.map_eq_some_iff.1 h with ⟨u, hChange, rfl⟩
      rcases parents_of_change
        (fun n => n.parent_pushItem field _) hChange with
        ⟨hSize, hParents⟩
      exact ⟨hSize, fun id =>
        (hParents id).trans (hOutside id)⟩
  | empty id field =>
      rcases Option.map_eq_some_iff.1 h with ⟨u, hChange, rfl⟩
      rcases parents_of_change
        (fun n => n.parent_ensureList field) hChange with
        ⟨hSize, hParents⟩
      exact ⟨hSize, fun id =>
        (hParents id).trans (hOutside id)⟩
  | attr id key value =>
      rcases Option.map_eq_some_iff.1 h with ⟨u, hChange, rfl⟩
      rcases parents_of_change
        (fun _ => Node.parent_setField) hChange with
        ⟨hSize, hParents⟩
      exact ⟨hSize, fun id =>
        (hParents id).trans (hOutside id)⟩

/- Steps add one node for each parent they name, in order. -/
theorem parents_of_extend
    {steps : List BuildStep}
    (h : t.extend? steps = some u) :
    u.size = t.size + (owners steps).length ∧
      ∀ id, u.parent? id =
        if id.index < t.size then t.parent? id
        else (owners steps)[id.index - t.size]? := by
  induction steps generalizing t with
  | nil =>
      cases h
      refine ⟨rfl, ?_⟩
      intro id
      split
      · rfl
      · rename_i hOut
        rw [parent?_eq_none (Nat.le_of_not_lt hOut)]
        rfl
  | cons s steps ih =>
      rw [extend?] at h
      split at h
      · cases h
      · rename_i made between hStep
        rcases parents_of_perform hStep with
          ⟨hSize, hParents⟩
        rcases ih h with ⟨hSizeRest, hParentsRest⟩
        rw [owners_cons]
        constructor
        · rw [hSizeRest, hSize, List.length_append]
          omega
        · intro id
          rw [hParentsRest, hParents, hSize]
          cases s.owner? with
          | none =>
              by_cases hEnd : id.index = t.size
              · simp [hEnd]
              · simp [hEnd]
          | some p =>
              simp only [Option.toList_some, List.length_cons,
                List.length_nil, List.cons_append,
                List.nil_append, List.getElem?_cons]
              by_cases hEnd : id.index = t.size
              · simp [hEnd]
              · by_cases hOld : id.index < t.size
                · simp [hEnd, hOld, Nat.lt_succ_of_lt hOld]
                · have hNew : ¬ id.index < t.size + 1 := by
                    omega
                  have hLater : id.index - t.size ≠ 0 := by
                    omega
                  have hPlace :
                      id.index - (t.size + 1) =
                        id.index - t.size - 1 := by omega
                  simp only [Nat.zero_add, if_neg hNew,
                    if_neg hOld, if_neg hLater, hPlace]

end Parents

------------------------------------------------------------
-- Climbing
------------------------------------------------------------

/- A node and another that it is under, or the node itself. -/
def Under
    (t : Tree) : NodeId → NodeId → Prop :=
  Relation.ReflTransGen (fun c p => t.parent? c = some p)

/-
  Going from a node to its parent, to the parent of that and
  so on meets these nodes and comes to an end.
-/
inductive Climbs
    (t : Tree) : NodeId → List NodeId → Prop where
  | top
      {id : NodeId}
      (h : t.parent? id = none) : Climbs t id []
  | up
      {id p : NodeId}
      {chain : List NodeId}
      (h : t.parent? id = some p)
      (rest : Climbs t p chain) : Climbs t id (p :: chain)

section Climbing

variable {t : Tree}
variable {id x : NodeId}
variable {chain : List NodeId}

/- A climb goes on from everything it meets. -/
theorem Climbs.from_under
    (h : t.Climbs id chain)
    (hUnder : t.Under id x) :
    ∃ rest, t.Climbs x rest := by
  induction hUnder with
  | refl => exact ⟨chain, h⟩
  | tail _ hParent ih =>
      rcases ih with ⟨rest, hRest⟩
      cases hRest with
      | top hTop => cases hTop.symm.trans hParent
      | up hUp hFurther =>
          cases hUp.symm.trans hParent
          exact ⟨_, hFurther⟩

/- A node that is its own parent is never left. -/
theorem not_climbs_of_own_parent
    (hUnder : t.Under id x)
    (hOwn : t.parent? x = some x) :
    ¬ t.Climbs id chain := by
  intro h
  rcases h.from_under hUnder with ⟨rest, hRest⟩
  clear h
  induction rest with
  | nil =>
      cases hRest with
      | top hTop => cases hTop.symm.trans hOwn
  | cons p rest ih =>
      cases hRest with
      | up hUp hFurther =>
          cases hUp.symm.trans hOwn
          exact ih hFurther

namespace Linked

/- A node with a parent other than itself comes after it. -/
theorem parent_lt
    {p c : NodeId}
    (hLinked : t.Linked)
    (hParent : t.parent? c = some p)
    (hOwn : t.parent? c ≠ some c) :
    p.index < c.index := by
  have hLe := hLinked.parent_le hParent
  have hNe : p.index ≠ c.index := by
    intro hEq
    have hSame : p = c := by
      cases p
      cases c
      exact congrArg NodeId.mk hEq
    exact hOwn (hSame ▸ hParent)
  omega

/-
  Where no node on the way is its own parent, the way goes to
  ever smaller places, so there is an end to it before it has
  taken as many steps as the node has nodes before it.
-/
theorem climbs_ancestorsWithin
    (hLinked : t.Linked)
    (k : Nat)
    (hPlace : id.index ≤ k)
    (hOwn : ∀ x, t.Under id x → t.parent? x ≠ some x) :
    t.Climbs id (t.ancestorsWithin k id) ∧
      (id :: t.ancestorsWithin k id).Pairwise
        (fun x y => y.index < x.index) := by
  induction k generalizing id with
  | zero =>
      have hRoot : id = root := by
        cases id
        exact congrArg NodeId.mk (Nat.le_zero.1 hPlace)
      subst hRoot
      exact ⟨.top hLinked.parent_root,
        List.pairwise_singleton _ _⟩
  | succ k ih =>
      rw [ancestorsWithin]
      cases hParent : t.parent? id with
      | none =>
          exact ⟨.top hParent, List.pairwise_singleton _ _⟩
      | some p =>
          have hLt := hLinked.parent_lt hParent (hOwn id .refl)
          have hRest :=
            @ih p (by omega)
              (fun x hUnder => hOwn x (.head hParent hUnder))
          refine ⟨.up hParent hRest.1, ?_⟩
          refine List.pairwise_cons.2 ⟨?_, hRest.2⟩
          intro y hMem
          rcases List.mem_cons.1 hMem with rfl | hLater
          · exact hLt
          · have hBefore := List.rel_of_pairwise_cons hRest.2 hLater
            exact Nat.lt_trans hBefore hLt

/- The nodes around such a node are where the climb leads. -/
theorem climbs_ancestors
    (hLinked : t.Linked)
    (hOwn : ∀ x, t.Under id x → t.parent? x ≠ some x) :
    t.Climbs id (t.ancestors id) ∧
      (id :: t.ancestors id).Pairwise
        (fun x y => y.index < x.index) := by
  by_cases hIn : id.index ≤ t.size
  · exact hLinked.climbs_ancestorsWithin t.size hIn hOwn
  · have hTop : t.parent? id = none :=
      parent?_eq_none (Nat.le_of_lt (Nat.lt_of_not_le hIn))
    have hNone : t.ancestors id = [] := by
      unfold ancestors
      cases t.size with
      | zero => rfl
      | succ k => simp [ancestorsWithin, hTop]
    rw [hNone]
    exact ⟨.top hTop, List.pairwise_singleton _ _⟩

end Linked

/-
  A climb ends at a node without a parent, so where only the
  root has none it ends at the root.
-/
theorem Climbs.getLast?_eq_root
    (h : t.Climbs id chain)
    (hLinked : t.Linked)
    (hIn : id.index < t.size)
    (hRoot :
      ∀ c : NodeId, c.index < t.size →
        t.parent? c = none → c = root) :
    (id :: chain).getLast? = some root := by
  induction h with
  | top hTop =>
      rw [hRoot _ hIn hTop]
      rfl
  | up hUp _ ih =>
      have hLe := hLinked.parent_le hUp
      rw [List.getLast?_cons_cons]
      exact ih (Nat.lt_of_le_of_lt hLe hIn)

end Climbing

------------------------------------------------------------
-- Built Trees
------------------------------------------------------------

section Built

variable {kind : NodeKind}
variable {range : SourceRange}
variable {steps : List BuildStep}
variable {t : Tree}

/- The parents of a built tree are those its steps named. -/
theorem parents_of_build
    (h : build? kind range steps = some t) :
    t.size = (owners steps).length + 1 ∧
      t.parent? root = none ∧
      ∀ i, t.parent? ⟨i + 1⟩ = (owners steps)[i]? := by
  rcases parents_of_extend h with ⟨hSize, hParents⟩
  have hStart : (start kind range).size = 1 := rfl
  rw [hStart] at hSize hParents
  refine ⟨by omega, ?_, ?_⟩
  · exact (hParents root).trans rfl
  · intro i
    rw [hParents, if_neg (by simp), Nat.add_sub_cancel]

/- Only the root of a built tree has no parent. -/
theorem eq_root_of_parent
    (h : build? kind range steps = some t)
    (c : NodeId)
    (hIn : c.index < t.size)
    (hTop : t.parent? c = none) :
    c = root := by
  rcases parents_of_build h with ⟨hSize, -, hParents⟩
  rcases c with ⟨_ | i⟩
  · rfl
  · have hPlace : i + 1 < (owners steps).length + 1 :=
      hSize ▸ hIn
    rw [hParents, List.getElem?_eq_none_iff] at hTop
    omega

/-
  The nodes of a built tree list only nodes whose parent they
  are.  Every node but the root has the parent that its step
  named; this comes before it, or is the node itself if the
  step named the place that the node was about to take.
  Where no node on the way up from a node is its own parent,
  the nodes around it come in falling order and end with the
  root; otherwise going up from it never ends.
-/
theorem ancestry_of_build
    (h : build? kind range steps = some t) :
    (∀ p c, c ∈ t.childrenOf p → t.parent? c = some p) ∧
    (∀ i, i + 1 < t.size →
      ∃ p, (owners steps)[i]? = some p ∧
        t.parent? ⟨i + 1⟩ = some p ∧
        (p.index < i + 1 ∨ p = ⟨i + 1⟩)) ∧
    (∀ id, id.index < t.size →
      (∀ x, t.Under id x → t.parent? x ≠ some x) →
        t.Climbs id (t.ancestors id) ∧
        (id :: t.ancestors id).getLast? = some root ∧
        (id :: t.ancestors id).Pairwise
          (fun x y => y.index < x.index)) ∧
    (∀ id x, t.Under id x → t.parent? x = some x →
      ∀ chain, ¬ t.Climbs id chain) := by
  have hLinked := linked_of_build h
  rcases parents_of_build h with ⟨hSize, -, hParents⟩
  refine ⟨fun p c => hLinked.parent_of_child, ?_, ?_, ?_⟩
  · intro i hIn
    have hPlace : i < (owners steps).length := by omega
    have hNamed := List.getElem?_eq_getElem hPlace
    have hParent := (hParents i).trans hNamed
    refine ⟨_, hNamed, hParent, ?_⟩
    by_cases hOwn : t.parent? ⟨i + 1⟩ = some ⟨i + 1⟩
    · exact .inr (Option.some.inj (hParent.symm.trans hOwn))
    · exact .inl (hLinked.parent_lt hParent hOwn)
  · intro id hIn hOwn
    rcases hLinked.climbs_ancestors hOwn with ⟨hClimb, hFall⟩
    exact ⟨hClimb,
      hClimb.getLast?_eq_root hLinked hIn (eq_root_of_parent h),
      hFall⟩
  · intro id x hUnder hOwn chain
    exact not_climbs_of_own_parent hUnder hOwn

end Built

/- A declarator, its name, and a node that names itself. -/
def strayedSteps : List BuildStep :=
  [.push root "body" (.ofName "VariableDeclarator") (.onLine 1 0 9),
    .child ⟨1⟩ "id" .identifier (.onLine 1 0 4),
    .child ⟨3⟩ "init" .identifier (.onLine 1 6 9)]

/-
  From the name the way leads over the declarator to the root;
  from the node that names itself it leads nowhere.
-/
theorem ancestry_of_build_strayed :
    ∃ t,
      build? (.ofName "Program") (.onLine 1 0 9) strayedSteps =
        some t ∧
      t.ancestors ⟨2⟩ = [⟨1⟩, root] ∧
      t.Climbs ⟨2⟩ [⟨1⟩, root] ∧
      t.parent? ⟨3⟩ = some ⟨3⟩ ∧
      ∀ chain, ¬ t.Climbs ⟨3⟩ chain := by
  have hSome :
      (build? (.ofName "Program") (.onLine 1 0 9)
        strayedSteps).isSome = true := by
    decide
  rcases Option.isSome_iff_exists.1 hSome with ⟨t, hTree⟩
  rcases ancestry_of_build hTree with
    ⟨-, hParents, hEnds, hNever⟩
  have hSize : t.size = 4 := (parents_of_build hTree).1
  have hParent :
      ∀ i p, (owners strayedSteps)[i]? = some p →
        i + 1 < t.size → t.parent? ⟨i + 1⟩ = some p := by
    intro i p hOwner hIn
    rcases hParents i hIn with ⟨q, hNamed, hParent, -⟩
    cases hNamed.symm.trans hOwner
    exact hParent
  have hFirst := hParent 0 root rfl (by omega)
  have hSecond := hParent 1 ⟨1⟩ rfl (by omega)
  have hThird := hParent 2 ⟨3⟩ rfl (by omega)
  have hTop := (parents_of_build hTree).2.1
  have hWay :
      ∀ x, t.Under ⟨2⟩ x → x = ⟨2⟩ ∨ x = ⟨1⟩ ∨ x = root := by
    intro x hUnder
    induction hUnder with
    | refl => exact .inl rfl
    | tail _ hUp ih =>
        rcases ih with rfl | rfl | rfl
        · exact .inr (.inl (Option.some.inj
            (hUp.symm.trans hSecond)))
        · exact .inr (.inr (Option.some.inj
            (hUp.symm.trans hFirst)))
        · cases hTop.symm.trans hUp
  have hAround : t.ancestors ⟨2⟩ = [⟨1⟩, root] := by
    simp only [ancestors, hSize, ancestorsWithin, hSecond,
      hFirst, hTop]
  have hClimb := (hEnds ⟨2⟩ (by simp [hSize]) ?_).1
  · exact ⟨t, hTree, hAround, hAround ▸ hClimb, hThird,
      hNever ⟨3⟩ ⟨3⟩ .refl hThird⟩
  · intro x hUnder
    rcases hWay x hUnder with rfl | rfl | rfl
    · simp [hSecond]
    · simp [hFirst, root]
    · simp [hTop]

/-
  Naming the place of the node to be made is accepted, and the
  node is its own parent then: going up from it never ends.
-/
theorem own_parent_of_build :
    ∃ t,
      build? (.ofName "Program") (.onLine 1 0 1)
          [.child ⟨1⟩ "body" .identifier (.onLine 1 0 1)] =
        some t ∧
      t.parent? ⟨1⟩ = some ⟨1⟩ ∧
      ∀ chain, ¬ t.Climbs ⟨1⟩ chain :=
  ⟨_, rfl, rfl, fun _ =>
    not_climbs_of_own_parent .refl rfl⟩

end Tree

end TypeGraft
