import Mathlib.Logic.Relation
import TypeGraft.Proofs.Tree.Built
import TypeGraft.Tree.Export

/-
  The walk over a tree with a stack lists what a recursive
  visit lists.

  Taking a node off a stack and putting its children there in
  its place, until the stack is empty, lists the same nodes in
  the same order as visiting a node and then its children in
  turn.  This is so in every table in which the visit comes to
  an end, and in a tree that was imported or built it does.
  An import hands out places in the order of the visit.

  Key definitions include:
    * `Tree.Visits`
    * `Tree.Drains`
    * `Tree.Below`
    * `Tree.Fills`

  Main declarations:
    * `Tree.Visits.drains`
    * `Tree.Visits.mem_iff`
    * `Tree.Linked.visits_subtree`
    * `Tree.visits_of_ofJson`
    * `Tree.preorder_of_produced`
-/

namespace TypeGraft

namespace Tree

------------------------------------------------------------
-- Recursion and Stack
------------------------------------------------------------

/-
  Visiting some nodes one after another, each before its
  children and these in the order of the fields, lists these
  nodes.
-/
inductive Visits
    (t : Tree) : List NodeId → List NodeId → Prop where
  | nil : Visits t [] []
  | cons
      {id : NodeId}
      {ids below rest : List NodeId}
      (inner : Visits t (t.childrenOf id) below)
      (later : Visits t ids rest) :
      Visits t (id :: ids) (id :: below ++ rest)

/-
  Taking the top off a stack and putting its children there,
  the first of them on top, until nothing is left, lists these
  nodes.
-/
inductive Drains
    (t : Tree) : List NodeId → List NodeId → Prop where
  | done : Drains t [] []
  | pop
      {id : NodeId}
      {stack order : List NodeId}
      (rest : Drains t (t.childrenOf id ++ stack) order) :
      Drains t (id :: stack) (id :: order)

/- A node and another that is below it, or the node itself. -/
def Below
    (t : Tree) : NodeId → NodeId → Prop :=
  Relation.ReflTransGen (fun p c => c ∈ t.childrenOf p)

section Visits

variable {t u : Tree}
variable {ids others order later : List NodeId}

/- The loop with a stack can list only one thing. -/
theorem Drains.unique
    (hFirst : t.Drains ids order)
    (hSecond : t.Drains ids later) :
    order = later := by
  induction hFirst generalizing later with
  | done =>
      cases hSecond
      rfl
  | pop _ ih =>
      cases hSecond with
      | pop hRest => rw [ih hRest]

namespace Visits

/- The loop lists what is visited, then the rest of the stack. -/
theorem drains_append
    (h : t.Visits ids order)
    (hRest : t.Drains others later) :
    t.Drains (ids ++ others) (order ++ later) := by
  induction h generalizing others later with
  | nil => exact hRest
  | cons _ _ ihInner ihLater =>
      rw [List.cons_append, List.cons_append,
        List.cons_append, List.append_assoc]
      exact .pop (ihInner (ihLater hRest))

/- With nothing else on the stack it lists just that. -/
theorem drains
    (h : t.Visits ids order) :
    t.Drains ids order := by
  have hAll := h.drains_append .done
  rwa [List.append_nil, List.append_nil] at hAll

/- One node. -/
theorem single
    {id : NodeId}
    (h : t.Visits (t.childrenOf id) order) :
    t.Visits [id] (id :: order) := by
  have hNode := Visits.cons h .nil
  rwa [List.append_nil] at hNode

/- Some nodes and then some others. -/
theorem append
    (hFirst : t.Visits ids order)
    (hSecond : t.Visits others later) :
    t.Visits (ids ++ others) (order ++ later) := by
  induction hFirst with
  | nil => exact hSecond
  | cons hInner _ _ ih =>
      rw [List.cons_append, List.append_assoc]
      exact .cons hInner ih

/- A visit looks only at the children of what it lists. -/
theorem congr
    (h : t.Visits ids order)
    (hSame :
      ∀ x ∈ order, u.childrenOf x = t.childrenOf x) :
    u.Visits ids order := by
  induction h with
  | nil => exact .nil
  | cons _ _ ihInner ihLater =>
      refine .cons ?_ (ihLater ?_)
      · rw [hSame _ (by simp)]
        exact ihInner (fun x hMem => hSame x (by simp [hMem]))
      · exact fun x hMem => hSame x (by simp [hMem])

/- A visit lists what is below the nodes it starts from. -/
theorem mem_iff
    (h : t.Visits ids order)
    (x : NodeId) :
    x ∈ order ↔ ∃ id ∈ ids, t.Below id x := by
  induction h with
  | nil => simp
  | @cons id ids below rest _ _ ihInner ihLater =>
      have hTop :
          t.Below id x ↔
            x = id ∨ ∃ c ∈ t.childrenOf id, t.Below c x := by
        unfold Below
        rw [Relation.ReflTransGen.cases_head_iff, eq_comm]
      rw [List.cons_append, List.mem_cons, List.mem_append,
        ihInner, ihLater, ← or_assoc, ← hTop]
      simp

end Visits

namespace Linked

/- Where the visit ends, it lists the subtree. -/
theorem visits_subtree
    {p : NodeId}
    (hLinked : t.Linked)
    (hOwn : t.parent? p ≠ some p) :
    t.Visits [p] (t.subtree p) := by
  refine hLinked.induct
    (P := fun p => t.Visits [p] (t.subtree p)) ?_ p hOwn
  intro p hOwn ih
  have hChildren :
      ∀ cs : List NodeId,
        (∀ c ∈ cs, t.Visits [c] (t.subtree c)) →
          t.Visits cs (cs.flatMap t.subtree) := by
    intro cs hVisits
    induction cs with
    | nil => exact .nil
    | cons c cs ihList =>
        exact (hVisits c (by simp)).append
          (ihList (fun d hMem => hVisits d (by simp [hMem])))
  rw [hLinked.subtree_eq hOwn]
  exact .single (hChildren _ ih)

/- The walk from the root is such a visit. -/
theorem visits_preorder
    (hLinked : t.Linked)
    (hSize : 0 < t.size) :
    t.Visits [root] t.preorder := by
  rw [hLinked.preorder_eq hSize]
  exact hLinked.visits_subtree hLinked.root_own

end Linked

end Visits

------------------------------------------------------------
-- The Order of an Import
------------------------------------------------------------

/- The nodes from one place to before another. -/
def placesFrom
    (i j : Nat) : List NodeId :=
  (List.range' i (j - i)).map NodeId.mk

theorem mem_placesFrom_iff
    {i j : Nat}
    {x : NodeId} :
    x ∈ placesFrom i j ↔ i ≤ x.index ∧ x.index < j := by
  cases x
  simp only [placesFrom, List.mem_map, List.mem_range'_1,
    NodeId.mk.injEq, exists_eq_right]
  omega

theorem placesFrom_append
    {i j k : Nat}
    (hFirst : i ≤ j)
    (hSecond : j ≤ k) :
    placesFrom i j ++ placesFrom j k = placesFrom i k := by
  rcases Nat.exists_eq_add_of_le hFirst with ⟨m, rfl⟩
  rcases Nat.exists_eq_add_of_le hSecond with ⟨n, rfl⟩
  have hLength : i + m + n - i = m + n := by omega
  rw [placesFrom, placesFrom, placesFrom, hLength,
    Nat.add_sub_cancel_left, Nat.add_sub_cancel_left,
    ← List.map_append, List.range'_append_1]

theorem placesFrom_cons
    {i j : Nat}
    (h : i < j) :
    placesFrom i j = ⟨i⟩ :: placesFrom (i + 1) j := by
  have hLength : j - i = (j - (i + 1)) + 1 := by omega
  rw [placesFrom, placesFrom, hLength, List.range'_succ,
    List.map_cons]

/-
  A table `u` is `t` with more nodes behind it, as `Grows`
  says, and visiting those listed in `tops` meets the new
  nodes by their places.
-/
structure Fills
    (owner : Option NodeId)
    (t u : Tree)
    (tops : List NodeId) : Prop
    extends Grows owner t u tops where
  order : u.Visits tops (placesFrom t.size u.size)

namespace Fills

variable {owner : Option NodeId}
variable {t u v : Tree}
variable {xs ys : List NodeId}

/- Nothing is added. -/
theorem refl
    (owner : Option NodeId)
    (t : Tree) :
    Fills owner t t [] where
  toGrows := .refl owner t
  order := by
    rw [placesFrom, Nat.sub_self]
    exact .nil

/- Something is added, and then something else. -/
theorem trans
    (hFirst : Fills owner t u xs)
    (hSecond : Fills owner u v ys) :
    Fills owner t v (xs ++ ys) where
  toGrows := hFirst.toGrows.trans hSecond.toGrows
  order := by
    have hKept :
        ∀ x ∈ placesFrom t.size u.size,
          v.childrenOf x = u.childrenOf x := by
      intro x hMem
      exact childrenOf_congr
        (hSecond.old (mem_placesFrom_iff.1 hMem).2)
    rw [← placesFrom_append hFirst.size_le hSecond.size_le]
    exact (hFirst.order.congr hKept).append hSecond.order

/- A node is added around what belongs to it. -/
theorem node
    {nodes grown : Array Node}
    {head : Node}
    {fields : List (String × Field)}
    (hBare : head.annotation = none)
    (hInner :
      Fills (some ⟨nodes.size⟩) ⟨nodes.push head⟩ ⟨grown⟩
        (fields.flatMap (fun f => f.2.children))) :
    Fills head.parent ⟨nodes⟩
      ⟨setFields grown ⟨nodes.size⟩ fields⟩
      [⟨nodes.size⟩] where
  toGrows := .node hBare hInner.toGrows
  order := by
    have hPush :
        (Tree.mk (nodes.push head)).size = nodes.size + 1 :=
      Array.size_push head
    have hGrown : nodes.size + 1 ≤ grown.size :=
      hPush ▸ hInner.size_le
    have hSize :
        (Tree.mk (setFields grown ⟨nodes.size⟩ fields)).size =
          grown.size :=
      Array.size_modify
    have hBelow := hInner.order
    rw [hPush] at hBelow
    have hKept :
        ∀ x ∈ placesFrom (nodes.size + 1) grown.size,
          (Tree.mk (setFields grown ⟨nodes.size⟩
            fields)).childrenOf x =
            (Tree.mk grown).childrenOf x := by
      intro x hMem
      apply childrenOf_setFields_of_ne
      rintro rfl
      exact Nat.lt_irrefl _ (mem_placesFrom_iff.1 hMem).1
    have hOwn :=
      @childrenOf_setFields_self grown fields ⟨nodes.size⟩
        hGrown
    have hVisits := hBelow.congr hKept
    rw [← hOwn] at hVisits
    rw [hSize]
    exact (placesFrom_cons hGrown).symm ▸ hVisits.single

/- So does every import. -/
theorem importCases : ImportCases Fills where
  refl := .refl
  trans := .trans
  node := .node

end Fills

/- The nodes of an imported tree are met by their places. -/
theorem visits_of_ofJson
    {v : Json}
    {t : Tree}
    (h : ofJson v = .ok t) :
    t.Visits [root] (placesFrom 0 t.size) := by
  rcases bind_eq_ok_iff.1 h with ⟨⟨id, nodes⟩, hNode, hTree⟩
  cases hTree
  have hFills := Fills.importCases.of_importNode v hNode
  have hRoot : id = root := fst_of_importNode hNode
  subst hRoot
  exact hFills.order

/- Their walk lists all places of the table. -/
theorem preorder_of_ofJson
    {v : Json}
    {t : Tree}
    (h : ofJson v = .ok t) :
    t.preorder = (List.range t.size).map NodeId.mk := by
  have hWalk :=
    (linked_of_ofJson h).visits_preorder (size_pos_of_ofJson h)
  have hPlaces := visits_of_ofJson h
  rw [hWalk.drains.unique hPlaces.drains, placesFrom,
    Nat.sub_zero, ← List.range_eq_range']

------------------------------------------------------------
-- Trees, However Made
------------------------------------------------------------

/- What the walk meets below the root, its parent lists. -/
theorem Linked.mem_children_parent
    {t : Tree}
    {c : NodeId}
    (hLinked : t.Linked)
    (hSize : 0 < t.size)
    (h : c ∈ t.preorder)
    (hNe : c ≠ root) :
    ∃ p, t.parent? c = some p ∧ c ∈ t.childrenOf p ∧
      p.index < c.index := by
  have hIn := h
  rw [hLinked.preorder_eq hSize] at hIn
  rcases hLinked.parent_mem_subtree hLinked.root_own hIn hNe
    with ⟨p, hMem, hParent⟩
  rw [← hLinked.preorder_eq hSize] at hMem
  have hChild : c ∈ t.childrenOf p := by
    rw [← hLinked.filter_preorder hMem, List.mem_filter]
    exact ⟨h, decide_eq_true hParent⟩
  exact ⟨p, hParent, hChild,
    hLinked.lt_of_child (hLinked.own_of_mem_preorder hMem)
      hChild⟩

/-
  The walk from the root of a tree that was imported or built
  is what the loop with a stack ends with and what a recursive
  visit lists: all nodes below the root, each once.  In an
  imported tree these are all places of the table in order,
  and every node but the root is listed once by its parent,
  which comes before it.
-/
theorem preorder_of_produced
    {t : Tree}
    (hTree : t.Produced) :
    (∀ order, t.Drains [root] order ↔ order = t.preorder) ∧
    (∀ order, t.Visits [root] order ↔ order = t.preorder) ∧
    t.preorder.Nodup ∧
    (∀ x, x ∈ t.preorder ↔ t.Below root x) ∧
    ∀ v, ofJson v = .ok t →
      t.preorder = (List.range t.size).map NodeId.mk ∧
      ∀ c, c ≠ root → c.index < t.size →
        ∃ p, t.parent? c = some p ∧
          (t.childrenOf p).count c = 1 ∧
          p.index < c.index := by
  have hLinked := hTree.linked
  have hVisits := hLinked.visits_preorder hTree.size_pos
  have hUnique :
      ∀ order, t.Drains [root] order → order = t.preorder :=
    fun order h => h.unique hVisits.drains
  refine ⟨?_, ?_, hLinked.nodup_preorder, ?_, ?_⟩
  · intro order
    exact ⟨hUnique order, fun h => h ▸ hVisits.drains⟩
  · intro order
    exact ⟨fun h => hUnique order h.drains,
      fun h => h ▸ hVisits⟩
  · intro x
    simpa using hVisits.mem_iff x
  · intro v hImport
    have hPlaces := preorder_of_ofJson hImport
    refine ⟨hPlaces, ?_⟩
    intro c hNe hIn
    have hMet : c ∈ t.preorder := by
      rw [hPlaces]
      exact List.mem_map.2
        ⟨c.index, List.mem_range.2 hIn, rfl⟩
    rcases hLinked.mem_children_parent hTree.size_pos hMet hNe
      with ⟨p, hParent, hChild, hLt⟩
    exact ⟨p, hParent,
      List.count_eq_one_of_mem (hLinked.nodup_children p)
        hChild, hLt⟩

/-
  A block is put in place of another; the first and what
  belongs to it stay in the table, as does a node that names
  itself as its parent.
-/
def replacedSteps : List BuildStep :=
  [.child root "body" (.ofName "BlockStatement") (.onLine 1 0 2),
    .push ⟨1⟩ "body" .identifier (.onLine 1 0 1),
    .child root "body" (.ofName "BlockStatement") (.onLine 1 0 9),
    .hole ⟨3⟩ "body",
    .push ⟨3⟩ "body" .identifier (.onLine 1 2 4),
    .push ⟨3⟩ "body" .identifier (.onLine 1 6 9),
    .child ⟨6⟩ "id" .identifier (.onLine 1 8 9)]

/- A block of a hole and an identifier. -/
def blockJson : Json :=
  .obj
    [("type", .str "BlockStatement"),
      ("loc", (SourceRange.onLine 1 0 9).toJson),
      ("body", .arr
        [.null,
          .obj
            [("type", .str "Identifier"),
              ("loc", (SourceRange.onLine 1 2 4).toJson)]])]

/-
  The walk over the first meets four of its seven nodes, and
  the walk over the second both of its nodes.
-/
theorem preorder_of_produced_replaced :
    (∃ t,
      build? (.ofName "Program") (.onLine 1 0 9) replacedSteps =
        some t ∧
      t.size = 7 ∧
      t.Drains [root] [root, ⟨3⟩, ⟨4⟩, ⟨5⟩] ∧
      t.Visits [root] [root, ⟨3⟩, ⟨4⟩, ⟨5⟩] ∧
      ¬ t.Below root ⟨1⟩ ∧ ¬ t.Below root ⟨6⟩) ∧
    ∃ t,
      ofJson blockJson = .ok t ∧
      t.preorder = [root, ⟨1⟩] ∧
      ∃ p, t.parent? ⟨1⟩ = some p ∧
        (t.childrenOf p).count ⟨1⟩ = 1 := by
  constructor
  · have hWalk :
        (build? (.ofName "Program") (.onLine 1 0 9)
          replacedSteps).map
            (fun t => (t.size, t.preorder)) =
          some (7, [root, ⟨3⟩, ⟨4⟩, ⟨5⟩]) := by
      decide +kernel
    rcases Option.map_eq_some_iff.1 hWalk with
      ⟨t, hTree, hSeen⟩
    rw [Prod.mk.injEq] at hSeen
    rcases preorder_of_produced (.built hTree) with
      ⟨hLoop, hVisit, -, hMet, -⟩
    rw [hSeen.2] at hLoop hVisit hMet
    refine ⟨t, hTree, hSeen.1, (hLoop _).2 rfl,
      (hVisit _).2 rfl, ?_, ?_⟩
    · rw [← hMet]
      decide
    · rw [← hMet]
      decide
  · have hSize :
        (ofJson blockJson).toOption.map size = some 2 := by
      decide +kernel
    cases hTree : ofJson blockJson with
    | error e => simp [hTree, Except.toOption] at hSize
    | ok t =>
        have hTwo : t.size = 2 := by
          simpa [hTree, Except.toOption] using hSize
        rcases (preorder_of_produced
          (.imported hTree)).2.2.2.2 _ hTree with
          ⟨hPlaces, hListed⟩
        rcases hListed ⟨1⟩ (by decide) (by simp [hTwo]) with
          ⟨p, hParent, hOnce, -⟩
        refine ⟨t, rfl, ?_, p, hParent, hOnce⟩
        rw [hPlaces, hTwo]
        rfl

end Tree

end TypeGraft
