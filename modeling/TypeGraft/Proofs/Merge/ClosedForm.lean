import TypeGraft.Engine.Snapshot
import TypeGraft.FlowType.Printer
import TypeGraft.Proofs.Engine.Dialogue
import TypeGraft.Proofs.Merge.Passes
import TypeGraft.Proofs.Tree.Built

/-
  What a merge annotates, in closed form.

  A target has an annotation of its own if the source has a
  fact for it that states a type.  In the end an identifier
  shows its own annotation, or else that of its first child
  identifier that has one; for any other target it is the
  other way round.  No order of visits is left in this: it
  depends only on the tree, the targets and the facts.

  Key definitions include:
    * `ownAnnotation?`
    * `childAnnotation?`
    * `mergedAnnotation?`

  Main declarations:
    * `findSome?_identifiers`
    * `shows_mergeCollected`
    * `annotation_of_mergeFrom`
-/

namespace TypeGraft

------------------------------------------------------------
-- The Closed Form
------------------------------------------------------------

section ClosedForm

variable (eligibility : Eligibility)
variable (dialect : Dialect)
variable (t : Tree)
variable (facts : FactMap)

/- The annotation that the fact of a target makes. -/
def ownAnnotation?
    (n : NodeId) : Option Annotation :=
  if n ∈ eligibility.targets t then
    facts[n]?.bind (factAnnotation? dialect)
  else none

/- The annotation of the first child identifier with one. -/
def childAnnotation?
    (n : NodeId) : Option Annotation :=
  (t.childrenOf n).findSome? (fun c =>
    if t.isIdentifier c then
      ownAnnotation? eligibility dialect t facts c
    else none)

/- What a node shows after a merge. -/
def mergedAnnotation?
    (n : NodeId) : Option Annotation :=
  let own := ownAnnotation? eligibility dialect t facts n
  let child := childAnnotation? eligibility dialect t facts n
  if n ∈ eligibility.targets t then
    if t.isIdentifier n then own.or child else child.or own
  else none

end ClosedForm

------------------------------------------------------------
-- Targets
------------------------------------------------------------

section Targets

variable {eligibility : Eligibility}
variable {dialect : Dialect}
variable {t : Tree}
variable {facts : FactMap}
variable {n : NodeId}

/- Annotations do not decide who is a target. -/
@[simp]
theorem Eligibility.targets_clearAnnotations :
    eligibility.targets t.clearAnnotations =
      eligibility.targets t := by
  have hAdmits :
      eligibility.admits t.clearAnnotations =
        eligibility.admits t := by
    funext id
    unfold Eligibility.admits
    rw [Tree.get?_clearAnnotations]
    cases t.get? id with
    | none => rfl
    | some m =>
        obtain ⟨kind, _, parent, _, _⟩ := m
        cases parent with
        | none => rfl
        | some p =>
            exact congrArg (eligibility.isEligible kind)
              (t.kind?_clearAnnotations p)
  rw [Eligibility.targets, hAdmits,
    Tree.preorder_clearAnnotations, ← Eligibility.targets]

theorem Eligibility.mem_preorder_of_mem_targets
    (h : n ∈ eligibility.targets t) :
    n ∈ t.preorder :=
  (List.mem_filter.1 h).1

/- No node is a target twice. -/
theorem Eligibility.nodup_targets
    (hLinked : t.Linked) :
    (eligibility.targets t).Nodup :=
  hLinked.nodup_preorder.sublist List.filter_sublist

/- A target is in the table. -/
theorem Eligibility.exists_node_of_mem_targets
    (h : n ∈ eligibility.targets t) :
    ∃ m, t.get? n = some m := by
  have hAdmits := (List.mem_filter.1 h).2
  unfold Eligibility.admits at hAdmits
  cases hNode : t.get? n with
  | none => simp [hNode] at hAdmits
  | some m => exact ⟨m, rfl⟩

/- What is no target has nothing of its own to show. -/
theorem ownAnnotation?_of_not_mem
    (h : n ∉ eligibility.targets t) :
    ownAnnotation? eligibility dialect t facts n = none := by
  simp [ownAnnotation?, h]

/- Nor has what there is no fact for. -/
theorem ownAnnotation?_of_getElem?
    (h : facts[n]?.isSome = false) :
    ownAnnotation? eligibility dialect t facts n = none := by
  rw [Option.isSome_eq_false_iff,
    Option.isNone_iff_eq_none] at h
  simp [ownAnnotation?, h]

/- Searching only where there is something to find. -/
theorem findSome?_filter
    {α β : Type}
    {q : α → Bool}
    {f g : α → Option β}
    {xs : List α}
    (hKept : ∀ x ∈ xs, q x = true → f x = g x)
    (hLeft : ∀ x ∈ xs, q x = false → g x = none) :
    (xs.filter q).findSome? f = xs.findSome? g := by
  induction xs with
  | nil => rfl
  | cons x xs ih =>
      have hRest :=
        ih (fun y hMem => hKept y (by simp [hMem]))
          (fun y hMem => hLeft y (by simp [hMem]))
      cases hHead : q x with
      | true =>
          rw [List.filter_cons_of_pos hHead,
            List.findSome?_cons, List.findSome?_cons, hRest,
            hKept x (by simp) hHead]
      | false =>
          rw [List.filter_cons_of_neg (by simp [hHead]),
            List.findSome?_cons, hRest,
            hLeft x (by simp) hHead]

/-
  Among the visited identifiers, those that pass something on
  to a node stand in the order of its fields, so the first of
  them is its first child that has something to show.
-/
theorem findSome?_identifiers
    (hLinked : t.Linked)
    (hNode : n ∈ t.preorder) :
    ((eligibility.targets t).filter (fun c =>
        t.isIdentifier c && facts[c]?.isSome)).findSome?
      (fun c =>
        if t.parent? c = some n then
          ownAnnotation? eligibility dialect t facts c
        else none) =
      childAnnotation? eligibility dialect t facts n := by
  let own := ownAnnotation? eligibility dialect t facts
  let found : NodeId → Option Annotation := fun c =>
    if t.parent? c = some n ∧ t.isIdentifier c = true then
      own c
    else none
  have hSilent : ∀ c, own c = none → found c = none := by
    intro c hNone
    simp [found, hNone]
  calc
    _ = (eligibility.targets t).findSome? found := by
      apply findSome?_filter
      · intro c _ hKept
        simp only [Bool.and_eq_true] at hKept
        simp [found, own, hKept.1]
      · intro c _ hLeft
        rw [Bool.and_eq_false_iff] at hLeft
        rcases hLeft with hOther | hNone
        · simp [found, hOther]
        · exact hSilent c (ownAnnotation?_of_getElem? hNone)
    _ = t.preorder.findSome? found := by
      apply findSome?_filter
      · exact fun _ _ _ => rfl
      · intro c _ hLeft
        apply hSilent c
        apply ownAnnotation?_of_not_mem
        simp [Eligibility.targets, hLeft]
    _ = (t.preorder.filter
          (fun c => t.parent? c = some n)).findSome?
          (fun c =>
            if t.isIdentifier c then own c else none) := by
      symm
      apply findSome?_filter
      · intro c _ hKept
        simp [found, of_decide_eq_true hKept]
      · intro c _ hLeft
        simp [found, of_decide_eq_false hLeft]
    _ = childAnnotation? eligibility dialect t facts n := by
      rw [hLinked.filter_preorder hNode]
      rfl

------------------------------------------------------------
-- The Facts that Are Visited
------------------------------------------------------------

/- What is visited: a target with its entry and its fact. -/
theorem mem_of_targetsOf_iff
    {ids : List NodeId}
    {f : Target × TypeFact} :
    f ∈ facts.of (t.targetsOf ids) ↔
      f.1.id ∈ ids ∧ t.get? f.1.id = some f.1.node ∧
        facts[f.1.id]? = some f.2 := by
  rcases f with ⟨⟨id, node⟩, fact⟩
  simp only [FactMap.of, Tree.targetsOf, List.mem_filterMap,
    Option.map_eq_some_iff, Prod.mk.injEq]
  constructor
  · rintro ⟨_, ⟨i, hMem, m, hNode, rfl⟩, g, hFact, hEq, rfl⟩
    cases hEq
    exact ⟨hMem, hNode, hFact⟩
  · rintro ⟨hMem, hNode, hFact⟩
    exact ⟨⟨id, node⟩, ⟨id, hMem, node, hNode, rfl⟩,
      fact, hFact, rfl, rfl⟩

/-
  The ids of those visits whose entry passes a test, in the
  order of the targets.
-/
theorem factIds_filter
    (test : Node → Bool)
    (ids : List NodeId) :
    factIds
        ((facts.of (t.targetsOf ids)).filter
          (fun f => test f.1.node)) =
      ids.filter (fun id =>
        (t.get? id).any test && facts[id]?.isSome) := by
  induction ids with
  | nil => rfl
  | cons id ids ih =>
      simp only [FactMap.of, Tree.targetsOf] at ih
      cases hNode : t.get? id with
      | none =>
          simp only [FactMap.of, Tree.targetsOf,
            List.filterMap_cons, hNode, Option.map_none,
            ih, List.filter_cons, Option.any_none,
            Bool.false_and, Bool.false_eq_true, if_false]
      | some m =>
          cases hFact : facts[id]? with
          | none =>
              simp only [FactMap.of, Tree.targetsOf,
                List.filterMap_cons, hNode, hFact,
                Option.map_some, Option.map_none, ih,
                List.filter_cons, Option.isSome_none,
                Bool.and_false, Bool.false_eq_true, if_false]
          | some g =>
              simp only [FactMap.of, Tree.targetsOf,
                List.filterMap_cons, hNode, hFact,
                Option.map_some, List.filter_cons,
                Option.any_some, Option.isSome_some,
                Bool.and_true]
              split
              · rw [factIds_cons, ih]
              · exact ih

/- What is visited is a sublist of the targets. -/
theorem factIds_sublist
    (ids : List NodeId) :
    (factIds (facts.of (t.targetsOf ids))).Sublist ids := by
  have hAll :=
    @factIds_filter t facts (fun _ => true) ids
  simp only [List.filter_true] at hAll
  rw [hAll]
  exact List.filter_sublist

------------------------------------------------------------
-- The Merge
------------------------------------------------------------

/-
  After the first pass a target shows its own annotation if it
  is an identifier, or else that of a child.
-/
theorem firstPass_of_target
    (hLinked : t.Linked)
    (hTarget : n ∈ eligibility.targets t) :
    firstPass t (eligibility.targets t).contains
        (ownAnnotation? eligibility dialect t facts)
        ((eligibility.targets t).filter (fun c =>
          t.isIdentifier c && facts[c]?.isSome)) n =
      (if t.isIdentifier n then
        ownAnnotation? eligibility dialect t facts n
      else none).or
        (childAnnotation? eligibility dialect t facts n) := by
  have hContains :
      (eligibility.targets t).contains n = true := by
    simpa using hTarget
  rw [firstPass, if_pos hContains,
    findSome?_identifiers hLinked
      (Eligibility.mem_preorder_of_mem_targets hTarget)]
  simp only [List.mem_filter, hTarget, true_and,
    Bool.and_eq_true]
  cases hKind : t.isIdentifier n with
  | false => simp
  | true =>
      cases hFact : facts[n]?.isSome with
      | false =>
          simp [ownAnnotation?_of_getElem? hFact]
      | true => simp

/-
  What the two passes leave is the closed form.
-/
theorem passes_eq_mergedAnnotation?
    (hLinked : t.Linked)
    (n : NodeId) :
    (firstPass t (eligibility.targets t).contains
        (ownAnnotation? eligibility dialect t facts)
        ((eligibility.targets t).filter (fun c =>
          t.isIdentifier c && facts[c]?.isSome)) n).or
      (if n ∈ (eligibility.targets t).filter (fun c =>
          !t.isIdentifier c && facts[c]?.isSome) then
        ownAnnotation? eligibility dialect t facts n
      else none) =
      mergedAnnotation? eligibility dialect t facts n := by
  by_cases hTarget : n ∈ eligibility.targets t
  · rw [firstPass_of_target hLinked hTarget,
      mergedAnnotation?, if_pos hTarget]
    simp only [List.mem_filter, hTarget, true_and,
      Bool.and_eq_true]
    cases hKind : t.isIdentifier n with
    | true => simp
    | false =>
        cases hFact : facts[n]?.isSome with
        | false =>
            simp [ownAnnotation?_of_getElem? hFact]
        | true => simp
  · have hContains :
        (eligibility.targets t).contains n = false := by
      simpa using hTarget
    simp only [firstPass, mergedAnnotation?, hContains,
      List.mem_filter, hTarget, false_and, if_false,
      Bool.false_eq_true, Option.or_none]

/- The identifiers among the targets that are visited. -/
theorem factIds_identifiers :
    factIds
        ((facts.of (t.clearAnnotations.targetsOf
          (eligibility.targets t))).filter
            (fun f => f.1.isIdentifier)) =
      (eligibility.targets t).filter (fun c =>
        t.isIdentifier c && facts[c]?.isSome) := by
  refine (factIds_filter
    (fun m => m.kind = NodeKind.identifier) _).trans ?_
  apply List.filter_congr
  intro c _
  cases hNode : t.get? c <;>
    simp [Tree.isIdentifier, Tree.kind?, hNode]

/- The other targets that are visited. -/
theorem factIds_others :
    factIds
        ((facts.of (t.clearAnnotations.targetsOf
          (eligibility.targets t))).filter
            (fun f => !f.1.isIdentifier)) =
      (eligibility.targets t).filter (fun c =>
        !t.isIdentifier c && facts[c]?.isSome) := by
  refine (factIds_filter
    (fun m => !decide (m.kind = NodeKind.identifier))
    _).trans ?_
  apply List.filter_congr
  intro c hTarget
  rcases Eligibility.exists_node_of_mem_targets hTarget with
    ⟨m, hNode⟩
  simp [Tree.isIdentifier, Tree.kind?, hNode]

/- A target is in the table of a linked tree. -/
theorem lt_size_of_contains
    (hLinked : t.Linked)
    (q : NodeId)
    (hTarget : (eligibility.targets t).contains q = true) :
    q.index < t.size :=
  hLinked.lt_size_of_mem_preorder
    (Eligibility.mem_preorder_of_mem_targets
      (by simpa using hTarget))

/- What is visited is visited in the order of the walk. -/
theorem visits_sublist :
    (factIds (facts.of (t.clearAnnotations.targetsOf
      (eligibility.targets t)))).Sublist t.preorder :=
  (factIds_sublist _).trans List.filter_sublist

/- A node that is visited has the annotation of its fact. -/
theorem own_of_visit
    (hLinked : t.Linked)
    (f : Target × TypeFact)
    (hMem :
      f ∈ facts.of (t.clearAnnotations.targetsOf
        (eligibility.targets t))) :
    ownAnnotation? eligibility dialect t facts f.1.id =
        factAnnotation? dialect f.2 ∧
      f.1.id.index < t.size ∧
      t.parent? f.1.id ≠ some f.1.id := by
  rcases mem_of_targetsOf_iff.1 hMem with
    ⟨hTarget, -, hFact⟩
  have hWalked :=
    Eligibility.mem_preorder_of_mem_targets hTarget
  refine ⟨?_, hLinked.lt_size_of_mem_preorder hWalked,
    hLinked.own_of_mem_preorder hWalked⟩
  simp [ownAnnotation?, hTarget, hFact]

/- Annotating a cleared tree gives the closed form. -/
theorem shows_mergeCollected
    (hLinked : t.Linked)
    (file : String)
    (collected : Collected) :
    (mergeCollected dialect file t.clearAnnotations
        (eligibility.targets t) collected).Shows t
      (mergedAnnotation? eligibility dialect t
        collected.facts) := by
  refine Progress.Shows.congr
    (shows_annotateAll
      (ownAnnotation? eligibility dialect t collected.facts)
      ?_ (lt_size_of_contains hLinked)
      (own_of_visit hLinked)
      (hLinked.nodup_preorder.sublist visits_sublist)
      (hLinked.parents_first_preorder.sublist
        visits_sublist)) ?_
  · exact ⟨t.clearAnnotations_clearAnnotations,
      t.annotation?_clearAnnotations⟩
  · intro n
    rw [factIds_identifiers, factIds_others]
    exact (passes_eq_mergedAnnotation? hLinked n).symm

end Targets

/- The result of a merge whose source answers. -/
theorem run_mergeFrom
    {source : FactSource}
    {eligibility : Eligibility}
    {file : String}
    {engine : Engine}
    {t : Tree}
    {collected : Collected}
    (dialect : Dialect)
    (hAvailable : (source.available.run engine).1 = .ok ())
    (hCollected :
      ((source.collect file t.clearAnnotations
        (eligibility.targets t)).run engine).1 =
        .ok collected) :
    ((mergeFrom source eligibility dialect file t).run
      engine).1.result =
      .ok
        ⟨(mergeCollected dialect file t.clearAnnotations
            (eligibility.targets t) collected).tree,
          (mergeCollected dialect file t.clearAnnotations
            (eligibility.targets t) collected).stats⟩ := by
  simp only [mergeFrom, mergeCleared, Dialogue.run_andThen,
    hAvailable, Eligibility.targets_clearAnnotations,
    hCollected, Dialogue.run]

/-
  A merge whose source is available and collects facts comes
  to an end, leaves everything but annotations as it was, and
  annotates each node by the closed form.
-/
theorem annotation_of_mergeFrom
    {source : FactSource}
    {eligibility : Eligibility}
    {file : String}
    {engine : Engine}
    {t : Tree}
    {collected : Collected}
    (hTree : t.Produced)
    (dialect : Dialect)
    (hAvailable : (source.available.run engine).1 = .ok ())
    (hCollected :
      ((source.collect file t.clearAnnotations
        (eligibility.targets t)).run engine).1 =
        .ok collected) :
    ∃ merged,
      ((mergeFrom source eligibility dialect file t).run
        engine).1.result = .ok merged ∧
      merged.tree.clearAnnotations = t.clearAnnotations ∧
      ∀ n,
        merged.tree.annotation? n =
          mergedAnnotation? eligibility dialect t
            collected.facts n := by
  have hShows :=
    @shows_mergeCollected eligibility dialect t hTree.linked
      file collected
  exact ⟨_, run_mergeFrom dialect hAvailable hCollected,
    hShows.links, hShows.annotation⟩

/- A declarator of two identifiers, one with another in it. -/
def nestedSteps : List BuildStep :=
  [.child Tree.root "body" (.ofName "VariableDeclarator")
      (.onLine 1 0 9),
    .child ⟨1⟩ "id" .identifier (.onLine 1 0 4),
    .child ⟨1⟩ "init" .identifier (.onLine 1 6 9),
    .child ⟨2⟩ "key" .identifier (.onLine 1 2 4)]

/- Facts for all of these but the first identifier. -/
def nestedFacts : List TypeFact :=
  [⟨.onLine 1 0 9, "boolean", []⟩,
    ⟨.onLine 1 6 9, "number", []⟩,
    ⟨.onLine 1 2 4, "string", []⟩]

/-
  The declarator shows what its second identifier says, since
  the first one has nothing of its own to say.
-/
theorem annotation_of_mergeFrom_nested :
    ∃ t merged,
      Tree.build? (.ofName "Program") (.onLine 1 0 9) nestedSteps =
        some t ∧
      ((mergeFrom (.ofEngine .bulk "snapshot") {} {} "a.js"
          t).run (Snapshot.engine ⟨nestedFacts⟩)).1.result =
        .ok merged ∧
      (List.range 5).map (fun i =>
          (merged.tree.annotation? ⟨i⟩).map
            (fun a => a.type.text)) =
        [none, some "number", some "string", some "number",
          some "string"] := by
  have hTexts :
      (Tree.build? (.ofName "Program") (.onLine 1 0 9)
          nestedSteps).map (fun t =>
        (List.range 5).map (fun i =>
          (mergedAnnotation? {} {} t
            (collectBulk
              (t.clearAnnotations.targetsOf
                (({} : Eligibility).targets t))
              nestedFacts).facts ⟨i⟩).map
            (fun a => a.type.text))) =
        some [none, some "number", some "string",
          some "number", some "string"] := by
    decide +kernel
  rcases Option.map_eq_some_iff.1 hTexts with
    ⟨t, hBuild, hShown⟩
  have hAvailable :
      ((FactSource.ofEngine .bulk "snapshot").available.run
        (Snapshot.engine ⟨nestedFacts⟩)).1 = .ok () := rfl
  rcases annotation_of_mergeFrom (.built hBuild) {} hAvailable
      (show (((FactSource.ofEngine .bulk "snapshot").collect
        "a.js" t.clearAnnotations
          (({} : Eligibility).targets t)).run _).1 = _ from rfl)
    with ⟨merged, hResult, -, hMergedShows⟩
  refine ⟨t, merged, hBuild, hResult, ?_⟩
  rw [← hShown]
  simp only [hMergedShows]

end TypeGraft
