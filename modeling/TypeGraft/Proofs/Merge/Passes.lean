import TypeGraft.Merge.Run
import TypeGraft.Proofs.Tree.Views

/-
  What the two passes of a merge write.

  The first pass visits identifiers.  A node it has visited
  shows its own annotation; a target that has none of its own
  yet shows that of the first visited identifier below it.
  This holds after every visit as long as no node is visited
  twice, or after a child of it.  The second pass fills in the
  targets that still show nothing.

  Key definitions include:
    * `factAnnotation?`
    * `Progress.Shows`
    * `firstPass`
    * `MergeStats.collected`

  Main declarations:
    * `Progress.Shows.visitIdentifier`
    * `Progress.Shows.visitOther`
    * `shows_identifiers`
    * `shows_others`
    * `shows_annotateAll`
    * `collected_mergeCollected`
-/

namespace TypeGraft

/- The annotation that a fact makes, if it states a type. -/
def factAnnotation?
    (dialect : Dialect)
    (fact : TypeFact) : Option Annotation :=
  match resolve dialect fact with
  | .ok (some type) => some (.ofFact fact type)
  | _ => none

------------------------------------------------------------
-- One Visit
------------------------------------------------------------

namespace Progress

/-
  The tree on its way is `t` but for annotations, and shows
  these.
-/
structure Shows
    (t : Tree)
    (shown : NodeId → Option Annotation)
    (p : Progress) : Prop where
  links : p.tree.clearAnnotations = t.clearAnnotations
  annotation : ∀ n, p.tree.annotation? n = shown n

namespace Shows

variable {t : Tree}
variable {shown : NodeId → Option Annotation}
variable {p : Progress}
variable {dialect : Dialect}
variable {file : String}
variable {isTarget : NodeId → Bool}
variable {target : Target}
variable {fact : TypeFact}

/- The same tree with something else beside it. -/
theorem of_tree
    {q : Progress}
    (h : p.Shows t shown)
    (hTree : q.tree = p.tree) :
    q.Shows t shown :=
  ⟨hTree ▸ h.links, hTree ▸ h.annotation⟩

/- A tree with one more annotation. -/
theorem annotate
    {q : Progress}
    {id : NodeId}
    {a : Annotation}
    (h : p.Shows t shown)
    (hIn : id.index < t.size)
    (hTree : q.tree = (p.tree.annotate id a).2) :
    q.Shows t
      (fun n => if n = id then some a else shown n) where
  links := by
    rw [hTree, Tree.clearAnnotations_annotate, h.links]
  annotation := by
    intro n
    rw [hTree, Tree.annotation?_annotate _ _ _ _
      (by rwa [Tree.size_eq_of_clear h.links]), h.annotation]

/- What is shown does not depend on how it is described. -/
theorem congr
    {other : NodeId → Option Annotation}
    (h : p.Shows t shown)
    (hSame : ∀ n, other n = shown n) :
    p.Shows t other :=
  ⟨h.links, fun n => (h.annotation n).trans (hSame n).symm⟩

theorem isAnnotated_eq
    (h : p.Shows t shown)
    (id : NodeId) :
    p.isAnnotated id = (shown id).isSome := by
  rw [isAnnotated, h.annotation]

/- Writing to a node that shows nothing yet. -/
theorem write
    (h : p.Shows t shown)
    (hIn : target.id.index < t.size)
    (hNone : shown target.id = none) :
    (p.write dialect file target fact).Shows t
      (fun n =>
        if n = target.id then factAnnotation? dialect fact
        else shown n) := by
  have hUnread :
      factAnnotation? dialect fact = none →
        ∀ n, (if n = target.id then
            factAnnotation? dialect fact
          else shown n) = shown n := by
    intro hFact n
    split
    · rename_i hEq
      rw [hFact, hEq, hNone]
    · rfl
  unfold Progress.write
  split
  · rename_i type hResolve
    refine (h.annotate hIn rfl).congr ?_
    simp [factAnnotation?, hResolve]
  · rename_i hResolve
    refine (h.congr (hUnread ?_)).of_tree rfl
    simp [factAnnotation?, hResolve]
  · rename_i e hResolve
    refine (h.congr (hUnread ?_)).of_tree rfl
    simp [factAnnotation?, hResolve]

/- Passing on what a node shows. -/
theorem propagate
    {id : NodeId}
    (h : p.Shows t shown)
    (hTargets : ∀ q, isTarget q = true → q.index < t.size) :
    (p.propagate isTarget id).Shows t
      (fun n =>
        if t.parent? id = some n ∧ isTarget n = true then
          (shown n).or (shown id)
        else shown n) := by
  have hParent := @Tree.parent?_eq_of_clear _ _ id h.links
  have hShown := h.annotation id
  unfold Progress.propagate
  split
  · rename_i q a hLink hOwn
    rw [hParent] at hLink
    rw [hShown] at hOwn
    split
    · rename_i hFree
      simp only [Bool.and_eq_true, Bool.not_eq_true',
        h.isAnnotated_eq, Option.isSome_eq_false_iff,
        Option.isNone_iff_eq_none] at hFree
      refine (h.annotate (hTargets q hFree.1) rfl).congr ?_
      intro n
      by_cases hEq : n = q
      · subst hEq
        simp [hLink, hFree, hOwn]
      · have hNe : q ≠ n := Ne.symm hEq
        simp [hLink, hEq, hNe]
    · rename_i hTaken
      refine h.congr ?_
      intro n
      split
      · rename_i hHere
        rw [hLink] at hHere
        cases hHere.1
        simp only [hHere.2, Bool.true_and, Bool.not_eq_true',
          h.isAnnotated_eq, Bool.not_eq_false] at hTaken
        exact Option.or_of_isSome hTaken
      · rfl
  · rename_i hNot
    refine h.congr ?_
    intro n
    split
    · rename_i hHere
      cases hOwn : shown id with
      | none => exact Option.or_none
      | some a =>
          exact (hNot n a (hParent.trans hHere.1)
            (hShown.trans hOwn)).elim
    · rfl

/- Visiting an identifier that shows nothing yet. -/
theorem visitIdentifier
    (h : p.Shows t shown)
    (hIn : target.id.index < t.size)
    (hTargets : ∀ q, isTarget q = true → q.index < t.size)
    (hNone : shown target.id = none)
    (hOwn : t.parent? target.id ≠ some target.id) :
    (p.visitIdentifier dialect file isTarget target
      fact).Shows t
      (fun n =>
        if n = target.id then factAnnotation? dialect fact
        else if t.parent? target.id = some n ∧
          isTarget n = true then
          (shown n).or (factAnnotation? dialect fact)
        else shown n) := by
  have hFree : p.isAnnotated target.id = false := by
    rw [h.isAnnotated_eq, hNone]
    rfl
  rw [Progress.visitIdentifier, hFree,
    if_neg (by decide)]
  refine ((h.write hIn hNone).propagate hTargets).congr ?_
  intro n
  by_cases hEq : n = target.id
  · subst hEq
    simp [hOwn]
  · simp [hEq]

/- Visiting any other target. -/
theorem visitOther
    (h : p.Shows t shown)
    (hIn : target.id.index < t.size) :
    (p.visitOther dialect file target fact).Shows t
      (fun n =>
        if n = target.id then
          (shown n).or (factAnnotation? dialect fact)
        else shown n) := by
  unfold Progress.visitOther
  split
  · rename_i hTaken
    refine h.congr ?_
    intro n
    split
    · rename_i hEq
      rw [hEq]
      rw [h.isAnnotated_eq] at hTaken
      exact Option.or_of_isSome hTaken
    · rfl
  · rename_i hFree
    rw [h.isAnnotated_eq, Bool.not_eq_true,
      Option.isSome_eq_false_iff,
      Option.isNone_iff_eq_none] at hFree
    refine (h.write hIn hFree).congr ?_
    intro n
    split
    · rename_i hEq
      rw [hEq, hFree, Option.none_or]
    · rfl

end Shows

end Progress

------------------------------------------------------------
-- Whole Passes
------------------------------------------------------------

/-
  What is shown once some identifiers have been visited, where
  `own` is what each of them has to say.
-/
def firstPass
    (t : Tree)
    (isTarget : NodeId → Bool)
    (own : NodeId → Option Annotation)
    (visited : List NodeId)
    (n : NodeId) : Option Annotation :=
  (if n ∈ visited then own n else none).or
    (if isTarget n then
      visited.findSome? (fun c =>
        if t.parent? c = some n then own c else none)
    else none)

section Passes

variable {t : Tree}
variable {own : NodeId → Option Annotation}
variable {isTarget : NodeId → Bool}
variable {visited : List NodeId}
variable {id : NodeId}

/- Where nothing was visited, nor any child, nothing is shown. -/
theorem firstPass_eq_none
    (hNew : id ∉ visited)
    (hFirst : ∀ c ∈ visited, t.parent? c ≠ some id) :
    firstPass t isTarget own visited id = none := by
  have hChildren :
      visited.findSome? (fun c =>
        if t.parent? c = some id then own c else none) =
        none := by
    rw [List.findSome?_eq_none_iff]
    intro c hMem
    rw [if_neg (hFirst c hMem)]
  simp [firstPass, hNew, hChildren]

/- What one more visit changes. -/
theorem firstPass_concat
    (hNew : id ∉ visited)
    (hFirst : ∀ c ∈ visited, t.parent? c ≠ some id)
    (hSelf : t.parent? id ≠ some id)
    (n : NodeId) :
    firstPass t isTarget own (visited ++ [id]) n =
      if n = id then own id
      else if t.parent? id = some n ∧ isTarget n = true then
        (firstPass t isTarget own visited n).or (own id)
      else firstPass t isTarget own visited n := by
  by_cases hEq : n = id
  · subst hEq
    have hNone := @firstPass_eq_none _ own isTarget _ _ hNew hFirst
    simp only [firstPass, hNew, if_false,
      Option.none_or] at hNone
    simp only [firstPass, List.mem_append,
      List.mem_singleton, or_true, if_true,
      List.findSome?_append, List.findSome?_singleton,
      if_neg hSelf, Option.or_none, hNone]
  · rw [if_neg hEq]
    simp only [firstPass, List.mem_append,
      List.mem_singleton, hEq, or_false,
      List.findSome?_append, List.findSome?_singleton]
    by_cases hLink : t.parent? id = some n
    · by_cases hTarget : isTarget n = true
      · simp [hLink, hTarget, Option.or_assoc]
      · simp [hTarget]
    · simp [hLink]

variable {dialect : Dialect}
variable {file : String}
variable {p : Progress}
variable {facts : List (Target × TypeFact)}

/- The ids of the nodes that some facts are for. -/
def factIds
    (facts : List (Target × TypeFact)) : List NodeId :=
  facts.map (fun f => f.1.id)

theorem factIds_cons
    (f : Target × TypeFact) :
    factIds (f :: facts) = f.1.id :: factIds facts := rfl

/-
  The first pass.  The invariant is that what is shown is
  `firstPass` of the nodes visited so far: a node about to be
  visited shows nothing, since neither it nor a child of it
  has been visited.
-/
theorem shows_identifiers
    (hStart :
      p.Shows t (firstPass t isTarget own visited))
    (hTargets : ∀ q, isTarget q = true → q.index < t.size)
    (hFacts :
      ∀ f ∈ facts,
        own f.1.id = factAnnotation? dialect f.2 ∧
          f.1.id.index < t.size ∧
          t.parent? f.1.id ≠ some f.1.id)
    (hNodup : (visited ++ factIds facts).Nodup)
    (hFirst :
      (visited ++ factIds facts).Pairwise
        (fun x y => t.parent? x ≠ some y)) :
    (facts.foldl (fun p f =>
        p.visitIdentifier dialect file isTarget f.1 f.2)
      p).Shows t
      (firstPass t isTarget own
        (visited ++ factIds facts)) := by
  induction facts generalizing p visited with
  | nil => simpa [factIds] using hStart
  | cons f facts ih =>
      rcases hFacts f (by simp) with ⟨hOwn, hIn, hSelf⟩
      have hSplit :
          visited ++ factIds (f :: facts) =
            (visited ++ [f.1.id]) ++ factIds facts := by
        simp [factIds]
      rw [hSplit] at hNodup hFirst ⊢
      have hNew : f.1.id ∉ visited := by
        intro hMem
        exact (List.nodup_append.1
          (List.nodup_append.1 hNodup).1).2.2 _ hMem _
            (by simp) rfl
      have hBefore :
          ∀ c ∈ visited, t.parent? c ≠ some f.1.id := by
        intro c hMem
        exact (List.pairwise_append.1
          (List.pairwise_append.1 hFirst).1).2.2 c hMem _
            (by simp)
      rw [List.foldl_cons]
      refine ih ?_ (fun g hMem => hFacts g (by simp [hMem]))
        hNodup hFirst
      refine (hStart.visitIdentifier hIn hTargets
        (firstPass_eq_none hNew hBefore) hSelf).congr ?_
      intro n
      rw [← hOwn]
      exact firstPass_concat hNew hBefore hSelf n

/-
  The second pass fills in what shows nothing.
-/
theorem shows_others
    {shown : NodeId → Option Annotation}
    (hStart : p.Shows t shown)
    (hFacts :
      ∀ f ∈ facts,
        own f.1.id = factAnnotation? dialect f.2 ∧
          f.1.id.index < t.size) :
    (facts.foldl (fun p f =>
        p.visitOther dialect file f.1 f.2) p).Shows t
      (fun n =>
        (shown n).or
          (if n ∈ factIds facts then own n else none)) := by
  induction facts generalizing p shown with
  | nil =>
      refine hStart.congr ?_
      simp [factIds]
  | cons f facts ih =>
      rcases hFacts f (by simp) with ⟨hOwn, hIn⟩
      rw [List.foldl_cons]
      refine (ih (hStart.visitOther hIn)
        (fun g hMem => hFacts g (by simp [hMem]))).congr ?_
      intro n
      rw [← hOwn]
      rw [factIds_cons]
      by_cases hEq : n = f.1.id
      · subst hEq
        by_cases hMem : f.1.id ∈ factIds facts
        · simp [hMem, Option.or_assoc]
        · simp [hMem]
      · simp [hEq]

/- Both passes, one after the other. -/
theorem shows_annotateAll
    (own : NodeId → Option Annotation)
    (hStart : p.Shows t (fun _ => none))
    (hTargets : ∀ q, isTarget q = true → q.index < t.size)
    (hFacts :
      ∀ f ∈ facts,
        own f.1.id = factAnnotation? dialect f.2 ∧
          f.1.id.index < t.size ∧
          t.parent? f.1.id ≠ some f.1.id)
    (hNodup : (factIds facts).Nodup)
    (hFirst :
      (factIds facts).Pairwise
        (fun x y => t.parent? x ≠ some y)) :
    (annotateAll dialect file isTarget facts p).Shows t
      (fun n =>
        (firstPass t isTarget own
            (factIds
              (facts.filter (fun f => f.1.isIdentifier)))
            n).or
          (if n ∈ factIds
              (facts.filter (fun f => !f.1.isIdentifier)) then
            own n
          else none)) := by
  have hSublist :
      (factIds
        (facts.filter (fun f => f.1.isIdentifier))).Sublist
        (factIds facts) :=
    List.filter_sublist.map _
  have hIdentifiers :=
    @shows_identifiers t own isTarget [] dialect file p
      (facts.filter (fun f => f.1.isIdentifier))
      (hStart.congr (by simp [firstPass])) hTargets
      (fun f hMem => hFacts f (List.mem_filter.1 hMem).1)
      (hNodup.sublist hSublist) (hFirst.sublist hSublist)
  exact shows_others hIdentifiers
    (fun f hMem =>
      ⟨(hFacts f (List.mem_filter.1 hMem).1).1,
        (hFacts f (List.mem_filter.1 hMem).1).2.1⟩)

end Passes

------------------------------------------------------------
-- Counters
------------------------------------------------------------

/- The counters that are final before anything is written. -/
def MergeStats.collected
    (s : MergeStats) : MergeStats :=
  { s with
    annotated := 0
    propagated := 0
    unknown := 0
    failed := 0 }

section Counters

variable {dialect : Dialect}
variable {file : String}
variable {isTarget : NodeId → Bool}
variable {p : Progress}
variable {target : Target}
variable {fact : TypeFact}

namespace Progress

theorem collected_write :
    (p.write dialect file target fact).stats.collected =
      p.stats.collected := by
  unfold write
  split <;> rfl

theorem collected_propagate
    {id : NodeId} :
    (p.propagate isTarget id).stats.collected =
      p.stats.collected := by
  unfold propagate
  split
  · split <;> rfl
  · rfl

theorem collected_visitIdentifier :
    (p.visitIdentifier dialect file isTarget target
      fact).stats.collected = p.stats.collected := by
  unfold visitIdentifier
  split
  · rfl
  · rw [collected_propagate, collected_write]

theorem collected_visitOther :
    (p.visitOther dialect file target fact).stats.collected =
      p.stats.collected := by
  unfold visitOther
  split
  · rfl
  · rw [collected_write]

end Progress

/- Neither pass changes them. -/
theorem collected_annotateAll
    (facts : List (Target × TypeFact)) :
    (annotateAll dialect file isTarget facts
      p).stats.collected = p.stats.collected := by
  have hIdentifiers :
      ∀ (fs : List (Target × TypeFact)) (q : Progress),
        (fs.foldl (fun q f =>
          q.visitIdentifier dialect file isTarget f.1 f.2)
          q).stats.collected = q.stats.collected := by
    intro fs
    induction fs with
    | nil => exact fun _ => rfl
    | cons f fs ih =>
        intro q
        rw [List.foldl_cons, ih,
          Progress.collected_visitIdentifier]
  have hOthers :
      ∀ (fs : List (Target × TypeFact)) (q : Progress),
        (fs.foldl (fun q f =>
          q.visitOther dialect file f.1 f.2)
          q).stats.collected = q.stats.collected := by
    intro fs
    induction fs with
    | nil => exact fun _ => rfl
    | cons f fs ih =>
        intro q
        rw [List.foldl_cons, ih, Progress.collected_visitOther]
  rw [annotateAll, hOthers, hIdentifiers]

/- They count the targets and what was collected for them. -/
theorem collected_mergeCollected
    (t : Tree)
    (targets : List NodeId)
    (c : Collected) :
    (mergeCollected dialect file t targets
      c).stats.collected =
      { eligible := targets.length
        engineCalls := c.engineCalls
        factsFound := c.facts.size
        failedQueries := c.failedQueries } := by
  rw [mergeCollected, collected_annotateAll]
  rfl

end Counters

end TypeGraft
