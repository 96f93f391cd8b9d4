import Mathlib.Data.List.Induction
import Mathlib.Data.List.Nodup
import TypeGraft.Proofs.Merge.ClosedForm

/-
  What the two passes of a merge count.

  An annotation is only ever written to a node that shows
  none, so as many nodes are annotated in the end as the
  counters say were written.  A fact that is looked at counts
  once: it states a type, says nothing or cannot be read.  The
  first pass looks at every fact of an identifier, for nothing
  is passed on to an identifier before it is visited.  The
  second pass leaves out just those facts whose node shows what
  an identifier below it has passed on.

  Key definitions include:
    * `MergeStats.resolved`
    * `MergeStats.written`
    * `Progress.Balanced`
    * `yieldsToChild`

  Main declarations:
    * `Tree.length_annotated_annotate`
    * `balanced_annotateAll`
    * `resolved_annotateAll`
    * `resolved_mergeCollected`
    * `balanced_mergeCollected`
-/

namespace TypeGraft

namespace MergeStats

/- How many facts were looked at. -/
def resolved
    (s : MergeStats) : Nat :=
  s.annotated + s.unknown + s.failed

/- How many annotations were written. -/
def written
    (s : MergeStats) : Nat :=
  s.annotated + s.propagated

end MergeStats

------------------------------------------------------------
-- Annotated Nodes
------------------------------------------------------------

namespace Tree

variable {t : Tree}
variable {id n : NodeId}

theorem mem_annotated_iff :
    n ∈ t.annotated ↔ (t.annotation? n).isSome = true := by
  simp only [annotated, List.mem_filterMap, List.mem_range]
  constructor
  · rintro ⟨i, -, hSome⟩
    split at hSome
    · rename_i hShown
      cases hSome
      exact hShown
    · cases hSome
  · intro hShown
    refine ⟨n.index, ?_, if_pos hShown⟩
    by_contra hOut
    rw [annotation?_eq_none (by omega)] at hShown
    cases hShown

theorem nodup_annotated : t.annotated.Nodup := by
  apply List.nodup_range.filterMap
  intro i j id hFirst hSecond
  simp only [Option.mem_def, Option.ite_none_right_eq_some,
    Option.some.injEq] at hFirst hSecond
  exact congrArg NodeId.index (hFirst.2.trans hSecond.2.symm)

/- One more annotation makes one more annotated node. -/
theorem length_annotated_annotate
    (hIn : id.index < t.size)
    (hFree : t.annotation? id = none)
    (a : Annotation) :
    (t.annotate id a).2.annotated.length =
      t.annotated.length + 1 := by
  have hNew : id ∉ t.annotated := by
    simp [mem_annotated_iff, hFree]
  have hPerm :
      (t.annotate id a).2.annotated.Perm (id :: t.annotated) := by
    rw [List.perm_ext_iff_of_nodup nodup_annotated
      (List.nodup_cons.2 ⟨hNew, nodup_annotated⟩)]
    intro n
    rw [List.mem_cons, mem_annotated_iff, mem_annotated_iff,
      annotation?_annotate _ _ _ _ hIn]
    by_cases hEq : n = id
    · simp [hEq]
    · simp [hEq]
  exact hPerm.length_eq

end Tree

------------------------------------------------------------
-- Written Annotations
------------------------------------------------------------

namespace Progress

/-
  The tree on its way is `t` but for annotations, and has as
  many of these as were written.
-/
structure Balanced
    (t : Tree)
    (p : Progress) : Prop where
  links : p.tree.clearAnnotations = t.clearAnnotations
  written : p.tree.annotated.length = p.stats.written

namespace Balanced

variable {t : Tree}
variable {p q : Progress}
variable {dialect : Dialect}
variable {file : String}
variable {isTarget : NodeId → Bool}
variable {target : Target}
variable {fact : TypeFact}

/- Nothing is written. -/
theorem keep
    (h : p.Balanced t)
    (hTree : q.tree = p.tree)
    (hStats : q.stats.written = p.stats.written) :
    q.Balanced t :=
  ⟨hTree ▸ h.links, by rw [hTree, hStats, h.written]⟩

/- One annotation is written to a node that shows none. -/
theorem annotate
    {id : NodeId}
    {a : Annotation}
    (h : p.Balanced t)
    (hIn : id.index < t.size)
    (hFree : p.isAnnotated id = false)
    (hTree : q.tree = (p.tree.annotate id a).2)
    (hStats : q.stats.written = p.stats.written + 1) :
    q.Balanced t where
  links := by
    rw [hTree, Tree.clearAnnotations_annotate, h.links]
  written := by
    have hNone : p.tree.annotation? id = none := by
      simpa [isAnnotated] using hFree
    rw [hTree, hStats, ← h.written]
    exact Tree.length_annotated_annotate
      (by rwa [Tree.size_eq_of_clear h.links]) hNone a

theorem write
    (h : p.Balanced t)
    (hIn : target.id.index < t.size)
    (hFree : p.isAnnotated target.id = false) :
    (p.write dialect file target fact).Balanced t := by
  unfold Progress.write
  split
  · refine h.annotate hIn hFree rfl ?_
    simp only [MergeStats.written]
    omega
  · exact h.keep rfl rfl
  · exact h.keep rfl rfl

theorem propagate
    {id : NodeId}
    (h : p.Balanced t)
    (hTargets : ∀ q, isTarget q = true → q.index < t.size) :
    (p.propagate isTarget id).Balanced t := by
  unfold Progress.propagate
  split
  · split
    · rename_i hFree
      rw [Bool.and_eq_true, Bool.not_eq_true'] at hFree
      exact h.annotate (hTargets _ hFree.1) hFree.2 rfl rfl
    · exact h
  · exact h

theorem visitIdentifier
    (h : p.Balanced t)
    (hIn : target.id.index < t.size)
    (hTargets : ∀ q, isTarget q = true → q.index < t.size) :
    (p.visitIdentifier dialect file isTarget target
      fact).Balanced t := by
  unfold Progress.visitIdentifier
  split
  · exact h
  · rename_i hFree
    rw [Bool.not_eq_true] at hFree
    exact (h.write hIn hFree).propagate hTargets

theorem visitOther
    (h : p.Balanced t)
    (hIn : target.id.index < t.size) :
    (p.visitOther dialect file target fact).Balanced t := by
  unfold Progress.visitOther
  split
  · exact h
  · rename_i hFree
    rw [Bool.not_eq_true] at hFree
    exact h.write hIn hFree

end Balanced

end Progress

section Passes

variable {t : Tree}
variable {p : Progress}
variable {dialect : Dialect}
variable {file : String}
variable {isTarget : NodeId → Bool}
variable {facts : List (Target × TypeFact)}

/- Both passes write what they count. -/
theorem balanced_annotateAll
    (hStart : p.Balanced t)
    (hTargets : ∀ q, isTarget q = true → q.index < t.size)
    (hFacts : ∀ f ∈ facts, f.1.id.index < t.size) :
    (annotateAll dialect file isTarget facts p).Balanced
      t := by
  unfold annotateAll
  apply List.foldlRecOn
  · apply List.foldlRecOn
    · exact hStart
    · intro q hBalanced f hMem
      exact hBalanced.visitIdentifier
        (hFacts f (List.mem_filter.1 hMem).1) hTargets
  · intro q hBalanced f hMem
    exact hBalanced.visitOther
      (hFacts f (List.mem_filter.1 hMem).1)

------------------------------------------------------------
-- Facts that Are Looked At
------------------------------------------------------------

namespace Progress

variable {target : Target}
variable {fact : TypeFact}

/- Whatever a fact says, it is counted. -/
theorem resolved_write :
    (p.write dialect file target fact).stats.resolved =
      p.stats.resolved + 1 := by
  unfold write
  split <;>
    simp only [MergeStats.resolved, report] <;>
    omega

theorem resolved_propagate
    {id : NodeId} :
    (p.propagate isTarget id).stats.resolved =
      p.stats.resolved := by
  unfold propagate
  split
  · split <;> rfl
  · rfl

theorem resolved_visitIdentifier
    (hFree : p.isAnnotated target.id = false) :
    (p.visitIdentifier dialect file isTarget target
      fact).stats.resolved = p.stats.resolved + 1 := by
  rw [visitIdentifier, hFree, if_neg (by decide),
    resolved_propagate, resolved_write]

theorem resolved_visitOther :
    (p.visitOther dialect file target fact).stats.resolved =
      p.stats.resolved +
        if p.isAnnotated target.id then 0 else 1 := by
  unfold visitOther
  split
  · rfl
  · exact resolved_write

end Progress

variable {own : NodeId → Option Annotation}

theorem factIds_concat
    (f : Target × TypeFact) :
    factIds (facts ++ [f]) = factIds facts ++ [f.1.id] := by
  simp [factIds]

/-
  The first pass looks at every fact.  By induction on the
  facts from their end: what is shown before the last visit is
  `firstPass` of all that were visited, which is nothing at
  the last node.
-/
theorem resolved_identifiers
    (hStart : p.Shows t (fun _ => none))
    (hTargets : ∀ q, isTarget q = true → q.index < t.size)
    (hFacts :
      ∀ f ∈ facts,
        own f.1.id = factAnnotation? dialect f.2 ∧
          f.1.id.index < t.size ∧
          t.parent? f.1.id ≠ some f.1.id)
    (hNodup : (factIds facts).Nodup)
    (hFirst :
      (factIds facts).Pairwise
        (fun x y => t.parent? x ≠ some y)) :
    (facts.foldl (fun p f =>
        p.visitIdentifier dialect file isTarget f.1 f.2)
      p).stats.resolved =
      p.stats.resolved + facts.length := by
  induction facts using List.reverseRecOn with
  | nil => rfl
  | append_singleton facts f ih =>
      rw [factIds_concat, List.nodup_append] at hNodup
      rw [factIds_concat, List.pairwise_append] at hFirst
      have hBefore :
          ∀ g ∈ facts,
            own g.1.id = factAnnotation? dialect g.2 ∧
              g.1.id.index < t.size ∧
              t.parent? g.1.id ≠ some g.1.id :=
        fun g hMem => hFacts g (by simp [hMem])
      have hShows :=
        @shows_identifiers t own isTarget [] dialect file p
          facts (hStart.congr (by simp [firstPass])) hTargets
          hBefore hNodup.1 hFirst.1
      have hNone :
          firstPass t isTarget own ([] ++ factIds facts)
            f.1.id = none := by
        apply firstPass_eq_none
        · intro hMem
          exact hNodup.2.2 _ hMem _ (by simp) rfl
        · intro c hMem
          exact hFirst.2.2 c hMem _ (by simp)
      rw [List.foldl_concat, Progress.resolved_visitIdentifier,
        ih hBefore hNodup.1 hFirst.1, List.length_append]
      · rfl
      · rw [hShows.isAnnotated_eq, hNone]
        rfl

/-
  The second pass looks at the facts of the nodes that show
  nothing before it, since it visits no node twice.
-/
theorem resolved_others
    {shown : NodeId → Option Annotation}
    (hStart : p.Shows t shown)
    (hFacts :
      ∀ f ∈ facts,
        own f.1.id = factAnnotation? dialect f.2 ∧
          f.1.id.index < t.size)
    (hNodup : (factIds facts).Nodup) :
    (facts.foldl (fun p f =>
        p.visitOther dialect file f.1 f.2) p).stats.resolved =
      p.stats.resolved +
        (factIds facts).countP (fun n => (shown n).isNone) := by
  induction facts using List.reverseRecOn with
  | nil => rfl
  | append_singleton facts f ih =>
      rw [factIds_concat] at hNodup ⊢
      rw [List.nodup_append] at hNodup
      have hBefore :
          ∀ g ∈ facts,
            own g.1.id = factAnnotation? dialect g.2 ∧
              g.1.id.index < t.size :=
        fun g hMem => hFacts g (by simp [hMem])
      have hNew : f.1.id ∉ factIds facts := by
        intro hMem
        exact hNodup.2.2 _ hMem _ (by simp) rfl
      have hShows :=
        @shows_others t own dialect file p facts shown hStart
          hBefore
      rw [List.foldl_concat, Progress.resolved_visitOther,
        ih hBefore hNodup.1, hShows.isAnnotated_eq,
        if_neg hNew, Option.or_none, List.countP_append,
        List.countP_singleton, Nat.add_assoc]
      cases shown f.1.id <;> rfl

/- Both passes together. -/
theorem resolved_annotateAll
    (own : NodeId → Option Annotation)
    (hStart : p.Shows t (fun _ => none))
    (hTargets : ∀ q, isTarget q = true → q.index < t.size)
    (hFacts :
      ∀ f ∈ facts,
        own f.1.id = factAnnotation? dialect f.2 ∧
          f.1.id.index < t.size ∧
          t.parent? f.1.id ≠ some f.1.id)
    (hNodup : (factIds facts).Nodup)
    (hFirst :
      (factIds facts).Pairwise
        (fun x y => t.parent? x ≠ some y)) :
    (annotateAll dialect file isTarget facts
      p).stats.resolved =
      p.stats.resolved +
        (factIds
          (facts.filter (fun f => f.1.isIdentifier))).length +
        (factIds
          (facts.filter (fun f => !f.1.isIdentifier))).countP
          (fun n =>
            (firstPass t isTarget own
              (factIds
                (facts.filter (fun f => f.1.isIdentifier)))
              n).isNone) := by
  have hSublist :
      ∀ test : Target × TypeFact → Bool,
        (factIds (facts.filter test)).Sublist
          (factIds facts) :=
    fun _ => List.filter_sublist.map _
  have hIdentifiers :
      ∀ f ∈ facts.filter (fun f => f.1.isIdentifier),
        own f.1.id = factAnnotation? dialect f.2 ∧
          f.1.id.index < t.size ∧
          t.parent? f.1.id ≠ some f.1.id :=
    fun f hMem => hFacts f (List.mem_filter.1 hMem).1
  have hShows :=
    @shows_identifiers t own isTarget [] dialect file p
      (facts.filter (fun f => f.1.isIdentifier))
      (hStart.congr (by simp [firstPass])) hTargets
      hIdentifiers (hNodup.sublist (hSublist _))
      (hFirst.sublist (hSublist _))
  have hOthers :
      ∀ f ∈ facts.filter (fun f => !f.1.isIdentifier),
        own f.1.id = factAnnotation? dialect f.2 ∧
          f.1.id.index < t.size :=
    fun f hMem =>
      ⟨(hFacts f (List.mem_filter.1 hMem).1).1,
        (hFacts f (List.mem_filter.1 hMem).1).2.1⟩
  rw [annotateAll,
    resolved_others hShows hOthers
      (hNodup.sublist (hSublist _)),
    resolved_identifiers hStart hTargets hIdentifiers
      (hNodup.sublist (hSublist _))
      (hFirst.sublist (hSublist _)),
    factIds, List.length_map]
  rfl

end Passes

------------------------------------------------------------
-- Facts that Are Passed Over
------------------------------------------------------------

/-
  Has a target a fact of its own and yet shows what a child
  identifier says?
-/
def yieldsToChild
    (eligibility : Eligibility)
    (dialect : Dialect)
    (t : Tree)
    (facts : FactMap)
    (n : NodeId) : Bool :=
  !t.isIdentifier n && facts[n]?.isSome &&
    (childAnnotation? eligibility dialect t facts n).isSome

section Targets

variable {eligibility : Eligibility}
variable {dialect : Dialect}
variable {t : Tree}

/-
  What has a fact is an identifier, or something else that
  yields to a child or does not.
-/
theorem countP_fact
    (kind fact child : NodeId → Bool)
    (ids : List NodeId) :
    ids.countP (fun n => kind n && fact n) +
        (ids.filter (fun n => !kind n && fact n)).countP
          (fun n => !child n) +
        ids.countP (fun n => !kind n && fact n && child n) =
      ids.countP fact := by
  induction ids with
  | nil => rfl
  | cons n ids ih =>
      rw [List.countP_filter] at ih ⊢
      simp only [List.countP_cons, ← ih]
      cases kind n <;> cases fact n <;> cases child n <;>
        simp <;> omega

/- A fact is looked at unless its node yields to a child. -/
theorem resolved_mergeCollected
    (hLinked : t.Linked)
    (file : String)
    (collected : Collected) :
    (mergeCollected dialect file t.clearAnnotations
        (eligibility.targets t)
        collected).stats.resolved +
      (eligibility.targets t).countP
        (yieldsToChild eligibility dialect t
          collected.facts) =
      (eligibility.targets t).countP
        (fun n => collected.facts[n]?.isSome) := by
  have hChild :
      ∀ n ∈ (eligibility.targets t).filter (fun n =>
          !t.isIdentifier n && collected.facts[n]?.isSome),
        firstPass t (eligibility.targets t).contains
          (ownAnnotation? eligibility dialect t
            collected.facts)
          ((eligibility.targets t).filter (fun c =>
            t.isIdentifier c && collected.facts[c]?.isSome)) n =
        childAnnotation? eligibility dialect t
          collected.facts n := by
    intro n hMem
    simp only [List.mem_filter, Bool.and_eq_true,
      Bool.not_eq_true'] at hMem
    rw [firstPass_of_target hLinked hMem.1, hMem.2.1,
      if_neg (by decide), Option.none_or]
  rw [mergeCollected,
    resolved_annotateAll
      (ownAnnotation? eligibility dialect t collected.facts)
      ⟨t.clearAnnotations_clearAnnotations,
        t.annotation?_clearAnnotations⟩
      (lt_size_of_contains hLinked)
      (own_of_visit hLinked)
      (hLinked.nodup_preorder.sublist visits_sublist)
      (hLinked.parents_first_preorder.sublist
        visits_sublist),
    factIds_identifiers, factIds_others,
    List.countP_congr (fun n hMem => by
      rw [hChild n hMem, ← Option.not_isSome]),
    ← List.countP_eq_length_filter, MergeStats.resolved]
  simp only [Nat.zero_add]
  exact countP_fact t.isIdentifier
    (fun n => collected.facts[n]?.isSome)
    (fun n =>
      (childAnnotation? eligibility dialect t
        collected.facts n).isSome) _

/- What is written is counted. -/
theorem balanced_mergeCollected
    (hLinked : t.Linked)
    (file : String)
    (collected : Collected) :
    (mergeCollected dialect file t.clearAnnotations
      (eligibility.targets t) collected).Balanced t := by
  refine balanced_annotateAll
    ⟨t.clearAnnotations_clearAnnotations, ?_⟩
    (lt_size_of_contains hLinked) ?_
  · simp [Tree.annotated, MergeStats.written]
  · intro f hMem
    exact (@own_of_visit eligibility dialect t collected.facts
      hLinked f hMem).2.1

end Targets

end TypeGraft
