import TypeGraft.Proofs.Merge.Findings
import TypeGraft.Proofs.Merge.Readings

/-
  How far an answer about one target reaches.

  Point by point, each target has a fact by the answer to its
  own question alone, even if another target with the same
  start is answered otherwise.  An answer shows at its target
  and, if that is an identifier, at the parent; what is shown
  there is not passed on again.  So two engines that answer
  differently about some targets annotate all other nodes
  alike, and a question that fails is counted and does no more
  harm than a different answer.

  Key definitions include:
    * `Disturbed`

  Main declarations:
    * `exists_merged_point`
    * `ownAnnotation?_of_not_disturbed`
    * `merges_agree_undisturbed`
-/

namespace TypeGraft

------------------------------------------------------------
-- One Engine
------------------------------------------------------------

/-
  A merge point by point with an engine that can be used ends
  with the closed form of what its answers mean.
-/
theorem exists_merged_point
    {engine : MutableEngine}
    {t : Tree}
    (hLinked : t.Linked)
    (hAvailable : engine.answer [] .available = .ok ())
    (eligibility : Eligibility)
    (dialect : Dialect)
    (file : String) :
    ∃ merged facts,
      (mergeAfter ⟨.point, eligibility, dialect⟩ engine file
        t).1.result = .ok merged ∧
      (∀ n f, (facts : FactMap)[n]? = some f ↔
        ∃ finding,
          (n, finding) ∈ engine.findings t [.available]
            (eligibility.targets t) ∧
          finding.fact? = some f) ∧
      merged.tree.clearAnnotations = t.clearAnnotations ∧
      (∀ n,
        merged.tree.annotation? n =
          mergedAnnotation? eligibility dialect t facts n) ∧
      merged.stats.failedQueries =
        (engine.findings t [.available]
          (eligibility.targets t)).countP
            (fun p => p.2.isFailure) := by
  rcases (@mergeAfter_point ⟨.point, eligibility, dialect⟩
    engine file t rfl hAvailable).2 with ⟨merged, hMerged⟩
  rcases collected_of_mergeAfter hMerged with
    ⟨collected, rfl, hFacts, hFailed⟩
  have hShows :=
    @shows_mergeCollected eligibility dialect t hLinked file
      collected
  refine ⟨_, collected.facts, hMerged, ?_, hShows.links,
    hShows.annotation, ?_⟩
  · intro n f
    rw [hFacts, MutableEngine.getElem?_entries hLinked]
    simp only [MutableEngine.entries, List.mem_filterMap,
      Option.map_eq_some_iff, Prod.mk.injEq, Prod.exists]
    constructor
    · rintro ⟨_, finding, hMem, _, hFact, rfl, rfl⟩
      exact ⟨finding, hMem, hFact⟩
    · rintro ⟨finding, hMem, hFact⟩
      exact ⟨n, finding, hMem, f, hFact, rfl, rfl⟩
  · rw [← hFailed rfl]
    exact congrArg MergeStats.failedQueries
      (collected_mergeCollected _ _ _)

------------------------------------------------------------
-- Two Engines
------------------------------------------------------------

/-
  A target for which the answers of two engines to its own
  question mean different things.
-/
def Disturbed
    (eligibility : Eligibility)
    (t : Tree)
    (first second : MutableEngine)
    (n : NodeId) : Prop :=
  ∃ finding other,
    (n, finding) ∈ first.findings t [.available]
      (eligibility.targets t) ∧
    (n, other) ∈ second.findings t [.available]
      (eligibility.targets t) ∧
    finding ≠ other

section Engines

variable {eligibility : Eligibility}
variable {t : Tree}
variable {first second : MutableEngine}
variable {n : NodeId}

/- A target that is not disturbed has the same finding. -/
theorem mem_findings_of_not_disturbed
    {finding : PointFinding}
    (h : ¬ Disturbed eligibility t first second n)
    (hMem :
      (n, finding) ∈ first.findings t [.available]
        (eligibility.targets t)) :
    (n, finding) ∈ second.findings t [.available]
      (eligibility.targets t) := by
  have hTarget : n ∈ eligibility.targets t :=
    (first.exists_finding_iff [.available]).1 ⟨finding, hMem⟩
  rcases (second.exists_finding_iff [.available]).2 hTarget with
    ⟨other, hOther⟩
  have hSame : finding = other := by
    by_contra hDiffer
    exact h ⟨finding, other, hMem, hOther, hDiffer⟩
  exact hSame ▸ hOther

theorem Disturbed.symm
    (h : Disturbed eligibility t first second n) :
    Disturbed eligibility t second first n := by
  rcases h with ⟨finding, other, hMem, hOther, hDiffer⟩
  exact ⟨other, finding, hOther, hMem, hDiffer.symm⟩

/-
  Engines whose answers about a node mean the same lead to the
  same annotation of its own.
-/
theorem ownAnnotation?_of_not_disturbed
    {dialect : Dialect}
    {facts others : FactMap}
    (hFacts :
      ∀ n f, facts[n]? = some f ↔
        ∃ finding,
          (n, finding) ∈ first.findings t [.available]
            (eligibility.targets t) ∧
          finding.fact? = some f)
    (hOthers :
      ∀ n f, others[n]? = some f ↔
        ∃ finding,
          (n, finding) ∈ second.findings t [.available]
            (eligibility.targets t) ∧
          finding.fact? = some f)
    (h : ¬ Disturbed eligibility t first second n) :
    ownAnnotation? eligibility dialect t facts n =
      ownAnnotation? eligibility dialect t others n := by
  have hSame : facts[n]? = others[n]? := by
    apply Option.ext
    intro f
    rw [hFacts, hOthers]
    constructor
    · rintro ⟨finding, hMem, hFact⟩
      exact ⟨finding, mem_findings_of_not_disturbed h hMem,
        hFact⟩
    · rintro ⟨finding, hMem, hFact⟩
      exact ⟨finding,
        mem_findings_of_not_disturbed (mt Disturbed.symm h)
          hMem, hFact⟩
  simp only [ownAnnotation?, hSame]

/-
  Merging point by point with two engines that can be used
  succeeds both times.  The trees differ in annotations only,
  and there only at targets for which the answers of the two
  runs differ and at parents of such identifiers.  Each run
  counts the targets whose question failed.
-/
theorem merges_agree_undisturbed
    (hTree : t.Produced)
    (hFirst : first.answer [] .available = .ok ())
    (hSecond : second.answer [] .available = .ok ())
    (eligibility : Eligibility)
    (dialect : Dialect)
    (file : String) :
    ∃ one other,
      (mergeAfter ⟨.point, eligibility, dialect⟩ first file
        t).1.result = .ok one ∧
      (mergeAfter ⟨.point, eligibility, dialect⟩ second file
        t).1.result = .ok other ∧
      one.tree.clearAnnotations =
        other.tree.clearAnnotations ∧
      (∀ n,
        ¬ Disturbed eligibility t first second n →
        (∀ c, t.parent? c = some n →
          t.isIdentifier c = true →
            ¬ Disturbed eligibility t first second c) →
        one.tree.annotation? n = other.tree.annotation? n) ∧
      one.stats.failedQueries =
        (first.findings t [.available]
          (eligibility.targets t)).countP
            (fun p => p.2.isFailure) ∧
      other.stats.failedQueries =
        (second.findings t [.available]
          (eligibility.targets t)).countP
            (fun p => p.2.isFailure) := by
  have hLinked := hTree.linked
  rcases exists_merged_point hLinked hFirst eligibility dialect
    file with
    ⟨one, facts, hOne, hFacts, hLinks, hShown, hFailed⟩
  rcases exists_merged_point hLinked hSecond eligibility
    dialect file with
    ⟨other, others, hOther, hOthers, hLinksOther, hShownOther,
      hFailedOther⟩
  refine ⟨one, other, hOne, hOther,
    hLinks.trans hLinksOther.symm, ?_, hFailed, hFailedOther⟩
  intro n hSelf hBelow
  have hOwn :=
    @ownAnnotation?_of_not_disturbed _ _ _ _ _ dialect _ _
      hFacts hOthers hSelf
  have hChild :
      childAnnotation? eligibility dialect t facts n =
        childAnnotation? eligibility dialect t others n := by
    apply childAnnotation?_congr
    intro c hMem hKind
    exact ownAnnotation?_of_not_disturbed hFacts hOthers
      (hBelow c (hLinked.parent_of_child hMem) hKind)
  rw [hShown, hShownOther, mergedAnnotation?,
    mergedAnnotation?, hOwn, hChild]

end Engines

/- A statement with a call, which starts with what it calls. -/
def callTree : Tree :=
  ⟨#[{ kind := .ofName "Program"
       range := .onLine 1 0 9
       parent := none
       fields := [("body", .list [some ⟨1⟩])] },
     { kind := .ofName "ExpressionStatement"
       range := .onLine 1 0 9
       parent := some ⟨0⟩
       fields := [("expression", .node ⟨2⟩)] },
     { kind := .ofName "CallExpression"
       range := .onLine 1 0 8
       parent := some ⟨1⟩
       fields := [("callee", .node ⟨3⟩)] },
     { kind := .identifier
       range := .onLine 1 0 3
       parent := some ⟨2⟩ }]⟩

/-
  One engine fails the question about the call, and both
  answer the one about what it calls, at the same position.
  So the call is disturbed and the identifier is not.
-/
theorem merges_agree_undisturbed_callee :
    Disturbed {} callTree (lateEngine 1) (lateEngine 0) ⟨2⟩ ∧
    ∃ one other,
      (mergeAfter ⟨.point, {}, {}⟩ (lateEngine 1) "a.js"
        callTree).1.result = .ok one ∧
      (mergeAfter ⟨.point, {}, {}⟩ (lateEngine 0) "a.js"
        callTree).1.result = .ok other ∧
      one.tree.annotation? ⟨3⟩ =
        other.tree.annotation? ⟨3⟩ ∧
      one.tree.annotated = [⟨2⟩, ⟨3⟩] ∧
      one.stats.failedQueries = 1 ∧
      other.stats.failedQueries = 0 := by
  have hBuild :
      Tree.build? (.ofName "Program") (.onLine 1 0 9)
        [.push Tree.root "body" (.ofName "ExpressionStatement")
            (.onLine 1 0 9),
          .child ⟨1⟩ "expression" (.ofName "CallExpression")
            (.onLine 1 0 8),
          .child ⟨2⟩ "callee" .identifier (.onLine 1 0 3)] =
        some callTree := rfl
  have hTargets :
      ({} : Eligibility).targets callTree = [⟨2⟩, ⟨3⟩] := by
    decide +kernel
  have hOne :
      (lateEngine 1).findings callTree [.available]
          (({} : Eligibility).targets callTree) =
        [(⟨2⟩, .failed (.malformed "bad output")),
          (⟨3⟩, .fact ⟨.onLine 1 0 3, "() => void", []⟩)] := by
    rw [hTargets]
    rfl
  have hOther :
      (lateEngine 0).findings callTree [.available]
          (({} : Eligibility).targets callTree) =
        [(⟨2⟩, .fact ⟨.onLine 1 0 8, "() => void", []⟩),
          (⟨3⟩, .fact ⟨.onLine 1 0 3, "() => void", []⟩)] := by
    rw [hTargets]
    rfl
  have hShown :
      (mergeAfter ⟨.point, {}, {}⟩ (lateEngine 1) "a.js"
        callTree).1.result.toOption.map
          (fun merged => merged.tree.annotated) =
        some [⟨2⟩, ⟨3⟩] := by
    decide +kernel
  have hLeaf :
      ∀ i < 4, callTree.parent? ⟨i⟩ ≠ some ⟨3⟩ := by
    decide
  rcases @merges_agree_undisturbed callTree (lateEngine 1)
    (lateEngine 0) (.built hBuild) rfl rfl {} {} "a.js" with
    ⟨one, other, hMerged, hMergedOther, -, hAgree, hFailed,
      hFailedOther⟩
  rw [hOne] at hFailed
  rw [hOther] at hFailedOther
  rw [hMerged] at hShown
  refine ⟨?_, one, other, hMerged, hMergedOther,
    hAgree ⟨3⟩ ?_ ?_, Option.some.inj hShown, hFailed,
    hFailedOther⟩
  · rw [Disturbed, hOne, hOther]
    exact ⟨_, _, .head _, .head _, by simp⟩
  · rw [Disturbed, hOne, hOther]
    rintro ⟨finding, found, hMem, hFound, hDiffer⟩
    simp at hMem hFound
    exact hDiffer (hMem.trans hFound.symm)
  · intro c hParent
    exact absurd hParent
      (hLeaf c.index (Tree.lt_size_of_parent hParent))

end TypeGraft
