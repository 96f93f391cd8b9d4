import TypeGraft.Engine.Script
import TypeGraft.Proofs.Merge.Counters
import TypeGraft.Proofs.Merge.Findings

/-
  What the counters of a merge add up to.

  The facts that a merge counts as found are those that the
  engine has for its targets.  Point by point each answer is a
  fact for its target, a failure or about another range.

  Key definitions include:
    * `PointFinding.isElsewhere`

  Main declarations:
    * `FactMap.size_eq_countP`
    * `length_findings`
    * `MutableEngine.sum_of_findings`
    * `counters_of_merge`
-/

namespace TypeGraft

------------------------------------------------------------
-- Facts that Are Found
------------------------------------------------------------

/- A map for distinct nodes has as many facts as nodes. -/
theorem FactMap.size_eq_countP
    {facts : FactMap}
    {ids : List NodeId}
    (hNodup : ids.Nodup)
    (hOnly : ∀ n, facts[n]?.isSome = true → n ∈ ids) :
    facts.size = ids.countP (fun n => facts[n]?.isSome) := by
  have hKeys : facts.keys.Nodup := by
    refine Std.TreeMap.distinct_keys.imp ?_
    intro m n hDistinct hEq
    exact hDistinct (hEq ▸ Std.ReflCmp.compare_self)
  have hPerm :
      facts.keys.Perm
        (ids.filter (fun n => facts[n]?.isSome)) := by
    rw [List.perm_ext_iff_of_nodup hKeys (hNodup.filter _)]
    intro n
    rw [Std.TreeMap.mem_keys,
      Std.TreeMap.mem_iff_isSome_getElem?, List.mem_filter]
    exact ⟨fun hSome => ⟨hOnly n hSome, hSome⟩, And.right⟩
  rw [← Std.TreeMap.length_keys, hPerm.length_eq,
    List.countP_eq_length_filter]

/- Was the question answered about another range? -/
def PointFinding.isElsewhere : PointFinding → Bool
  | .elsewhere _ => true
  | _ => false

/- A finding is a fact, a failure or about another range. -/
theorem length_findings
    (found : List (NodeId × PointFinding)) :
    (found.filterMap (fun p =>
        p.2.fact?.map (fun f => (p.1, f)))).length +
      found.countP (fun p => p.2.isFailure) +
      found.countP (fun p => p.2.isElsewhere) =
        found.length := by
  induction found with
  | nil => rfl
  | cons p found ih =>
      rcases p with ⟨id, finding⟩
      cases finding <;>
        simp [PointFinding.fact?, PointFinding.isFailure,
          PointFinding.isElsewhere] at ih ⊢ <;>
        omega

/-
  Point by point there is one finding for each node, and each
  is counted once.
-/
theorem MutableEngine.sum_of_findings
    {engine : MutableEngine}
    {t : Tree}
    {ids : List NodeId}
    (hNodup : ids.Nodup)
    (hNodes : ∀ id ∈ ids, ∃ n, t.get? id = some n) :
    (Std.TreeMap.ofList (engine.entries .point t ids)
        NodeId.compare).size +
      (engine.findings t [.available] ids).countP
        (fun p => p.2.isFailure) +
      (engine.findings t [.available] ids).countP
        (fun p => p.2.isElsewhere) =
      ids.length := by
  have hAsked :
      (engine.findings t [.available] ids).length =
        ids.length := by
    rw [← List.length_map Prod.fst, map_fst_findings hNodes]
  have hSize :=
    Std.TreeMap.size_ofList (pairwise_compare
      (hNodup.sublist
        (@map_fst_entries_sublist engine t ids hNodes .point)))
  rw [hSize, ← hAsked]
  exact length_findings (engine.findings t [.available] ids)

------------------------------------------------------------
-- The Accounts
------------------------------------------------------------

/-
  A merge that succeeds has as many annotated nodes as it says
  to have annotated, and the eligible nodes are its targets.
  Every fact that it found was written, said nothing or could
  not be read, unless its node is no identifier and shows what
  a child says.  Point by point, every target has a fact, a
  question that failed or an answer about another range.
-/
theorem counters_of_merge
    {options : MergeOptions}
    {engine : MutableEngine}
    {file : String}
    {t : Tree}
    {merged : Merged}
    (hTree : t.Produced)
    (h :
      (mergeAfter options engine file t).1.result =
        .ok merged) :
    ∃ facts : FactMap,
      (∀ n f, facts[n]? = some f ↔
        (n, f) ∈ engine.entries options.strategy t
          (options.eligibility.targets t)) ∧
      merged.tree.annotated.length =
        merged.stats.annotated + merged.stats.propagated ∧
      merged.stats.eligible =
        (options.eligibility.targets t).length ∧
      merged.stats.factsFound =
        merged.stats.annotated + merged.stats.unknown +
          merged.stats.failed +
          (options.eligibility.targets t).countP
            (yieldsToChild options.eligibility options.dialect
              t facts) ∧
      (∀ n ∈ options.eligibility.targets t,
        t.isIdentifier n = false →
          merged.tree.annotation? n =
            (childAnnotation? options.eligibility
              options.dialect t facts n).or
              (ownAnnotation? options.eligibility
                options.dialect t facts n)) ∧
      (options.strategy = .point →
        merged.stats.factsFound + merged.stats.failedQueries +
          (engine.findings t [.available]
            (options.eligibility.targets t)).countP
              (fun p => p.2.isElsewhere) =
          merged.stats.eligible) := by
  have hLinked := hTree.linked
  have hNodup : (options.eligibility.targets t).Nodup :=
    Eligibility.nodup_targets hLinked
  have hNodes :
      ∀ id ∈ options.eligibility.targets t,
        ∃ n, t.get? id = some n :=
    fun _ => Eligibility.exists_node_of_mem_targets
  rcases collected_of_mergeAfter h with
    ⟨collected, rfl, hFacts, hFailed⟩
  have hEntries :
      ∀ n f, collected.facts[n]? = some f ↔
        (n, f) ∈ engine.entries options.strategy t
          (options.eligibility.targets t) := by
    rw [hFacts]
    exact MutableEngine.getElem?_entries hLinked
      options.strategy
  have hCollected :=
    @collected_mergeCollected options.dialect file
      t.clearAnnotations (options.eligibility.targets t)
      collected
  have hShows :=
    @shows_mergeCollected options.eligibility options.dialect
      t hLinked file collected
  have hResolved :=
    @resolved_mergeCollected options.eligibility
      options.dialect t hLinked file collected
  have hOnly :
      ∀ n, collected.facts[n]?.isSome = true →
        n ∈ options.eligibility.targets t := by
    intro n hSome
    rcases Option.isSome_iff_exists.1 hSome with ⟨f, hFact⟩
    exact (MutableEngine.map_fst_entries_sublist hNodes
      options.strategy).subset
        (List.mem_map_of_mem ((hEntries n f).1 hFact))
  have hSize := FactMap.size_eq_countP hNodup hOnly
  have hEligible := congrArg MergeStats.eligible hCollected
  have hFound := congrArg MergeStats.factsFound hCollected
  have hQueries :=
    congrArg MergeStats.failedQueries hCollected
  refine ⟨collected.facts, hEntries,
    (balanced_mergeCollected hLinked file collected).written,
    hEligible, ?_, ?_, ?_⟩
  · exact hFound.trans (hSize.trans hResolved.symm)
  · intro n hTarget hKind
    rw [hShows.annotation, mergedAnnotation?, if_pos hTarget,
      hKind, if_neg (by decide)]
  · intro hPoint
    have hSum :=
      @MutableEngine.sum_of_findings engine t _ hNodup hNodes
    rw [← hFailed hPoint, ← hPoint, ← hFacts] at hSum
    exact (congrArg₂ (fun m n => m + n + _) hFound
      hQueries).trans (hSum.trans hEligible.symm)

/-
  A declarator of two identifiers and three more identifiers
  after it.
-/
def countedSteps : List BuildStep :=
  [.push Tree.root "body" (.ofName "VariableDeclarator")
      (.onLine 1 0 9),
    .child ⟨1⟩ "id" .identifier (.onLine 1 2 4),
    .child ⟨1⟩ "init" .identifier (.onLine 1 6 9),
    .push Tree.root "body" .identifier (.onLine 2 0 1),
    .push Tree.root "body" .identifier (.onLine 3 0 1),
    .push Tree.root "body" .identifier (.onLine 4 0 1)]

/-
  An engine that knows the declarator and its first
  identifier, writes something unreadable about the next but
  one, answers about another range than that of the last and
  not at all about the one before it.
-/
def countedScript : Script where
  pointFails := [((3, 1), .json)]
  snapshot :=
    ⟨[⟨.onLine 1 0 9, "boolean", []⟩,
      ⟨.onLine 1 2 4, "string", []⟩,
      ⟨.onLine 2 0 1, "?", []⟩,
      ⟨.onLine 4 0 2, "number", []⟩]⟩

/-
  Two nodes are annotated, one of them with what was passed on
  to it.  Of six targets four have a fact, one of which yields
  to a child, one says nothing and one cannot be read.
-/
theorem counters_of_merge_counted :
    ∃ t merged,
      Tree.build? (.ofName "Program") (.onLine 1 0 9) countedSteps =
        some t ∧
      (mergeAfter ⟨.point, {}, {}⟩
        (.ofEngine countedScript.engine) "a.js" t).1.result =
          .ok merged ∧
      merged.stats =
        { eligible := 6
          engineCalls := 6
          factsFound := 4
          annotated := 1
          propagated := 1
          unknown := 1
          failed := 1
          failedQueries := 1 } ∧
      merged.tree.annotated.length = 2 ∧
      (MutableEngine.findings (.ofEngine countedScript.engine)
        t [.available] (({} : Eligibility).targets t)).countP
          (fun p => p.2.isElsewhere) = 1 := by
  have hStats :
      (Tree.build? (.ofName "Program") (.onLine 1 0 9)
          countedSteps).map (fun t =>
        (mergeAfter ⟨.point, {}, {}⟩
          (.ofEngine countedScript.engine) "a.js"
          t).1.result.toOption.map (fun m => m.stats)) =
        some (some
          { eligible := 6
            engineCalls := 6
            factsFound := 4
            annotated := 1
            propagated := 1
            unknown := 1
            failed := 1
            failedQueries := 1 }) := by
    decide +kernel
  rcases Option.map_eq_some_iff.1 hStats with
    ⟨t, hBuild, hRun⟩
  cases hMerged :
      (mergeAfter ⟨.point, {}, {}⟩
        (.ofEngine countedScript.engine) "a.js" t).1.result with
  | error e => simp [hMerged, Except.toOption] at hRun
  | ok merged =>
      simp only [hMerged, Except.toOption, Option.map_some,
        Option.some.injEq] at hRun
      rcases counters_of_merge (.built hBuild) hMerged with
        ⟨-, -, hWritten, -, -, -, hPoint⟩
      have hSum := hPoint rfl
      rw [hRun] at hWritten hSum
      refine ⟨t, merged, hBuild, hMerged, hRun, hWritten, ?_⟩
      simp only at hSum
      omega

end TypeGraft
