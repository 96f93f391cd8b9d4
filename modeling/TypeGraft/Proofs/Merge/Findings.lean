import TypeGraft.Proofs.Merge.Questions
import TypeGraft.Proofs.Merge.Sources

/-
  What an engine that may change leaves for a merge.

  A merge that succeeds has annotated the cleared tree with
  facts for its targets.  In bulk these are facts with the
  ranges of targets.  Point by point they are what the answers
  mean, each for the target whose question it answers,
  whatever the engine was asked before.

  Key definitions include:
    * `MutableEngine.findings`
    * `MutableEngine.entries`

  Main declarations:
    * `FactMap.getElem?_ofList`
    * `MutableEngine.map_fst_findings`
    * `MutableEngine.map_fst_entries_sublist`
    * `MutableEngine.findings_eq`
    * `collected_of_mergeAfter`
-/

namespace TypeGraft

------------------------------------------------------------
-- Maps of Facts
------------------------------------------------------------

section Entries

variable {entries : List (NodeId × TypeFact)}

/- Nodes that differ are apart in the order of a map. -/
theorem pairwise_compare
    (hNodup : (entries.map Prod.fst).Nodup) :
    entries.Pairwise
      (fun a b => ¬ NodeId.compare a.1 b.1 = .eq) := by
  simpa only [Std.LawfulEqCmp.compare_eq_iff_eq, List.Nodup,
    List.pairwise_map] using hNodup

/- Facts of some nodes are in the order of the nodes. -/
theorem map_fst_filterMap_sublist
    {α : Type}
    (xs : List α)
    (key : α → NodeId)
    (fact? : α → Option TypeFact) :
    ((xs.filterMap (fun x =>
      (fact? x).map (fun f => (key x, f)))).map
        Prod.fst).Sublist (xs.map key) := by
  induction xs with
  | nil => exact .slnil
  | cons x xs ih =>
      cases hFact : fact? x with
      | none =>
          rw [List.filterMap_cons_none (by rw [hFact]; rfl)]
          exact ih.cons (key x)
      | some f =>
          rw [List.filterMap_cons_some (by rw [hFact]; rfl)]
          exact ih.cons_cons (key x)

/- The map of a list in which no node has two facts. -/
theorem FactMap.getElem?_ofList
    (hNodup : (entries.map Prod.fst).Nodup)
    (n : NodeId)
    (f : TypeFact) :
    (Std.TreeMap.ofList entries NodeId.compare)[n]? =
        some f ↔
      (n, f) ∈ entries := by
  have hHeld :
      ∀ g, (n, g) ∈ entries →
        (Std.TreeMap.ofList entries NodeId.compare)[n]? =
          some g :=
    fun _ => Std.TreeMap.getElem?_ofList_of_mem
      Std.ReflCmp.compare_self (pairwise_compare hNodup)
  refine ⟨fun hFact => ?_, hHeld f⟩
  have hIn :
      n ∈ Std.TreeMap.ofList entries NodeId.compare := by
    rw [Std.TreeMap.mem_iff_isSome_getElem?, hFact]
    rfl
  rw [Std.TreeMap.mem_ofList, List.contains_iff_mem,
    List.mem_map] at hIn
  rcases hIn with ⟨⟨k, g⟩, hMem, rfl⟩
  cases (hHeld g hMem).symm.trans hFact
  exact hMem

end Entries

------------------------------------------------------------
-- Answers
------------------------------------------------------------

namespace MutableEngine

/- What an engine answers about where a node starts. -/
def answerAbout
    (engine : MutableEngine)
    (asked : List Query)
    (n : Node) : Except EngineError PointAnswer :=
  engine.answer asked
    (.point n.range.start.line (n.range.start.column + 1))

/-
  What the answers about some nodes mean, where one is asked
  about after the other.
-/
def findings
    (engine : MutableEngine)
    (t : Tree) :
    List Query → List NodeId → List (NodeId × PointFinding)
  | _, [] => []
  | asked, id :: ids =>
      match t.get? id with
      | none => findings engine t asked ids
      | some n =>
          (id, .ofAnswer n.range (engine.answerAbout asked n)) ::
            findings engine t (asked ++ [n.startQuery]) ids

/-
  The facts for some nodes that an engine has when it is asked
  in the way of a strategy.
-/
def entries
    (engine : MutableEngine)
    (strategy : Strategy)
    (t : Tree)
    (ids : List NodeId) : List (NodeId × TypeFact) :=
  match strategy with
  | .bulk =>
      match engine.answer [.available] .dump with
      | .error _ => []
      | .ok facts =>
          ids.filterMap (fun id =>
            ((t.get? id).bind (fun n =>
              bulkFact? facts n.range)).map (fun f => (id, f)))
  | .point =>
      (engine.findings t [.available] ids).filterMap (fun p =>
        p.2.fact?.map (fun f => (p.1, f)))

variable {engine : MutableEngine}
variable {t : Tree}
variable {asked : List Query}

/- Each node is asked about once. -/
theorem map_fst_findings
    {ids : List NodeId}
    (hNodes : ∀ id ∈ ids, ∃ n, t.get? id = some n) :
    (engine.findings t asked ids).map Prod.fst = ids := by
  induction ids generalizing asked with
  | nil => rfl
  | cons id ids ih =>
      rw [List.forall_mem_cons] at hNodes
      rcases hNodes with ⟨⟨n, hNode⟩, hRest⟩
      simp only [findings, hNode, List.map_cons, ih hRest]

/- Targets are asked about, and nothing else is. -/
theorem exists_finding_iff
    (engine : MutableEngine)
    (asked : List Query)
    {eligibility : Eligibility}
    {n : NodeId} :
    (∃ finding,
      (n, finding) ∈
        engine.findings t asked (eligibility.targets t)) ↔
      n ∈ eligibility.targets t := by
  have hKeys :=
    @map_fst_findings engine t asked (eligibility.targets t)
      (fun _ => Eligibility.exists_node_of_mem_targets)
  nth_rewrite 2 [← hKeys]
  simp

/- No node has two facts. -/
theorem map_fst_entries_sublist
    {ids : List NodeId}
    (hNodes : ∀ id ∈ ids, ∃ n, t.get? id = some n)
    (strategy : Strategy) :
    ((engine.entries strategy t ids).map Prod.fst).Sublist
      ids := by
  cases strategy with
  | bulk =>
      unfold entries
      cases engine.answer [.available] .dump with
      | error e => exact List.nil_sublist _
      | ok facts =>
          refine (map_fst_filterMap_sublist ids
            (fun id => id) _).trans ?_
          rw [List.map_id']
  | point =>
      refine (map_fst_filterMap_sublist
        (engine.findings t [.available] ids) Prod.fst
        (fun p => p.2.fact?)).trans ?_
      rw [map_fst_findings hNodes]

/- What the map of the facts for targets holds. -/
theorem getElem?_entries
    {eligibility : Eligibility}
    (hLinked : t.Linked)
    (strategy : Strategy)
    (n : NodeId)
    (f : TypeFact) :
    (Std.TreeMap.ofList
      (engine.entries strategy t (eligibility.targets t))
      NodeId.compare)[n]? = some f ↔
      (n, f) ∈
        engine.entries strategy t (eligibility.targets t) :=
  FactMap.getElem?_ofList
    ((Eligibility.nodup_targets hLinked).sublist
      (map_fst_entries_sublist
        (fun _ => Eligibility.exists_node_of_mem_targets)
        strategy)) n f

/- The answers about some targets are what was found. -/
theorem findings_eq
    (t : Tree)
    (asked : List Query)
    (ids : List NodeId) :
    ((t.clearAnnotations.targetsOf ids).zip
      ((Dialogue.queryPoints
        ((t.clearAnnotations.targetsOf ids).map
          (fun x => x.node.range.start))).runAfter engine
            asked).1).map
        (fun p =>
          (p.1.id, PointFinding.ofAnswer p.1.node.range p.2)) =
      engine.findings t asked ids := by
  induction ids generalizing asked with
  | nil => rfl
  | cons id ids ih =>
      cases hNode : t.get? id with
      | none =>
          have hSplit :
              t.clearAnnotations.targetsOf (id :: ids) =
                t.clearAnnotations.targetsOf ids := by
            simp [Tree.targetsOf, hNode]
          rw [hSplit, ih]
          simp only [findings, hNode]
      | some n =>
          have hSplit :
              t.clearAnnotations.targetsOf (id :: ids) =
                ⟨id, { n with annotation := none }⟩ ::
                  t.clearAnnotations.targetsOf ids := by
            simp [Tree.targetsOf, hNode]
          simp only [hSplit, findings, hNode, List.map_cons,
            Dialogue.queryPoints, Dialogue.runAfter,
            Dialogue.runAfter_andThen, List.zip_cons_cons]
          rw [← ih]
          rfl

end MutableEngine

/- What is collected from answers about targets. -/
theorem collected_of_findings
    {file : String}
    {targets : List Target}
    {answers : List (Except EngineError PointAnswer)}
    {found : List (NodeId × PointFinding)}
    (hFound :
      (targets.zip answers).map (fun p =>
        (p.1.id, PointFinding.ofAnswer p.1.node.range p.2)) =
        found) :
    (collectPoints file targets answers).facts =
        .ofList
          (found.filterMap (fun p =>
            p.2.fact?.map (fun f => (p.1, f))))
          NodeId.compare ∧
      (collectPoints file targets answers).failedQueries =
        found.countP (fun p => p.2.isFailure) := by
  subst hFound
  constructor
  · simp [collectPoints, FactMap.ofTargets,
      List.map_filterMap, List.filterMap_map,
      Function.comp_def]
  · simp [collectPoints, List.countP_map, Function.comp_def]

/- What is collected from everything an engine says. -/
theorem facts_of_collectBulk
    (t : Tree)
    (ids : List NodeId)
    (facts : List TypeFact) :
    (collectBulk (t.clearAnnotations.targetsOf ids)
      facts).facts =
      .ofList
        (ids.filterMap (fun id =>
          ((t.get? id).bind (fun n =>
            bulkFact? facts n.range)).map (fun f => (id, f))))
        NodeId.compare := by
  simp only [collectBulk, FactMap.ofTargets, indexedFacts,
    Tree.targetsOf, List.filterMap_filterMap,
    List.map_filterMap, Tree.get?_clearAnnotations]
  congr 2
  funext id
  cases t.get? id with
  | none => rfl
  | some n =>
      simp only [Option.map_some, Option.bind_some,
        Option.map_map]
      rfl

/-
  A merge that succeeds has annotated the cleared tree with
  the facts that the engine has for its targets.
-/
theorem collected_of_mergeAfter
    {options : MergeOptions}
    {engine : MutableEngine}
    {file : String}
    {t : Tree}
    {merged : Merged}
    (h :
      (mergeAfter options engine file t).1.result =
        .ok merged) :
    ∃ collected,
      merged =
        ⟨(mergeCollected options.dialect file
            t.clearAnnotations (options.eligibility.targets t)
            collected).tree,
          (mergeCollected options.dialect file
            t.clearAnnotations (options.eligibility.targets t)
            collected).stats⟩ ∧
      collected.facts =
        .ofList
          (engine.entries options.strategy t
            (options.eligibility.targets t))
          NodeId.compare ∧
      (options.strategy = .point →
        collected.failedQueries =
          (engine.findings t [.available]
            (options.eligibility.targets t)).countP
              (fun p => p.2.isFailure)) := by
  cases hAvailable : engine.answer [] .available with
  | error e =>
      rw [mergeAfter_of_unavailable hAvailable] at h
      cases h
  | ok u =>
      rw [mergeAfter_of_available hAvailable, mergeCleared,
        Dialogue.runAfter_andThen,
        Eligibility.targets_clearAnnotations] at h
      cases hStrategy : options.strategy with
      | bulk =>
          cases hDump : engine.answer [.available] .dump with
          | error e =>
              simp [FactSource.ofEngine, hStrategy,
                runAfter_collect_bulk, hDump, Except.map,
                Dialogue.runAfter] at h
          | ok facts =>
              simp only [FactSource.ofEngine, hStrategy,
                runAfter_collect_bulk, hDump, Except.map,
                Dialogue.runAfter, Except.ok.injEq] at h
              refine ⟨_, h.symm, ?_, ?_⟩
              · rw [facts_of_collectBulk,
                  MutableEngine.entries, hDump]
              · intro hPoint
                cases hPoint
      | point =>
          simp only [FactSource.ofEngine, hStrategy, collect,
            Dialogue.runAfter_andThen,
            Dialogue.runAfter, Except.ok.injEq] at h
          rcases @collected_of_findings file _ _ _
            (engine.findings_eq t [.available]
              (options.eligibility.targets t)) with
            ⟨hFacts, hFailed⟩
          exact ⟨_, h.symm, hFacts, fun _ => hFailed⟩

------------------------------------------------------------
-- An Engine that Starts Late
------------------------------------------------------------

/-
  An engine that fails its first questions about types and
  gives the same answer to all others.
-/
def lateEngine
    (failures : Nat) : MutableEngine where
  name := "late"
  answer asked q :=
    match q with
    | .available => .ok ()
    | .dump => .error (.malformed "no dump")
    | .point _ _ =>
        if asked.length ≤ failures then
          .error (.malformed "bad output")
        else .ok ⟨"() => void", none, []⟩

end TypeGraft
