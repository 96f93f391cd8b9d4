import TypeGraft.Proofs.Merge.Findings
import TypeGraft.Proofs.Merge.Strategies
import TypeGraft.Proofs.Tree.RoundTrip

/-
  What a merge leaves as it was.

  A merge that succeeds has annotated a cleared tree, so the
  tree it gives is written as before but for one more member
  at the end of each annotated node.  This holds of engines
  that change from question to question too.  An import passes
  over these members: reading the written tree gives the tree
  as it was before the merge, and merging that again changes
  nothing.

  Main declarations:
    * `clear_of_mergeAfter`
    * `leavesNodes_settled`
    * `toJson_of_merge`
    * `merge_of_reimported`
-/

namespace TypeGraft

------------------------------------------------------------
-- Successful Merges
------------------------------------------------------------

/- A merge changes nothing but annotations. -/
theorem clear_of_mergeAfter
    {options : MergeOptions}
    {engine : MutableEngine}
    {file : String}
    {t : Tree}
    {merged : Merged}
    (hLinked : t.Linked)
    (h :
      (mergeAfter options engine file t).1.result =
        .ok merged) :
    merged.tree.clearAnnotations = t.clearAnnotations := by
  rcases collected_of_mergeAfter h with ⟨collected, rfl, -⟩
  exact (shows_mergeCollected hLinked file collected).links

/- The same with an engine that always answers alike. -/
theorem clear_of_merge
    {options : MergeOptions}
    {engine : Engine}
    {file : String}
    {t : Tree}
    {merged : Merged}
    (hLinked : t.Linked)
    (h : (merge options engine file t).1.result = .ok merged) :
    merged.tree.clearAnnotations = t.clearAnnotations := by
  rw [← mergeAfter_ofEngine] at h
  exact clear_of_mergeAfter hLinked h

/- Trees that are the same without annotations, node by node. -/
theorem Tree.get?_of_clear
    {t u : Tree}
    {id : NodeId}
    {n : Node}
    (hClear : u.clearAnnotations = t.clearAnnotations)
    (hNode : t.get? id = some n) :
    ∃ m, u.get? id = some m ∧
      m.kind = n.kind ∧ m.range = n.range ∧
      m.parent = n.parent ∧ m.fields = n.fields := by
  have hBare := congrArg (fun w : Tree => w.get? id) hClear
  simp only [get?_clearAnnotations, hNode,
    Option.map_some] at hBare
  rcases Option.map_eq_some_iff.1 hBare with ⟨m, hSame, hEq⟩
  injection hEq with hKind hRange hParent hFields
  exact ⟨m, hSame, hKind, hRange, hParent, hFields⟩

------------------------------------------------------------
-- The Written Tree
------------------------------------------------------------

/- Settling nodes leaves the nodes where they are. -/
theorem leavesNodes_settled
    (g : NodeId → Members → Members) :
    Json.LeavesNodes (fun _ => Members.settled) g where
  kind _ _ := Members.get?_type_settled
  inner _ i _ := Members.mapMembersFrom_settled g i

/-
  A merge that succeeds, with whatever engine, leaves the
  nodes of an imported tree as they were, and the merged tree
  is written like the tree without annotations, with one more
  member at the end of each annotated node.
-/
theorem toJson_of_merge
    (d : Document)
    {t : Tree}
    {options : MergeOptions}
    {engine : MutableEngine}
    {file : String}
    {merged : Merged}
    (hTree : Tree.ofJson d.value = .ok t)
    (hMerged :
      (mergeAfter options engine file t).1.result =
        .ok merged) :
    merged.tree.size = t.size ∧
      (∀ id n, t.get? id = some n →
        ∃ m, merged.tree.get? id = some m ∧
          m.kind = n.kind ∧ m.range = n.range ∧
          m.parent = n.parent ∧ m.fields = n.fields) ∧
      merged.tree.toJson =
        t.clearAnnotations.toJson.mapNodes (fun id ms =>
          ms ++ annotationMember
            (merged.tree.annotation? id)) := by
  have hClear :=
    clear_of_mergeAfter (Tree.linked_of_ofJson hTree) hMerged
  refine ⟨Tree.size_eq_of_clear hClear,
    fun id n hNode => Tree.get?_of_clear hClear hNode, ?_⟩
  rw [Tree.clearAnnotations_of_ofJson hTree,
    Tree.toJson_eq_mapNodes_settled hTree,
    Json.mapNodes_mapNodes (leavesNodes_settled _)]
  exact Tree.toJson_of_clear hTree hClear

/- A program of two identifiers with a hole between them. -/
def pairJson : Json :=
  let identifier (name : String) (column : Nat) : Json :=
    .obj
      [("name", .str name),
        ("loc",
          (SourceRange.onLine 1 column (column + 1)).toJson),
        ("type", .str "Identifier")]
  .obj
    [("body",
        .arr [identifier "a" 0, .null, identifier "b" 4]),
      ("type", .str "Program"),
      ("loc", (SourceRange.onLine 1 0 9).toJson)]

/-
  The engine fails the question about the first identifier and
  answers the next.  Only the second identifier is annotated,
  and only it has a member more.
-/
theorem toJson_of_merge_pair :
    ∃ t merged,
      Tree.ofJson pairJson = .ok t ∧
      (mergeAfter ⟨.point, {}, {}⟩ (lateEngine 1) "a.js"
        t).1.result = .ok merged ∧
      merged.tree.annotated = [⟨2⟩] ∧
      merged.tree.toJson =
        t.clearAnnotations.toJson.mapNodes (fun id ms =>
          ms ++ annotationMember
            (merged.tree.annotation? id)) := by
  have hShown :
      (Tree.ofJson pairJson).toOption.map (fun t =>
        (mergeAfter ⟨.point, {}, {}⟩ (lateEngine 1) "a.js"
          t).1.result.toOption.map
            (fun merged => merged.tree.annotated)) =
        some (some [⟨2⟩]) := by
    decide +kernel
  cases hTree : Tree.ofJson pairJson with
  | error e => simp [hTree, Except.toOption] at hShown
  | ok t =>
      cases hMerged :
          (mergeAfter ⟨.point, {}, {}⟩ (lateEngine 1) "a.js"
            t).1.result with
      | error e =>
          simp [hTree, hMerged, Except.toOption] at hShown
      | ok merged =>
          simp only [hTree, hMerged, Except.toOption,
            Option.map_some, Option.some.injEq] at hShown
          exact ⟨t, merged, rfl, hMerged, hShown,
            (toJson_of_merge ⟨pairJson, by decide +kernel⟩
              hTree hMerged).2.2⟩

------------------------------------------------------------
-- Merging Again
------------------------------------------------------------

/-
  Merging with a snapshot succeeds, what is written after it
  can be read, and merging that again gives the same tree, the
  same statistics and the same written value.
-/
theorem merge_of_reimported
    (d : Document)
    {t : Tree}
    (hTree : Tree.ofJson d.value = .ok t)
    (s : Snapshot)
    (options : MergeOptions)
    (file : String) :
    ∃ first again second,
      (merge options s.engine file t).1.result = .ok first ∧
      Tree.ofJson first.tree.toJson = .ok again ∧
      (merge options s.engine file again).1.result =
        .ok second ∧
      second.tree = first.tree ∧
      second.stats = first.stats ∧
      second.tree.toJson = first.tree.toJson := by
  have hLinked := Tree.linked_of_ofJson hTree
  rcases exists_merged hLinked s options.strategy
    options.eligibility options.dialect file with
    ⟨first, -, hFirst, -⟩
  have hClear := clear_of_merge hLinked hFirst
  exact ⟨first, t, first, hFirst,
    Tree.ofJson_toJson_of_clear hTree hClear, hFirst,
    rfl, rfl, rfl⟩

/- A program of one identifier and a hole. -/
def programJson : Json :=
  .obj
    [("body", .arr
        [.obj
          [("name", .str "a"),
            ("loc", (SourceRange.onLine 1 0 1).toJson),
            ("type", .str "Identifier")],
          .null]),
      ("type", .str "Program"),
      ("loc", (SourceRange.onLine 1 0 9).toJson)]

/- A fact about the identifier, with a node beside its type. -/
def programFacts : List TypeFact :=
  [⟨.onLine 1 0 1, "number",
    [("node", .obj [("type", .str "Identifier")])]⟩]

/-
  The annotation that the first merge writes holds a node,
  which the second one does not take for one.
-/
theorem merge_of_reimported_program :
    ∃ t first again second,
      Tree.ofJson programJson = .ok t ∧
      (merge ⟨.point, {}, {}⟩
        (Snapshot.engine ⟨programFacts⟩) "a.js" t).1.result =
          .ok first ∧
      Tree.ofJson first.tree.toJson = .ok again ∧
      (merge ⟨.point, {}, {}⟩
        (Snapshot.engine ⟨programFacts⟩) "a.js"
          again).1.result = .ok second ∧
      second.tree = first.tree ∧
      second.stats = first.stats ∧
      second.tree.toJson = first.tree.toJson := by
  have hSome : (Tree.ofJson programJson).isOk = true := by
    decide +kernel
  cases hTree : Tree.ofJson programJson with
  | error e => simp [hTree, Except.isOk, Except.toBool] at hSome
  | ok t =>
      rcases merge_of_reimported
        ⟨programJson, by decide +kernel⟩ hTree
        ⟨programFacts⟩ ⟨.point, {}, {}⟩ "a.js" with
        ⟨first, again, second, hRuns⟩
      exact ⟨t, first, again, second, rfl, hRuns⟩

end TypeGraft
