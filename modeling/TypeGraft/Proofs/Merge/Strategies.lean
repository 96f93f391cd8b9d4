import TypeGraft.Proofs.Merge.Questions
import TypeGraft.Proofs.Merge.Readings

/-
  When the two strategies annotate alike.

  Merging with a snapshot always succeeds.  The strategies
  give the same tree just if no difference in how they read
  ranges shows, and so whenever all targets that facts are
  about lie on one line and no fact ends within one that has
  the same start.

  Key definitions include:
    * `TakesFromChild`

  Main declarations:
    * `exists_merged`
    * `exists_merges`
    * `merges_eq_iff`
    * `sources_of_snapshot`
-/

namespace TypeGraft

------------------------------------------------------------
-- Merges with a Snapshot
------------------------------------------------------------

section Snapshots

variable {eligibility : Eligibility}
variable {dialect : Dialect}
variable {t : Tree}

/-
  A merge with a snapshot ends with the closed form of facts
  that are read by range.
-/
theorem exists_merged
    (hLinked : t.Linked)
    (s : Snapshot)
    (strategy : Strategy)
    (eligibility : Eligibility)
    (dialect : Dialect)
    (file : String) :
    ∃ merged facts,
      (merge ⟨strategy, eligibility, dialect⟩ s.engine file
        t).1.result = .ok merged ∧
      ReadsBy eligibility dialect t facts
        (reading dialect s strategy) ∧
      merged.tree.clearAnnotations = t.clearAnnotations ∧
      ∀ n,
        merged.tree.annotation? n =
          mergedAnnotation? eligibility dialect t facts n := by
  have hNodup : (eligibility.targets t).Nodup :=
    Eligibility.nodup_targets hLinked
  rcases facts_of_collect (t := t.clearAnnotations) hNodup s
    strategy s.engine.name file with
    ⟨collected, hCollected, hFacts⟩
  have hShows :=
    @shows_mergeCollected eligibility dialect t hLinked file
      collected
  refine ⟨_, collected.facts,
    run_mergeFrom dialect rfl hCollected, ⟨?_, ?_⟩,
    hShows.links, hShows.annotation⟩
  · intro n m hTarget hNode
    simp [ownAnnotation?, reading, hFacts, hTarget, hNode]
  · exact range_of_reading

/-
  Merging point by point and in bulk, the trees are the same
  just if all nodes show the same.
-/
theorem exists_merges
    (hLinked : t.Linked)
    (s : Snapshot)
    (eligibility : Eligibility)
    (dialect : Dialect)
    (file : String) :
    ∃ point bulk facts,
      (merge ⟨.point, eligibility, dialect⟩ s.engine file
        t).1.result = .ok point ∧
      (merge ⟨.bulk, eligibility, dialect⟩ s.engine file
        t).1.result = .ok bulk ∧
      ReadsBy eligibility dialect t facts
        (reading dialect s .bulk) ∧
      (point.tree = bulk.tree ↔
        ∀ n m, n ∈ eligibility.targets t →
          t.get? n = some m → Torn dialect s.facts m.range →
            m.kind ≠ .identifier ∧
              (childAnnotation? eligibility dialect t facts
                n).isSome = true) := by
  rcases exists_merged hLinked s .point eligibility dialect
    file with
    ⟨point, others, hPoint, hSecond, hLinks, hShown⟩
  rcases exists_merged hLinked s .bulk eligibility dialect
    file with
    ⟨bulk, facts, hBulk, hFirst, hLinksBulk, hShownBulk⟩
  refine ⟨point, bulk, facts, hPoint, hBulk, hFirst, ?_⟩
  have hOne :
      ∀ r,
        reading dialect s .bulk r = reading dialect s .point r ∨
          reading dialect s .bulk r = none ∨
          reading dialect s .point r = none := by
    intro r
    rw [reading_bulk, reading_point]
    split <;> split <;> simp
  have hCompared :=
    merged_eq_iff hFirst hSecond hOne
  simp only [← torn_iff] at hCompared
  rw [← hCompared]
  constructor
  · intro hTrees n
    rw [← hShown, ← hShownBulk, hTrees]
  · intro hSame
    apply Tree.eq_of_annotations
      (hLinks.trans hLinksBulk.symm)
    intro n
    rw [hShown, hShownBulk, hSame]

/-
  Some child identifier of a node has an annotation in bulk
  to pass on to it.
-/
def TakesFromChild
    (eligibility : Eligibility)
    (dialect : Dialect)
    (t : Tree)
    (facts : List TypeFact)
    (n : NodeId) : Prop :=
  ∃ c ∈ t.childrenOf n, ∃ k,
    c ∈ eligibility.targets t ∧ t.get? c = some k ∧
      k.kind = .identifier ∧ k.range.isSingleLine = true ∧
      (statedAnnotation? dialect facts k.range).isSome = true

/- Annotations of children, by their ranges. -/
theorem isSome_childAnnotation?_iff
    {s : Snapshot}
    {facts : FactMap}
    {n : NodeId}
    (hReads :
      ReadsBy eligibility dialect t facts
        (reading dialect s .bulk)) :
    (childAnnotation? eligibility dialect t facts
      n).isSome = true ↔
      TakesFromChild eligibility dialect t s.facts n := by
  constructor
  · intro hSome
    rcases Option.isSome_iff_exists.1 hSome with ⟨a, hChild⟩
    rcases childAnnotation?_eq_some hChild with
      ⟨c, hMem, hKind, hOwn⟩
    have hTarget := mem_targets_of_ownAnnotation? hOwn
    rcases Eligibility.exists_node_of_mem_targets hTarget with
      ⟨k, hNode⟩
    rw [hReads.own hTarget hNode, reading_bulk] at hOwn
    split at hOwn
    · rename_i hLine
      exact ⟨c, hMem, k, hTarget, hNode,
        (Tree.isIdentifier_iff hNode).1 hKind, hLine,
        by rw [hOwn]; rfl⟩
    · cases hOwn
  · rintro ⟨c, hMem, k, hTarget, hNode, hKind, hLine, hSome⟩
    rw [childAnnotation?, List.findSome?_isSome_iff]
    refine ⟨c, hMem, ?_⟩
    rw [if_pos ((Tree.isIdentifier_iff hNode).2 hKind),
      hReads.own hTarget hNode, reading_bulk, if_pos hLine]
    exact hSome

/-
  Merging point by point and merging in bulk both succeed.
  They give the same tree just if every target whose range is
  torn is no identifier and takes its annotation from a child.
  No node starts so far to the right that the column after it
  is out of reach, so every column that is asked about fits
  into 32 bits.
-/
theorem merges_eq_iff
    (hTree : t.Produced)
    (hColumns :
      ∀ id n, t.get? id = some n →
        n.range.start.column < twoTo 32 - 1)
    (s : Snapshot)
    (eligibility : Eligibility)
    (dialect : Dialect)
    (file : String) :
    ∃ point bulk,
      (merge ⟨.point, eligibility, dialect⟩ s.engine file
        t).1.result = .ok point ∧
      (merge ⟨.bulk, eligibility, dialect⟩ s.engine file
        t).1.result = .ok bulk ∧
      (∀ line column,
        .point line column ∈
            (merge ⟨.point, eligibility, dialect⟩ s.engine
              file t).2 →
          column < twoTo 32) ∧
      (point.tree = bulk.tree ↔
        ∀ n m, n ∈ eligibility.targets t →
          t.get? n = some m → Torn dialect s.facts m.range →
            m.kind ≠ .identifier ∧
              TakesFromChild eligibility dialect t s.facts
                n) := by
  rcases exists_merges hTree.linked s eligibility dialect file
    with ⟨point, bulk, facts, hPoint, hBulk, hReads, hIff⟩
  refine ⟨point, bulk, hPoint, hBulk, ?_, ?_⟩
  · intro line column hAsked
    rw [← mergeAfter_ofEngine] at hAsked
    exact column_lt_of_asked rfl rfl hColumns hAsked
  · simpa only [isSome_childAnnotation?_iff hReads] using hIff

/- A fact for each of the two. -/
def declaratorFacts : List TypeFact :=
  [⟨.onLine 1 0 9, "boolean", []⟩,
    ⟨.onLine 1 0 4, "number", []⟩]

/-
  The range of the declarator is torn, but it shows what its
  identifier says.
-/
theorem merges_eq_iff_declarator :
    Torn {} declaratorFacts (.onLine 1 0 9) ∧
      ∃ point bulk,
        (merge ⟨.point, {}, {}⟩
          (Snapshot.engine ⟨declaratorFacts⟩) "a.js"
          declaratorTree).1.result = .ok point ∧
        (merge ⟨.bulk, {}, {}⟩
          (Snapshot.engine ⟨declaratorFacts⟩) "a.js"
          declaratorTree).1.result = .ok bulk ∧
        point.tree = bulk.tree := by
  refine ⟨by decide +kernel, ?_⟩
  have hBuild :
      Tree.build? (.ofName "Program") (.onLine 1 0 9)
        [.child Tree.root "body" (.ofName "VariableDeclarator")
            (.onLine 1 0 9),
          .child ⟨1⟩ "id" .identifier (.onLine 1 0 4)] =
        some declaratorTree := rfl
  have hTargets :
      ({} : Eligibility).targets declaratorTree =
        [⟨1⟩, ⟨2⟩] := by
    decide +kernel
  have hColumns :
      ∀ id n, declaratorTree.get? id = some n →
        n.range.start.column < twoTo 32 - 1 := by
    have hAll :
        ∀ n ∈ declaratorTree.nodes,
          n.range.start.column < twoTo 32 - 1 := by
      decide
    intro id n hNode
    exact hAll n (Array.mem_of_getElem? hNode)
  rcases merges_eq_iff (.built hBuild) hColumns
    ⟨declaratorFacts⟩ {} {} "a.js" with
    ⟨point, bulk, hPoint, hBulk, -, hIff⟩
  refine ⟨point, bulk, hPoint, hBulk, hIff.2 ?_⟩
  intro n m hTarget hNode hTorn
  rw [hTargets] at hTarget
  rcases List.mem_cons.1 hTarget with rfl | hTarget
  · cases hNode
    refine ⟨by decide, ⟨2⟩, by decide, _, ?_, rfl, rfl,
      by decide, by decide +kernel⟩
    rw [hTargets]
    decide
  · cases List.mem_singleton.1 hTarget
    cases hNode
    exact absurd hTorn (by decide +kernel)

/- An identifier over two columns. -/
def identifierJson : Json :=
  let position (column : Int) : Json :=
    .obj [("line", .num (.whole 1)),
      ("column", .num (.whole column))]
  .obj [("type", .str "Identifier"),
    ("loc", .obj [("start", position 0), ("end", position 2)])]

/- A fact about both columns, and one about the first. -/
def sharedStartFacts : List TypeFact :=
  [⟨.onLine 1 0 2, "number", []⟩,
    ⟨.onLine 1 0 1, "string", []⟩]

/-
  In bulk the identifier has the fact about its range.  Asked
  about where it starts, the engine answers with the shorter
  one, which is about another range.
-/
theorem merges_differ_at_shared_start :
    ∃ t point bulk,
      Tree.ofJson identifierJson = .ok t ∧
      (merge ⟨.point, {}, {}⟩
        (Snapshot.engine ⟨sharedStartFacts⟩) "fixture.js"
        t).1.result = .ok point ∧
      (merge ⟨.bulk, {}, {}⟩
        (Snapshot.engine ⟨sharedStartFacts⟩) "fixture.js"
        t).1.result = .ok bulk ∧
      point.tree ≠ bulk.tree := by
  have hShown :
      (Tree.ofJson identifierJson).toOption.map (fun t =>
        [Strategy.point, .bulk].map (fun strategy =>
          (merge ⟨strategy, {}, {}⟩
            (Snapshot.engine ⟨sharedStartFacts⟩) "fixture.js"
            t).1.result.toOption.map
              (fun merged => merged.tree.annotated))) =
        some [some [], some [Tree.root]] := by
    decide +kernel
  cases hTree : Tree.ofJson identifierJson with
  | error e => simp [hTree, Except.toOption] at hShown
  | ok t =>
      rcases exists_merged (Tree.linked_of_ofJson hTree)
        ⟨sharedStartFacts⟩ .point {} {} "fixture.js" with
        ⟨point, -, hPoint, -⟩
      rcases exists_merged (Tree.linked_of_ofJson hTree)
        ⟨sharedStartFacts⟩ .bulk {} {} "fixture.js" with
        ⟨bulk, -, hBulk, -⟩
      refine ⟨t, point, bulk, rfl, hPoint, hBulk, ?_⟩
      simp only [hTree, Except.toOption, Option.map_some,
        List.map_cons, List.map_nil, hPoint, hBulk,
        Option.some.injEq, List.cons.injEq] at hShown
      intro hEq
      rw [hEq, hShown.2.1] at hShown
      simp at hShown

/-
  What the two strategies collect from a snapshot for each
  target, and when the merges give the same tree for it.
-/
theorem sources_of_snapshot
    (hTree : t.Produced)
    (s : Snapshot)
    (eligibility : Eligibility)
    (file : String) :
    ∃ point bulk,
      (((FactSource.ofEngine .point s.engine.name).collect
        file t (eligibility.targets t)).run s.engine).1 =
        .ok point ∧
      (((FactSource.ofEngine .bulk s.engine.name).collect
        file t (eligibility.targets t)).run s.engine).1 =
        .ok bulk ∧
      (∀ n m, n ∈ eligibility.targets t →
        t.get? n = some m →
          ((∀ f ∈ s.facts, f.range.start ≠ m.range.start) →
            point.facts[n]? =
              some ⟨m.range, "(unknown)", []⟩) ∧
          ((∃ f ∈ s.facts, f.range.start = m.range.start) →
            ¬ EndsFirst s.facts m.range.start m.range.stop →
              point.facts[n]? = none) ∧
          (EndsFirst s.facts m.range.start m.range.stop →
            ∃ f, lastAbout? s.facts m.range = some f ∧
              point.facts[n]? = some f ∧
              (m.range.isSingleLine = true →
                bulk.facts[n]? = some f)) ∧
          (m.range.isSingleLine = false →
            bulk.facts[n]? = none) ∧
          (m.range.isSingleLine = true →
            bulk.facts[n]? = lastAbout? s.facts m.range)) ∧
      ∀ dialect : Dialect,
        (∀ n m, n ∈ eligibility.targets t →
          t.get? n = some m → m.range.isSingleLine = true →
            (∃ f ∈ s.facts, f.range = m.range) →
              ¬ ∃ f ∈ s.facts,
                f.range.start = m.range.start ∧
                  f.range.stop.Before m.range.stop) →
        (∀ n m, n ∈ eligibility.targets t →
          t.get? n = some m → m.range.isSingleLine = false →
            ¬ ∃ f ∈ s.facts, f.range = m.range) →
        ∃ merged other,
          (merge ⟨.point, eligibility, dialect⟩ s.engine file
            t).1.result = .ok merged ∧
          (merge ⟨.bulk, eligibility, dialect⟩ s.engine file
            t).1.result = .ok other ∧
          merged.tree = other.tree := by
  have hLinked := hTree.linked
  have hNodup : (eligibility.targets t).Nodup :=
    Eligibility.nodup_targets hLinked
  rcases facts_of_collect (t := t) hNodup s .point
    s.engine.name file with ⟨point, hPoint, hPointFacts⟩
  rcases facts_of_collect (t := t) hNodup s .bulk
    s.engine.name file with ⟨bulk, hBulk, hBulkFacts⟩
  refine ⟨point, bulk, hPoint, hBulk, ?_, ?_⟩
  · intro n m hTarget hNode
    simp only [hPointFacts, hBulkFacts, hTarget, if_true,
      hNode, Option.bind_some, foundFact?, bulkFact?_eq]
    refine ⟨pointFact?_of_no_start, ?_, ?_, ?_, ?_⟩
    · rintro ⟨f, hMem, hStart⟩ hNot
      exact pointFact?_of_not_endsFirst hMem hStart hNot
    · intro hFirst
      rcases hFirst.about with ⟨f, hMem, hRange⟩
      rcases exists_lastAbout? hMem hRange with ⟨g, hLast⟩
      exact ⟨g, hLast,
        (pointFact?_of_endsFirst hFirst).trans hLast,
        fun hLine => (if_pos hLine).trans hLast⟩
    · exact fun hLines => if_neg (by simp [hLines])
    · exact fun hLine => if_pos hLine
  · intro dialect hSingle hMulti
    rcases exists_merges hLinked s eligibility dialect file
      with ⟨merged, other, _, hMerged, hOther, -, hIff⟩
    refine ⟨merged, other, hMerged, hOther, hIff.2 ?_⟩
    intro n m hTarget hNode hTorn
    exact absurd hTorn (not_torn
      (hSingle n m hTarget hNode)
      (hMulti n m hTarget hNode))

/- Three identifiers on one line. -/
def identifiersTree : Tree :=
  ⟨#[{ kind := .ofName "Program"
       range := .onLine 1 0 9
       parent := none
       fields :=
        [("body", .list [some ⟨1⟩, some ⟨2⟩, some ⟨3⟩])] },
     { kind := .identifier
       range := .onLine 1 0 1
       parent := some ⟨0⟩ },
     { kind := .identifier
       range := .onLine 1 4 6
       parent := some ⟨0⟩ },
     { kind := .identifier
       range := .onLine 1 8 9
       parent := some ⟨0⟩ }]⟩

/-
  Two facts about the first identifier and one that reaches
  further, and one about a part of the second.
-/
def identifiersFacts : List TypeFact :=
  [⟨.onLine 1 0 1, "number", []⟩,
    ⟨.onLine 1 0 3, "boolean", []⟩,
    ⟨.onLine 1 0 1, "string", []⟩,
    ⟨.onLine 1 4 5, "number", []⟩]

/-
  One identifier has the last fact about it, one has none, and
  one has a fact that says nothing.  The trees are the same.
-/
theorem sources_of_snapshot_identifiers :
    ∃ point bulk merged other,
      (((FactSource.ofEngine .point "snapshot").collect
        "a.js" identifiersTree
        (({} : Eligibility).targets identifiersTree)).run
          (Snapshot.engine ⟨identifiersFacts⟩)).1 =
        .ok point ∧
      (((FactSource.ofEngine .bulk "snapshot").collect
        "a.js" identifiersTree
        (({} : Eligibility).targets identifiersTree)).run
          (Snapshot.engine ⟨identifiersFacts⟩)).1 =
        .ok bulk ∧
      point.facts[(⟨1⟩ : NodeId)]? =
        some ⟨.onLine 1 0 1, "string", []⟩ ∧
      bulk.facts[(⟨1⟩ : NodeId)]? =
        some ⟨.onLine 1 0 1, "string", []⟩ ∧
      point.facts[(⟨2⟩ : NodeId)]? = none ∧
      point.facts[(⟨3⟩ : NodeId)]? =
        some ⟨.onLine 1 8 9, "(unknown)", []⟩ ∧
      (merge ⟨.point, {}, {}⟩
        (Snapshot.engine ⟨identifiersFacts⟩) "a.js"
        identifiersTree).1.result = .ok merged ∧
      (merge ⟨.bulk, {}, {}⟩
        (Snapshot.engine ⟨identifiersFacts⟩) "a.js"
        identifiersTree).1.result = .ok other ∧
      merged.tree = other.tree := by
  have hBuild :
      Tree.build? (.ofName "Program") (.onLine 1 0 9)
        [.push Tree.root "body" .identifier (.onLine 1 0 1),
          .push Tree.root "body" .identifier (.onLine 1 4 6),
          .push Tree.root "body" .identifier
            (.onLine 1 8 9)] =
        some identifiersTree := rfl
  have hTargets :
      ({} : Eligibility).targets identifiersTree =
        [⟨1⟩, ⟨2⟩, ⟨3⟩] := by
    decide +kernel
  rcases sources_of_snapshot (.built hBuild)
    ⟨identifiersFacts⟩ {} "a.js" with
    ⟨point, bulk, hPoint, hBulk, hFacts, hTrees⟩
  have hNodes :
      ∀ n m, n ∈ ({} : Eligibility).targets identifiersTree →
        identifiersTree.get? n = some m →
          m.range ∈ [SourceRange.onLine 1 0 1, .onLine 1 4 6,
            .onLine 1 8 9] := by
    intro n m hTarget hNode
    rw [hTargets] at hTarget
    simp only [List.mem_cons, List.not_mem_nil,
      or_false] at hTarget
    rcases hTarget with rfl | rfl | rfl <;> cases hNode <;>
      decide
  have hFirst := hFacts ⟨1⟩ _ (by rw [hTargets]; decide) rfl
  have hSecond := hFacts ⟨2⟩ _ (by rw [hTargets]; decide) rfl
  have hThird := hFacts ⟨3⟩ _ (by rw [hTargets]; decide) rfl
  rcases hFirst.2.2.1 ⟨by decide, by decide⟩ with
    ⟨f, hLast, hAsked, hIndexed⟩
  cases hLast
  have hSingle :
      ∀ r ∈ [SourceRange.onLine 1 0 1, .onLine 1 4 6,
          .onLine 1 8 9],
        r.isSingleLine = true →
          (∃ f ∈ identifiersFacts, f.range = r) →
            ¬ ∃ f ∈ identifiersFacts,
              f.range.start = r.start ∧
                f.range.stop.Before r.stop := by
    decide
  have hMulti :
      ∀ r ∈ [SourceRange.onLine 1 0 1, .onLine 1 4 6,
          .onLine 1 8 9],
        r.isSingleLine = false →
          ¬ ∃ f ∈ identifiersFacts, f.range = r := by
    decide
  rcases hTrees {}
    (fun n m hTarget hNode =>
      hSingle m.range (hNodes n m hTarget hNode))
    (fun n m hTarget hNode =>
      hMulti m.range (hNodes n m hTarget hNode)) with
    ⟨merged, other, hMerged, hOther, hSame⟩
  exact ⟨point, bulk, merged, other, hPoint, hBulk, hAsked,
    hIndexed rfl,
    hSecond.2.1 (by decide)
      (fun h => absurd h.about (by decide)),
    hThird.1 (by decide), hMerged, hOther, hSame⟩

end Snapshots

end TypeGraft
