import TypeGraft.Merge.Collect
import TypeGraft.Proofs.Engine.Dialogue
import TypeGraft.Proofs.Merge.FlatIndex

/-
  What the two ways of collecting find in a snapshot.

  In bulk, a target on one line has the last fact about its
  range, and one over several lines has none.  Point by point,
  a target has the last fact about its range if no fact with
  the same start ends earlier; if one does, it has none; and
  if no fact starts where it starts, it has one that says
  nothing.

  Key definitions include:
    * `bulkFact?`
    * `Engine.answerAt`
    * `askedFact?`
    * `pointFact?`
    * `foundFact?`

  Main declarations:
    * `bulkFact?_eq`
    * `pointFact?_of_endsFirst`
    * `pointFact?_of_not_endsFirst`
    * `FactMap.getElem?_ofTargets`
    * `facts_of_collect`
-/

namespace TypeGraft

------------------------------------------------------------
-- Facts for One Range
------------------------------------------------------------

/- The fact that bulk collection has for a range. -/
def bulkFact?
    (facts : List TypeFact)
    (r : SourceRange) : Option TypeFact :=
  (PositionIndex.ofFacts facts).findRange? r

/- It is the last about a range on one line. -/
theorem bulkFact?_eq
    (facts : List TypeFact)
    (r : SourceRange) :
    bulkFact? facts r =
      if r.isSingleLine then lastAbout? facts r else none :=
  PositionIndex.findRange?_ofFacts facts r

/- What an engine answers when it is asked about a range. -/
def Engine.answerAt
    (engine : Engine)
    (r : SourceRange) : Except EngineError PointAnswer :=
  engine.answer (.point r.start.line (r.start.column + 1))

/- The fact that such a question leads to. -/
def askedFact?
    (engine : Engine)
    (r : SourceRange) : Option TypeFact :=
  (PointFinding.ofAnswer r (engine.answerAt r)).fact?

/- The same with a snapshot. -/
def pointFact?
    (s : Snapshot)
    (r : SourceRange) : Option TypeFact :=
  (PointFinding.ofAnswer r
    (s.engine.answer
      (.point r.start.line (r.start.column + 1)))).fact?

section Point

variable {s : Snapshot}
variable {r : SourceRange}

/- Where no fact starts, the fact says nothing. -/
theorem pointFact?_of_no_start
    (h : ∀ f ∈ s.facts, f.range.start ≠ r.start) :
    pointFact? s r = some ⟨r, TypeFact.unknownType, []⟩ := by
  simp only [pointFact?, Snapshot.engine, Snapshot.pointAnswer,
    Nat.add_sub_cancel, s.factAt?_eq_none h]
  rfl

/- The question leads to the fact that ends first. -/
theorem pointFact?_eq
    {f : TypeFact}
    (hMem : f ∈ s.facts)
    (hStart : f.range.start = r.start) :
    ∃ g,
      g.range.start = r.start ∧
        EndsFirst s.facts r.start g.range.stop ∧
        lastAbout? s.facts g.range = some g ∧
        pointFact? s r =
          if g.range = r then some g else none := by
  rcases s.factAt?_eq_some hMem hStart with
    ⟨g, hFound, hHere, hFirst, hLast⟩
  refine ⟨g, hHere, hFirst, hLast, ?_⟩
  simp only [pointFact?, Snapshot.engine, Snapshot.pointAnswer,
    Nat.add_sub_cancel, hFound, PointAnswer.ofFact,
    PointFinding.ofAnswer, PointAnswer.toFact]
  by_cases hEq : g.range = r
  · subst hEq
    rw [if_pos rfl, if_pos rfl]
    rfl
  · rw [if_neg hEq, if_neg hEq]
    rfl

/- It is the last about its range if none ends earlier. -/
theorem pointFact?_of_endsFirst
    (h : EndsFirst s.facts r.start r.stop) :
    pointFact? s r = lastAbout? s.facts r := by
  rcases h.about with ⟨f, hMem, hRange⟩
  have hStart : f.range.start = r.start := by rw [hRange]
  rcases pointFact?_eq hMem hStart with
    ⟨g, hHere, hFirst, hLast, hEq⟩
  have hSame : g.range = r :=
    SourceRange.eq_iff.2 ⟨hHere, hFirst.unique h⟩
  rw [hEq, if_pos hSame, ← hSame, hLast]

/- Otherwise there is none. -/
theorem pointFact?_of_not_endsFirst
    {f : TypeFact}
    (hMem : f ∈ s.facts)
    (hStart : f.range.start = r.start)
    (h : ¬ EndsFirst s.facts r.start r.stop) :
    pointFact? s r = none := by
  rcases pointFact?_eq hMem hStart with
    ⟨g, -, hFirst, -, hEq⟩
  rw [hEq, if_neg]
  intro hRange
  exact h (hRange ▸ hFirst)

end Point

------------------------------------------------------------
-- Facts for Many Targets
------------------------------------------------------------

/- What a list of facts for targets holds. -/
theorem mem_filterMap_targetsOf_iff
    {t : Tree}
    {ids : List NodeId}
    {g : SourceRange → Option TypeFact}
    {n : NodeId}
    {f : TypeFact} :
    (n, f) ∈
        ((t.targetsOf ids).filterMap (fun x =>
          (g x.node.range).map (fun f => (x, f)))).map
          (fun f => (f.1.id, f.2)) ↔
      n ∈ ids ∧
        (t.get? n).bind (fun m => g m.range) = some f := by
  simp only [Tree.targetsOf, List.mem_map, List.mem_filterMap,
    Option.map_eq_some_iff, Option.bind_eq_some_iff,
    Prod.mk.injEq, Prod.exists]
  constructor
  · rintro ⟨x, k, ⟨_, ⟨i, hMem, m, hNode, rfl⟩, h, hFact,
      rfl, rfl⟩, rfl, rfl⟩
    exact ⟨hMem, m, hNode, hFact⟩
  · rintro ⟨hMem, m, hNode, hFact⟩
    exact ⟨⟨n, m⟩, f, ⟨⟨n, m⟩, ⟨n, hMem, m, hNode, rfl⟩,
      f, hFact, rfl, rfl⟩, rfl, rfl⟩

/- Facts for distinct targets are for distinct ids. -/
theorem pairwise_filterMap_targetsOf
    {t : Tree}
    {ids : List NodeId}
    (hNodup : ids.Nodup)
    (g : SourceRange → Option TypeFact) :
    (((t.targetsOf ids).filterMap (fun x =>
        (g x.node.range).map (fun f => (x, f)))).map
        (fun f => (f.1.id, f.2))).Pairwise
      (fun a b => ¬ NodeId.compare a.1 b.1 = .eq) := by
  simp only [Tree.targetsOf, List.pairwise_map,
    List.pairwise_filterMap, Std.LawfulEqCmp.compare_eq_iff_eq]
  refine hNodup.imp ?_
  intro i j hNe x hFirst y hSecond a hA b hB hEq
  rcases Option.map_eq_some_iff.1 hFirst with ⟨m, -, rfl⟩
  rcases Option.map_eq_some_iff.1 hSecond with ⟨k, -, rfl⟩
  rcases Option.map_eq_some_iff.1 hA with ⟨f, -, rfl⟩
  rcases Option.map_eq_some_iff.1 hB with ⟨h, -, rfl⟩
  exact hNe hEq

/- What a map of facts for distinct targets holds. -/
theorem FactMap.getElem?_ofTargets
    {t : Tree}
    {ids : List NodeId}
    (hNodup : ids.Nodup)
    (g : SourceRange → Option TypeFact)
    (n : NodeId) :
    (FactMap.ofTargets
      ((t.targetsOf ids).filterMap (fun x =>
        (g x.node.range).map (fun f => (x, f)))))[n]? =
      if n ∈ ids then
        (t.get? n).bind (fun m => g m.range)
      else none := by
  have hDistinct := @pairwise_filterMap_targetsOf t _ hNodup g
  have hHeld :
      ∀ f, n ∈ ids →
        (t.get? n).bind (fun m => g m.range) = some f →
          (FactMap.ofTargets
            ((t.targetsOf ids).filterMap (fun x =>
              (g x.node.range).map
                (fun f => (x, f)))))[n]? = some f := by
    intro f hMem hFact
    exact Std.TreeMap.getElem?_ofList_of_mem
      Std.ReflCmp.compare_self hDistinct
      (mem_filterMap_targetsOf_iff.2 ⟨hMem, hFact⟩)
  have hNone :
      (∀ f, ¬ (n ∈ ids ∧
        (t.get? n).bind (fun m => g m.range) = some f)) →
          (FactMap.ofTargets
            ((t.targetsOf ids).filterMap (fun x =>
              (g x.node.range).map
                (fun f => (x, f)))))[n]? = none := by
    intro hOut
    apply Std.TreeMap.getElem?_ofList_of_contains_eq_false
    rw [← Bool.not_eq_true, List.contains_iff_mem, List.mem_map]
    rintro ⟨⟨k, f⟩, hMem, rfl⟩
    exact hOut f (mem_filterMap_targetsOf_iff.1 hMem)
  split
  · rename_i hMem
    cases hFact : (t.get? n).bind (fun m => g m.range) with
    | none =>
        apply hNone
        rintro f ⟨-, hSome⟩
        cases hFact.symm.trans hSome
    | some f => exact hHeld f hMem hFact
  · rename_i hOut
    exact hNone (fun f h => hOut h.1)

------------------------------------------------------------
-- Both Ways of Collecting
------------------------------------------------------------

/- The fact that a strategy finds for a range. -/
def foundFact?
    (s : Snapshot) :
    Strategy → SourceRange → Option TypeFact
  | .bulk => bulkFact? s.facts
  | .point => pointFact? s

section Collect

variable {t : Tree}
variable {ids : List NodeId}

/- Every target is asked about where it starts. -/
theorem run_collect_point
    (engine : Engine)
    (file : String)
    (targets : List Target) :
    ((collect .point file targets).run engine).1 =
      .ok (collectPoints file targets
        (targets.map (fun x =>
          engine.answerAt x.node.range))) := by
  simp only [collect, Dialogue.run_andThen,
    Dialogue.run_queryPoints, List.map_map, Dialogue.run]
  rfl

/- Answers about targets lead to the facts found for them. -/
theorem facts_of_collectPoints
    (engine : Engine)
    (file : String) :
    (collectPoints file (t.targetsOf ids)
      ((t.targetsOf ids).map (fun x =>
        engine.answerAt x.node.range))).facts =
      FactMap.ofTargets
        ((t.targetsOf ids).filterMap (fun x =>
          (askedFact? engine x.node.range).map
            (fun f => (x, f)))) := by
  simp only [collectPoints, ← List.map_prod_left_eq_zip,
    List.map_map, List.filterMap_map]
  rfl

/- Each target has the fact that the strategy finds for it. -/
theorem facts_of_collect
    (hNodup : ids.Nodup)
    (s : Snapshot)
    (strategy : Strategy)
    (engine file : String) :
    ∃ collected,
      (((FactSource.ofEngine strategy engine).collect file t
        ids).run s.engine).1 = .ok collected ∧
      ∀ n, collected.facts[n]? =
        if n ∈ ids then
          (t.get? n).bind
            (fun m => foundFact? s strategy m.range)
        else none := by
  cases strategy with
  | bulk =>
      exact ⟨_, rfl, FactMap.getElem?_ofTargets hNodup _⟩
  | point =>
      refine ⟨_, run_collect_point s.engine file _, ?_⟩
      intro n
      rw [facts_of_collectPoints]
      exact FactMap.getElem?_ofTargets hNodup _ n

end Collect

end TypeGraft
