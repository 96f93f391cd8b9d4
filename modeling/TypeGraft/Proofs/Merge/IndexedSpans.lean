import Mathlib.Data.Finset.Card
import TypeGraft.Proofs.Merge.FlatIndex

/-
  What an index holds after any history of facts.

  A span has the last fact that was put in for it.  The index
  has counted every span of a fact on one line once, and it
  has skipped all other facts.

  Key definitions include:
    * `TypeFact.Covers`

  Main declarations:
    * `lastAbout?_eq_some_iff`
    * `PositionIndex.size_ofFacts`
    * `PositionIndex.skipped_foldl`
    * `PositionIndex.contents_of_history`
-/

namespace TypeGraft

------------------------------------------------------------
-- Facts of a Span
------------------------------------------------------------

/- The fact stays on one line and is about exactly this span. -/
structure TypeFact.Covers
    (f : TypeFact)
    (span : Span) : Prop where
  singleLine : f.range.start.line = f.range.stop.line
  line : f.range.start.line = span.line
  startColumn : f.range.start.column = span.startColumn
  endColumn : f.range.stop.column = span.endColumn

theorem TypeFact.covers_iff
    {f : TypeFact}
    {span : Span} :
    f.Covers span ↔ f.range = span.range := by
  rcases f with ⟨⟨⟨line, column⟩, ⟨endLine, endColumn⟩⟩, _, _⟩
  simp only [Span.range, SourceRange.onLine,
    SourceRange.mk.injEq, Position.mk.injEq]
  constructor
  · rintro ⟨hSingle, hLine, hStart, hEnd⟩
    exact ⟨⟨hLine, hStart⟩, hSingle.symm.trans hLine, hEnd⟩
  · rintro ⟨⟨hLine, hStart⟩, hStop, hEnd⟩
    exact ⟨hLine.trans hStop.symm, hLine, hStart, hEnd⟩

/- Behind the last fact about a range there is no other. -/
theorem lastAbout?_eq_some_iff
    {facts : List TypeFact}
    {f : TypeFact}
    {r : SourceRange} :
    lastAbout? facts r = some f ↔
      ∃ before after,
        facts = before ++ f :: after ∧
        f.range = r ∧
        ∀ g ∈ after, g.range ≠ r := by
  constructor
  · intro h
    have hFind :
        facts.reverse.find? (fun f => f.range = r) = some f := by
      rw [← h, lastAbout?, ← List.head?_reverse,
        ← List.filter_reverse, List.head?_filter]
    rcases List.find?_eq_some_iff_append.1 hFind with
      ⟨hRange, later, earlier, hSplit, hLater⟩
    refine ⟨earlier.reverse, later.reverse, ?_, ?_, ?_⟩
    · rw [← List.reverse_reverse facts, hSplit]
      simp
    · simpa using hRange
    · intro g hMem
      simpa using hLater g (List.mem_reverse.1 hMem)
  · rintro ⟨before, after, rfl, hRange, hLater⟩
    have hNone :
        after.filter (fun g => g.range = r) = [] := by
      simpa using hLater
    rw [lastAbout?, List.filter_append,
      List.filter_cons_of_pos (by simpa using hRange), hNone,
      List.getLast?_append]
    rfl

namespace PositionIndex

------------------------------------------------------------
-- Counted Spans
------------------------------------------------------------

/- The spans that have a fact are those of the facts. -/
theorem isSome_find?_ofFacts_iff
    {facts : List TypeFact}
    {span : Span} :
    ((ofFacts facts).find? span).isSome = true ↔
      span ∈ facts.filterMap TypeFact.span? := by
  rw [Option.isSome_iff_exists, find?_ofFacts,
    List.mem_filterMap]
  constructor
  · rintro ⟨f, hLast⟩
    rcases mem_of_lastAbout? hLast with ⟨hMem, hRange⟩
    exact ⟨f, hMem, SourceRange.span?_eq_some_iff.2 hRange⟩
  · rintro ⟨f, hMem, hSpan⟩
    exact exists_lastAbout? hMem
      (SourceRange.span?_eq_some_iff.1 hSpan)

/-
  The count that is kept along is the number of different
  spans.  It is the size of the one map that the index
  represents, and the keys of that map are those spans.
-/
theorem size_ofFacts
    (facts : List TypeFact) :
    (ofFacts facts).size =
      (facts.filterMap TypeFact.span?).toFinset.card := by
  have hMap := represents_ofFacts facts
  have hKeys :
      (facts.foldl SpanMap.add {}).keys.toFinset =
        (facts.filterMap TypeFact.span?).toFinset := by
    ext span
    rw [List.mem_toFinset, List.mem_toFinset,
      Std.TreeMap.mem_keys,
      Std.TreeMap.mem_iff_isSome_getElem?, ← hMap.find?,
      isSome_find?_ofFacts_iff]
  rw [← hKeys,
    List.toFinset_card_of_nodup Std.TreeMap.nodup_keys,
    Std.TreeMap.length_keys, hMap.size]

/- An index is empty just if every fact leaves its line. -/
theorem isEmpty_ofFacts_iff
    {facts : List TypeFact} :
    (ofFacts facts).isEmpty = true ↔
      ∀ f ∈ facts,
        f.range.start.line ≠ f.range.stop.line := by
  rw [isEmpty, decide_eq_true_eq, size_ofFacts,
    Finset.card_eq_zero, List.toFinset_eq_empty_iff,
    List.filterMap_eq_nil_iff]
  simp [TypeFact.span?, SourceRange.span?,
    SourceRange.isSingleLine]

------------------------------------------------------------
-- Skipped Facts
------------------------------------------------------------

theorem skipped_foldl
    (index : PositionIndex)
    (facts : List TypeFact) :
    (facts.foldl add index).skipped =
      index.skipped +
        facts.countP
          (fun f => f.range.start.line ≠ f.range.stop.line) := by
  induction facts generalizing index with
  | nil => rfl
  | cons f facts ih =>
      rw [List.foldl_cons, ih, skipped_add,
        List.countP_cons]
      by_cases hLine :
          f.range.start.line = f.range.stop.line
      · simp [hLine]
      · simp [hLine]
        omega

------------------------------------------------------------
-- Histories
------------------------------------------------------------

/- Putting a fact in says whether the fact has a span. -/
theorem fst_insert
    (index : PositionIndex)
    (f : TypeFact) :
    (index.insert f).1 =
      decide (f.range.start.line = f.range.stop.line) := by
  unfold insert TypeFact.span? SourceRange.span?
    SourceRange.isSingleLine
  by_cases hLine : f.range.start.line = f.range.stop.line <;>
    simp [hLine]

/-
  Whatever facts are put into an index, at once or one after
  another, a span has the last of those that cover it.  A
  range over several lines has none.  The entries are counted
  by their spans, whatever was replaced on the way, and the
  facts over several lines are counted as skipped; putting a
  fact in says which of the two it is.
-/
theorem contents_of_history
    (facts : List TypeFact) :
    (∀ f,
      (ofFacts facts).insert f =
        (decide (f.range.start.line = f.range.stop.line),
          ofFacts (facts ++ [f]))) ∧
    (∀ later,
      later.foldl (fun index f => (index.insert f).2)
          (ofFacts facts) =
        ofFacts (facts ++ later)) ∧
    (∀ span f,
      (ofFacts facts).find? span = some f ↔
        ∃ before after,
          facts = before ++ f :: after ∧
          f.Covers span ∧
          ∀ g ∈ after, ¬ g.Covers span) ∧
    (∀ span,
      (ofFacts facts).find? span = none ↔
        ∀ f ∈ facts, ¬ f.Covers span) ∧
    (∀ r,
      (ofFacts facts).findRange? r =
        if r.start.line = r.stop.line then
          (ofFacts facts).find?
            ⟨r.start.line, r.start.column, r.stop.column⟩
        else none) ∧
    (ofFacts facts).size =
      (facts.filterMap TypeFact.span?).toFinset.card ∧
    ((ofFacts facts).isEmpty = true ↔
      ∀ f ∈ facts,
        f.range.start.line ≠ f.range.stop.line) ∧
    (ofFacts facts).skipped =
      facts.countP
        (fun f =>
          f.range.start.line ≠ f.range.stop.line) := by
  have hLater :
      ∀ later, later.foldl add (ofFacts facts) =
        ofFacts (facts ++ later) :=
    fun _ => List.foldl_append.symm
  refine ⟨?_, hLater, ?_, ?_, ?_, size_ofFacts facts,
    isEmpty_ofFacts_iff, ?_⟩
  · intro f
    exact Prod.ext (fst_insert _ f) (hLater [f])
  · intro span f
    rw [find?_ofFacts]
    simp only [lastAbout?_eq_some_iff, TypeFact.covers_iff]
  · intro span
    rw [find?_ofFacts]
    simp only [lastAbout?_eq_none_iff, TypeFact.covers_iff]
  · intro r
    unfold findRange? SourceRange.span?
      SourceRange.isSingleLine
    by_cases hLine : r.start.line = r.stop.line <;>
      simp [hLine]
  · exact (skipped_foldl {} facts).trans (Nat.zero_add _)

/-
  Three facts for two spans with one start, and one fact that
  leaves its line.
-/
example :
    (ofFacts
      [⟨.onLine 4 2 5, "A", []⟩, ⟨.onLine 4 2 9, "B", []⟩,
        ⟨⟨⟨4, 2⟩, ⟨5, 9⟩⟩, "C", []⟩,
        ⟨.onLine 4 2 5, "D", []⟩]).size = 2 := by
  decide +kernel

end PositionIndex

end TypeGraft
