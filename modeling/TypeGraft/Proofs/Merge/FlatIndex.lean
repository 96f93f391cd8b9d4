import TypeGraft.Merge.PositionIndex
import TypeGraft.Proofs.Engine.Snapshot

/-
  An index as one map from spans to facts.

  The maps of an index nest, and its size is counted along.
  Both behave as those of a single map by spans: a fact that
  is put in shows at its own span and at no other, although
  spans share lines and columns, and the count follows the
  number of entries, although entries are replaced.

  Key definitions include:
    * `SpanMap`
    * `SpanMap.add`
    * `PositionIndex.Represents`

  Main declarations:
    * `PositionIndex.find?_add`
    * `PositionIndex.size_add_of_span`
    * `PositionIndex.Represents.add`
    * `PositionIndex.represents_ofFacts`
    * `PositionIndex.find?_ofFacts`
    * `PositionIndex.findRange?_ofFacts`
-/

namespace TypeGraft

------------------------------------------------------------
-- Spans
------------------------------------------------------------

namespace Span

instance : Std.TransCmp compare := by
  unfold compare
  infer_instance

instance : Std.LawfulEqCmp compare where
  eq_of_compare := by
    intro s t h
    cases s
    cases t
    simp [compare, compareLex, compareOn,
      Ordering.then_eq_eq] at h
    simp [h]

end Span

/- A range has a span just if it is the range of that span. -/
theorem SourceRange.span?_eq_some_iff
    {r : SourceRange}
    {span : Span} :
    r.span? = some span ↔ r = span.range := by
  rcases r with ⟨⟨line, column⟩, ⟨endLine, endColumn⟩⟩
  rcases span with ⟨_, _, _⟩
  simp only [span?, isSingleLine, Span.range, onLine,
    decide_eq_true_eq]
  split
  · simp only [Option.some.injEq, Span.mk.injEq,
      SourceRange.mk.injEq, Position.mk.injEq]
    omega
  · simp only [reduceCtorEq, false_iff, SourceRange.mk.injEq,
      Position.mk.injEq]
    omega

/- The last fact about a range, one more fact in front. -/
theorem lastAbout?_cons
    (f : TypeFact)
    (facts : List TypeFact)
    (r : SourceRange) :
    lastAbout? (f :: facts) r =
      (lastAbout? facts r).or
        (if f.range = r then some f else none) := by
  by_cases hEq : f.range = r
  · simp only [lastAbout?, hEq, decide_true,
      List.filter_cons_of_pos, if_true, List.getLast?_cons]
    cases (facts.filter (fun f => f.range = r)).getLast? <;> rfl
  · simp [lastAbout?, hEq]

------------------------------------------------------------
-- One Map
------------------------------------------------------------

/- Facts by their spans, in a single map. -/
abbrev SpanMap :=
  Std.TreeMap Span TypeFact Span.compare

/- The map with one more fact, if the fact has a span. -/
def SpanMap.add
    (entries : SpanMap)
    (f : TypeFact) : SpanMap :=
  match f.span? with
  | none => entries
  | some span => entries.insert span f

namespace PositionIndex

------------------------------------------------------------
-- Nested Maps
------------------------------------------------------------

/- A map on the way that is missing is as good as empty. -/
theorem find?_eq
    (index : PositionIndex)
    (span : Span) :
    index.find? span =
      ((index.lines.getD span.line {}).getD
        span.startColumn {})[span.endColumn]? := by
  simp only [find?, Std.TreeMap.getD_eq_getD_getElem?]
  cases index.lines[span.line]? with
  | none => simp
  | some starts =>
      cases hEnds : starts[span.startColumn]? with
      | none => simp [hEnds]
      | some ends => simp [hEnds]

/- A fact that leaves its line is only counted. -/
theorem add_of_no_span
    (index : PositionIndex)
    {f : TypeFact}
    (hSpan : f.span? = none) :
    index.add f =
      { index with skipped := index.skipped + 1 } := by
  simp only [add, insert, hSpan]

/- A fact shows at its own span and at no other. -/
theorem find?_add_of_span
    (index : PositionIndex)
    {f : TypeFact}
    {own : Span}
    (hSpan : f.span? = some own)
    (span : Span) :
    (index.add f).find? span =
      if own = span then some f else index.find? span := by
  rcases own with ⟨line, startColumn, endColumn⟩
  rcases span with ⟨line', startColumn', endColumn'⟩
  simp only [add, insert, hSpan, find?_eq,
    Std.TreeMap.getD_insert, Nat.compare_eq_eq,
    Span.mk.injEq]
  by_cases hLine : line = line'
  · subst hLine
    by_cases hStart : startColumn = startColumn'
    · subst hStart
      simp [Std.TreeMap.getElem?_insert]
    · simp [hStart, Std.TreeMap.getD_insert]
  · simp [hLine]

/- The size grows just if the span had no fact. -/
theorem size_add_of_span
    (index : PositionIndex)
    {f : TypeFact}
    {span : Span}
    (hSpan : f.span? = some span) :
    (index.add f).size =
      if (index.find? span).isSome then index.size
      else index.size + 1 := by
  simp only [add, insert, hSpan, ← find?_eq]
  cases index.find? span <;> rfl

/- A fact is skipped just if it leaves its line. -/
theorem skipped_add
    (index : PositionIndex)
    (f : TypeFact) :
    (index.add f).skipped =
      index.skipped +
        if f.range.start.line = f.range.stop.line then 0
        else 1 := by
  unfold add insert TypeFact.span? SourceRange.span?
    SourceRange.isSingleLine
  by_cases hLine : f.range.start.line = f.range.stop.line <;>
    simp [hLine]

/- What one more fact changes. -/
theorem find?_add
    (index : PositionIndex)
    (f : TypeFact)
    (span : Span) :
    (index.add f).find? span =
      (if f.range = span.range then some f else none).or
        (index.find? span) := by
  have hShown :
      f.range = span.range ↔ f.span? = some span :=
    SourceRange.span?_eq_some_iff.symm
  simp only [hShown]
  cases hSpan : f.span? with
  | none =>
      rw [index.add_of_no_span hSpan, if_neg (by simp),
        Option.none_or]
      rfl
  | some own =>
      simp only [index.find?_add_of_span hSpan,
        Option.some.injEq]
      split <;> rfl

/- Indexing facts in order, the last of a span counts. -/
theorem find?_foldl
    (index : PositionIndex)
    (facts : List TypeFact)
    (span : Span) :
    (facts.foldl add index).find? span =
      (lastAbout? facts span.range).or (index.find? span) := by
  induction facts generalizing index with
  | nil => rfl
  | cons f facts ih =>
      rw [List.foldl_cons, ih, find?_add, lastAbout?_cons,
        Option.or_assoc]

theorem find?_empty
    (span : Span) :
    ({} : PositionIndex).find? span = none := by
  simp [find?]

/- The fact of a span in the index of a list of facts. -/
theorem find?_ofFacts
    (facts : List TypeFact)
    (span : Span) :
    (ofFacts facts).find? span =
      lastAbout? facts span.range := by
  rw [ofFacts, find?_foldl, find?_empty, Option.or_none]

/- The fact of a range in the index of a list of facts. -/
theorem findRange?_ofFacts
    (facts : List TypeFact)
    (r : SourceRange) :
    (ofFacts facts).findRange? r =
      if r.isSingleLine then lastAbout? facts r else none := by
  unfold findRange?
  cases hSpan : r.span? with
  | none =>
      have hLines : r.isSingleLine = false := by
        simpa [SourceRange.span?] using hSpan
      rw [hLines, Option.bind_none, if_neg (by decide)]
  | some span =>
      have hLine : r.isSingleLine = true := by
        have hIs : r.span?.isSome = true := by rw [hSpan]; rfl
        unfold SourceRange.span? at hIs
        split at hIs
        · assumption
        · cases hIs
      rw [hLine, if_pos rfl, Option.bind_some, find?_ofFacts,
        ← SourceRange.span?_eq_some_iff.1 hSpan]

------------------------------------------------------------
-- Representation
------------------------------------------------------------

/- The index finds what one map by spans holds, and counts it. -/
structure Represents
    (index : PositionIndex)
    (entries : SpanMap) : Prop where
  find? : ∀ span, index.find? span = entries[span]?
  size : index.size = entries.size

namespace Represents

variable {index : PositionIndex}
variable {entries : SpanMap}

theorem empty :
    ({} : PositionIndex).Represents {} where
  find? := by
    intro span
    rw [find?_empty, Std.TreeMap.getElem?_emptyc]
  size := rfl

/- One more fact on both sides. -/
theorem add
    (h : index.Represents entries)
    (f : TypeFact) :
    (index.add f).Represents (entries.add f) := by
  unfold SpanMap.add
  cases hSpan : f.span? with
  | none =>
      rw [index.add_of_no_span hSpan]
      exact ⟨h.find?, h.size⟩
  | some own =>
      refine ⟨?_, ?_⟩
      · intro span
        rw [index.find?_add_of_span hSpan, h.find?,
          Std.TreeMap.getElem?_insert]
        simp only [Std.LawfulEqCmp.compare_eq_iff_eq]
      · rw [index.size_add_of_span hSpan, h.find?, h.size,
          Std.TreeMap.size_insert,
          Std.TreeMap.contains_eq_isSome_getElem?]

/- Several more facts on both sides. -/
theorem foldl_add
    (h : index.Represents entries)
    (facts : List TypeFact) :
    (facts.foldl PositionIndex.add index).Represents
      (facts.foldl SpanMap.add entries) := by
  induction facts generalizing index entries with
  | nil => exact h
  | cons f facts ih => exact ih (h.add f)

end Represents

/- So it is for every index that is made from facts. -/
theorem represents_ofFacts
    (facts : List TypeFact) :
    (ofFacts facts).Represents (facts.foldl SpanMap.add {}) :=
  Represents.empty.foldl_add facts

end PositionIndex

end TypeGraft
