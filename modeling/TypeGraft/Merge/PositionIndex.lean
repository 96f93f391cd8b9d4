import Std.Data.TreeMap
import TypeGraft.Source.Fact

/-
  Facts by their exact spans.

  Only facts that stay on one line are indexed, and the last
  fact of a span counts.  A fact is found by its line, then by
  its start column, and last by its end column.

  Key definitions include:
    * `PositionIndex`
    * `PositionIndex.insert`
    * `PositionIndex.ofFacts`
    * `PositionIndex.find?`
    * `PositionIndex.findRange?`
    * `PositionIndex.isEmpty`
-/

namespace TypeGraft

/- Facts with one start, by their end columns. -/
abbrev EndColumns := Std.TreeMap Nat TypeFact

/- Facts of one line, by their start columns. -/
abbrev StartColumns := Std.TreeMap Nat EndColumns

/-
  Facts by line, the number of spans that have a fact, and how
  many facts had no span.
-/
structure PositionIndex where
  lines : Std.TreeMap Nat StartColumns := {}
  size : Nat := 0
  skipped : Nat := 0

namespace PositionIndex

/-
  Index a fact, or count it as skipped, and say which of the
  two.  The maps on the way are made where they are missing,
  and the size grows only if the span had no fact before.
-/
def insert
    (index : PositionIndex)
    (f : TypeFact) : Bool × PositionIndex :=
  match f.span? with
  | none =>
      (false, { index with skipped := index.skipped + 1 })
  | some span =>
      let starts := index.lines.getD span.line {}
      let ends := starts.getD span.startColumn {}
      let previous := ends[span.endColumn]?
      (true,
        { index with
          lines :=
            index.lines.insert span.line
              (starts.insert span.startColumn
                (ends.insert span.endColumn f))
          size :=
            if previous.isNone then index.size + 1
            else index.size })

/- The index with one more fact. -/
def add
    (index : PositionIndex)
    (f : TypeFact) : PositionIndex :=
  (index.insert f).2

/- Index several facts in order. -/
def ofFacts
    (facts : List TypeFact) : PositionIndex :=
  facts.foldl add {}

/- The fact of a span. -/
def find?
    (index : PositionIndex)
    (span : Span) : Option TypeFact := do
  let starts ← index.lines[span.line]?
  let ends ← starts[span.startColumn]?
  ends[span.endColumn]?

/- The fact of a range; a range over lines has none. -/
def findRange?
    (index : PositionIndex)
    (range : SourceRange) : Option TypeFact :=
  range.span?.bind index.find?

/- Does no span have a fact? -/
def isEmpty
    (index : PositionIndex) : Bool :=
  index.size = 0

end PositionIndex

end TypeGraft
