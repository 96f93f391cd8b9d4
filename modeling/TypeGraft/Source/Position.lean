/-
  Places in source text.

  Lines count from one and columns from zero.

  Key definitions include:
    * `Position`
    * `SourceRange`
    * `Span`
    * `SourceRange.span?`
    * `Span.range`
-/

namespace TypeGraft

------------------------------------------------------------
-- Positions
------------------------------------------------------------

/- A line and a column. -/
structure Position where
  line : Nat
  column : Nat
deriving DecidableEq, Repr

namespace Position

/- Compare lines first and columns next. -/
def compare : Position → Position → Ordering :=
  compareLex (compareOn Position.line)
    (compareOn Position.column)

/- The text of a position. -/
def text
    (p : Position) : String :=
  s!"{p.line}:{p.column}"

end Position

------------------------------------------------------------
-- Spans
------------------------------------------------------------

/- A stretch of one line. -/
structure Span where
  line : Nat
  startColumn : Nat
  endColumn : Nat
deriving DecidableEq, Repr

namespace Span

/- Compare lines, then start columns, then end columns. -/
def compare : Span → Span → Ordering :=
  compareLex (compareOn Span.line)
    (compareLex (compareOn Span.startColumn)
      (compareOn Span.endColumn))

/- Where a span starts. -/
def start
    (s : Span) : Position :=
  ⟨s.line, s.startColumn⟩

/- The text of a span. -/
def text
    (s : Span) : String :=
  s!"{s.line}:[{s.startColumn}, {s.endColumn})"

end Span

------------------------------------------------------------
-- Ranges
------------------------------------------------------------

/- From one position to another. -/
structure SourceRange where
  start : Position
  stop : Position
deriving DecidableEq, Repr

namespace SourceRange

/- A range on one line. -/
def onLine
    (line startColumn endColumn : Nat) : SourceRange :=
  ⟨⟨line, startColumn⟩, ⟨line, endColumn⟩⟩

/- Does the range end on the line it starts on? -/
def isSingleLine
    (r : SourceRange) : Bool :=
  r.start.line = r.stop.line

/- The span of a range that stays on one line. -/
def span?
    (r : SourceRange) : Option Span :=
  if r.isSingleLine then
    some ⟨r.start.line, r.start.column, r.stop.column⟩
  else none

/- The text of a range. -/
def text
    (r : SourceRange) : String :=
  s!"{r.start.text}-{r.stop.text}"

end SourceRange

/- The range that a span covers. -/
def Span.range
    (s : Span) : SourceRange :=
  .onLine s.line s.startColumn s.endColumn

end TypeGraft
