import TypeGraft.Json.Record
import TypeGraft.Source.Position

/-
  Type facts: what an engine says about a range of source
  text.

  Key definitions include:
    * `TypeFact`
    * `TypeFact.unknownType`
    * `TypeFact.isUnknown`
    * `TypeFact.scrubbedKeys`
    * `TypeFact.scrubbed`
    * `TypeFact.ofData?`
-/

namespace TypeGraft

------------------------------------------------------------
-- Facts
------------------------------------------------------------

/-
  One statement of an engine: where it applies, the type as
  the engine writes it, and whatever else the engine said.
-/
structure TypeFact where
  range : SourceRange
  rawType : String
  metadata : Members := []

namespace TypeFact

/- What engines write where they know nothing. -/
def unknownType : String := "(unknown)"

/- Does the fact say nothing? -/
def isUnknown
    (f : TypeFact) : Bool :=
  f.rawType = unknownType

/- The span of a fact that stays on one line. -/
def span?
    (f : TypeFact) : Option Span :=
  f.range.span?

/-
  Metadata that differs from run to run (the first three), or
  that repeats the location.
-/
def scrubbedKeys : List String :=
  ["path", "source", "reasons", "loc", "line", "endline",
    "start", "end", "range"]

/- The fact without such metadata. -/
def scrubbed
    (f : TypeFact) : TypeFact :=
  { f with
    metadata :=
      f.metadata.filter (fun m => !scrubbedKeys.contains m.1) }

/- Are two facts the same? -/
def same
    (f g : TypeFact) : Bool :=
  f.range = g.range && f.rawType = g.rawType &&
    f.metadata.same g.metadata

instance : BEq TypeFact := ⟨same⟩

end TypeFact

------------------------------------------------------------
-- Facts from Data
------------------------------------------------------------

/- Read a position from a record. -/
def Position.ofData?
    (rules : DataRules)
    (v : Json) : Option Position := do
  match ← rules.fields? ["line", "column"] false v with
  | [some line, some column] =>
      return ⟨← line.asNat32?, ← column.asNat32?⟩
  | _ => none

/- Read a range from a record. -/
def SourceRange.ofData?
    (rules : DataRules)
    (v : Json) : Option SourceRange := do
  match ← rules.fields? ["start", "end"] false v with
  | [some start, some stop] =>
      return ⟨← Position.ofData? rules start,
        ← Position.ofData? rules stop⟩
  | _ => none

/- Read a fact from a record; it need not have metadata. -/
def TypeFact.ofData?
    (rules : DataRules)
    (v : Json) : Option TypeFact := do
  let fields ←
    rules.fields? ["range", "raw_type", "metadata"] false v
  match fields with
  | [some range, some rawType, metadata] =>
      let range ← SourceRange.ofData? rules range
      let rawType ← rawType.asText?
      let metadata ← Json.orDefault Json.asMembers? [] metadata
      return ⟨range, rawType, metadata⟩
  | _ => none

end TypeGraft
