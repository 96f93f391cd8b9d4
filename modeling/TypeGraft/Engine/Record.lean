import TypeGraft.Engine.Error
import TypeGraft.Source.Fact

/-
  Records in which an engine writes its answers.

  A record has the `type` as text and, if the engine can
  place its answer, a location.  Its columns count from one
  and its end column belongs to the location; here columns
  count from zero and ends are exclusive.

  Key definitions include:
    * `PointAnswer`
    * `PointAnswer.toFact`
    * `recordRange?`
    * `decodePoint`
    * `decodeDump`
-/

namespace TypeGraft

------------------------------------------------------------
-- Answers
------------------------------------------------------------

/- The answer to a question about one position. -/
structure PointAnswer where
  rawType : String
  /- Where the engine says that the answer applies. -/
  range : Option SourceRange := none
  metadata : Members := []

namespace PointAnswer

/- The answer that says nothing. -/
def unknown : PointAnswer where
  rawType := TypeFact.unknownType

/- Does the answer say nothing? -/
def isUnknown
    (a : PointAnswer) : Bool :=
  a.rawType = TypeFact.unknownType

/- The answer as a fact about the node at a range. -/
def toFact
    (a : PointAnswer)
    (range : SourceRange) : TypeFact :=
  ⟨range, a.rawType, a.metadata⟩

/- The answer that a fact gives. -/
def ofFact
    (f : TypeFact) : PointAnswer :=
  ⟨f.rawType, some f.range, f.metadata⟩

end PointAnswer

------------------------------------------------------------
-- Decoding
------------------------------------------------------------

/- A member that holds a line or a column. -/
def coordinate?
    (record : Members)
    (key : String) : Option Nat :=
  (record.get? key).bind Json.asNat32?

/-
  The location of a record.  Without an end line it ends on
  the line it starts on; on line zero it is no location.
-/
def recordRange?
    (record : Members) : Option SourceRange := do
  let line ← coordinate? record "line"
  let endLine := (coordinate? record "endline").getD line
  let start ← coordinate? record "start"
  let stop ← coordinate? record "end"
  if line = 0 then none
  else some ⟨⟨line, start - 1⟩, ⟨endLine, stop⟩⟩

/- What a record says besides the type. -/
def recordMetadata
    (record : Members) : Members :=
  record.eraseSwap "type"

/- Decode the answer to a question about one position. -/
def decodePoint : Json → Except EngineError PointAnswer
  | .obj record =>
      match Members.get? record "type" with
      | some (.str rawType) =>
          .ok ⟨rawType, recordRange? record,
            recordMetadata record⟩
      | some _ => .error (.malformed "`type` is not a string")
      | none => .error (.malformed "missing `type`")
  | _ =>
      .error (.malformed "type-at-pos output is not an object")

/- The fact in a record with a text type and a location. -/
def recordFact?
    (record : Members) : Option TypeFact :=
  match record.get? "type", recordRange? record with
  | some (.str rawType), some range =>
      some ⟨range, rawType, recordMetadata record⟩
  | _, _ => none

/- Decode records that have to be objects, from entry `i` on. -/
def decodeEntries
    (i : Nat) :
    List Json → Except EngineError (List TypeFact)
  | [] => .ok []
  | .obj record :: entries =>
      match decodeEntries (i + 1) entries with
      | .error e => .error e
      | .ok facts => .ok ((recordFact? record).toList ++ facts)
  | _ :: _ =>
      .error (.malformed s!"entry {i} is not an object")

/-
  Decode everything an engine knows about a file.  Records
  without a text type or a location are left out.
-/
def decodeDump : Json → Except EngineError (List TypeFact)
  | .arr entries => decodeEntries 0 entries
  | _ =>
      .error (.malformed "dump-types output is not an array")

end TypeGraft
