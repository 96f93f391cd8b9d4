import TypeGraft.Engine.Dialogue
import TypeGraft.Json.Reader

/-
  Recorded answers as an engine.

  Key definitions include:
    * `Snapshot`
    * `Snapshot.ofJson`
    * `Snapshot.parse`
    * `Snapshot.factAt?`
    * `Snapshot.engine`
-/

namespace TypeGraft

/- Everything that an engine once said about a file. -/
structure Snapshot where
  facts : List TypeFact

namespace Snapshot

/- A snapshot from the records of an engine. -/
def ofJson
    (v : Json) : Except EngineError Snapshot :=
  (decodeDump v).map Snapshot.mk

/- A snapshot from JSON text. -/
def parse
    (text : String) : Except EngineError Snapshot :=
  match Json.parse? text with
  | some v => ofJson v
  | none => .error .json

/- Of two facts the one that ends first, else the second. -/
def earlier
    (best : Option TypeFact)
    (f : TypeFact) : Option TypeFact :=
  match best with
  | none => some f
  | some b =>
      if (f.range.stop.compare b.range.stop).isLE then some f
      else some b

/-
  The fact about a position: among those that start there the
  one that ends first, and of several such the last.
-/
def factAt?
    (s : Snapshot)
    (p : Position) : Option TypeFact :=
  (s.facts.filter (fun f => f.range.start = p)).foldl
    earlier none

/- The answer about a position whose column counts from one. -/
def pointAnswer
    (s : Snapshot)
    (line column : Nat) : PointAnswer :=
  match s.factAt? ⟨line, column - 1⟩ with
  | some f => .ofFact f
  | none => .unknown

/- The engine that answers from a snapshot. -/
def engine
    (s : Snapshot) : Engine where
  name := "snapshot"
  answer
    | .available => .ok ()
    | .dump => .ok s.facts
    | .point line column => .ok (s.pointAnswer line column)

end Snapshot

end TypeGraft
