import TypeGraft.Engine.Snapshot

/-
  Engines that follow a script.

  A script says which questions fail and which positions have
  a record of their own; a snapshot answers the rest.

  Key definitions include:
    * `Script`
    * `Script.engine`
-/

namespace TypeGraft

/- What an engine is to answer. -/
structure Script where
  /- Why the engine cannot be used. -/
  unavailable : Option EngineError := none
  /- Why the file as a whole cannot be described. -/
  dumpFails : Option EngineError := none
  /- Lines and columns of which the type cannot be told. -/
  pointFails : List ((Nat × Nat) × EngineError) := []
  /- Records for lines and columns. -/
  records : List ((Nat × Nat) × Json) := []
  /- What answers everything else. -/
  snapshot : Snapshot

namespace Script

/- The answer about a line and a column. -/
def pointAnswer
    (s : Script)
    (line column : Nat) : Except EngineError PointAnswer :=
  match s.pointFails.lookup (line, column) with
  | some e => .error e
  | none =>
      match s.records.lookup (line, column) with
      | some record => decodePoint record
      | none => .ok (s.snapshot.pointAnswer line column)

/- Fail for a reason, if there is one. -/
def unlessFailing
    {α : Type}
    (reason : Option EngineError)
    (a : α) : Except EngineError α :=
  match reason with
  | some e => .error e
  | none => .ok a

/- The engine that follows a script. -/
def engine
    (s : Script) : Engine where
  name := "scripted"
  answer
    | .available => unlessFailing s.unavailable ()
    | .dump => unlessFailing s.dumpFails s.snapshot.facts
    | .point line column => s.pointAnswer line column

end Script

end TypeGraft
