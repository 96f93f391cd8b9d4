import TypeGraft.Engine.Error
import TypeGraft.FlowType.Parser
import TypeGraft.Tree.Basic

/-
  What a merge reports while it runs.

  Key definitions include:
    * `Strategy`
    * `MergeStats`
    * `Event`
    * `Event.level`
    * `Event.fields`
-/

namespace TypeGraft

------------------------------------------------------------
-- Strategies and Statistics
------------------------------------------------------------

/- How facts are obtained. -/
inductive Strategy where
  /- Ask once about the whole file. -/
  | bulk
  /- Ask about each target. -/
  | point
deriving DecidableEq, Repr

namespace Strategy

/- The name of a strategy. -/
def name : Strategy → String
  | .bulk => "bulk"
  | .point => "point"

/- The strategies. -/
def all : List Strategy := [.bulk, .point]

end Strategy

/- What happened in a merge. -/
structure MergeStats where
  /- Nodes that may carry a type. -/
  eligible : Nat := 0
  /- Questions asked about types. -/
  engineCalls : Nat := 0
  /- Targets with a fact. -/
  factsFound : Nat := 0
  /- Nodes annotated from their own fact. -/
  annotated : Nat := 0
  /- Nodes annotated from a name inside them. -/
  propagated : Nat := 0
  /- Facts that say nothing. -/
  unknown : Nat := 0
  /- Facts that could not be read. -/
  failed : Nat := 0
  /- Questions about one position that failed. -/
  failedQueries : Nat := 0
deriving DecidableEq, Repr

/- Statistics as members of an object. -/
def MergeStats.toJson
    (s : MergeStats) : Json :=
  .obj
    [("eligible", .ofNat s.eligible),
      ("engine_calls", .ofNat s.engineCalls),
      ("facts_found", .ofNat s.factsFound),
      ("annotated", .ofNat s.annotated),
      ("propagated", .ofNat s.propagated),
      ("unknown", .ofNat s.unknown),
      ("failed", .ofNat s.failed),
      ("failed_queries", .ofNat s.failedQueries)]

------------------------------------------------------------
-- Events
------------------------------------------------------------

/- How much attention an event deserves. -/
inductive LogLevel where
  | debug
  | info
  | warn
deriving DecidableEq, Repr

/- The name of a level. -/
def LogLevel.name : LogLevel → String
  | .debug => "DEBUG"
  | .info => "INFO"
  | .warn => "WARN"

/- Something that happened during a merge. -/
inductive Event where
  /- The targets are known and facts are about to be asked. -/
  | collecting
      (file : String)
      (strategy : Strategy)
      (targets : Nat)
  /- The facts of the file are indexed. -/
  | indexed (size skipped : Nat)
  /- An answer about a node belongs somewhere else. -/
  | answeredElsewhere
      (start : Position)
      (kind : NodeKind)
      (located : SourceRange)
  /- A question about a node failed. -/
  | queryFailed
      (file : String)
      (start : Position)
      (kind : NodeKind)
      (error : EngineError)
  /- The text of a fact is not a type. -/
  | unreadable
      (file : String)
      (start : Position)
      (kind : NodeKind)
      (context : String)
      (raw : String)
      (error : ParseError)
  /- The merge is done. -/
  | complete
      (file : String)
      (strategy : Strategy)
      (stats : MergeStats)

namespace Event

/- The level of an event. -/
def level : Event → LogLevel
  | .collecting .. => .debug
  | .indexed .. => .debug
  | .answeredElsewhere .. => .debug
  | .queryFailed .. => .warn
  | .unreadable .. => .warn
  | .complete .. => .info

/- The message of an event. -/
def message : Event → String
  | .collecting .. => "collecting facts"
  | .indexed .. => "built position index"
  | .answeredElsewhere .. =>
      "point answer belongs to another span"
  | .queryFailed .. => "type query failed"
  | .unreadable .. => "could not parse inferred type"
  | .complete .. => "merge complete"

/- A position as two fields. -/
def positionFields
    (p : Position) : Members :=
  [("line", .ofNat p.line), ("column", .ofNat p.column)]

/- The fields of an event besides the message. -/
def details : Event → Members
  | .collecting file strategy targets =>
      [("file", .str file), ("strategy", .str strategy.name),
        ("targets", .ofNat targets)]
  | .indexed size skipped =>
      [("indexed", .ofNat size), ("multi_line", .ofNat skipped)]
  | .answeredElsewhere start kind located =>
      positionFields start ++
        [("kind", .str kind.name),
          ("answered", .str located.text)]
  | .queryFailed file start kind error =>
      [("file", .str file)] ++ positionFields start ++
        [("kind", .str kind.name),
          ("error", .str error.message)]
  | .unreadable file start kind context raw error =>
      [("file", .str file)] ++ positionFields start ++
        [("kind", .str kind.name), ("context", .str context),
          ("raw", .str raw), ("error", .str error.message)]
  | .complete file strategy s =>
      [("file", .str file), ("strategy", .str strategy.name),
        ("eligible", .ofNat s.eligible),
        ("engine_calls", .ofNat s.engineCalls),
        ("facts", .ofNat s.factsFound),
        ("annotated", .ofNat s.annotated),
        ("propagated", .ofNat s.propagated),
        ("unknown", .ofNat s.unknown),
        ("failed", .ofNat s.failed),
        ("failed_queries", .ofNat s.failedQueries)]

/- The fields of an event, the message first. -/
def fields
    (e : Event) : Members :=
  ("message", .str e.message) :: e.details

end Event

end TypeGraft
