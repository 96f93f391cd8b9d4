import TypeGraft.Engine.Dialogue
import TypeGraft.Merge.Event
import TypeGraft.Merge.PositionIndex

/-
  Facts for the targets of a merge.

  In bulk, one question about the file gives all facts, and a
  target has the fact with exactly its span.  Point by point,
  each target is asked about on its own; an answer located at
  another range is dropped, and a failure leaves only its own
  target without a fact.

  A source of facts is anything that can be asked whether it
  is available and then for the facts of some nodes.

  Key definitions include:
    * `Target`
    * `FactMap`
    * `Collected`
    * `PointFinding`
    * `collectBulk`
    * `collectPoints`
    * `collect`
    * `FactSource`
    * `FactSource.ofEngine`
-/

namespace TypeGraft

/- A node to be annotated, with its id. -/
structure Target where
  id : NodeId
  node : Node

/- The nodes of a tree that have some ids. -/
def Tree.targetsOf
    (t : Tree)
    (ids : List NodeId) : List Target :=
  ids.filterMap (fun id => (t.get? id).map (Target.mk id))

namespace NodeId

/- Compare node ids by their places. -/
def compare : NodeId → NodeId → Ordering :=
  compareOn NodeId.index

instance : Std.TransCmp compare := by
  unfold compare
  infer_instance

instance : Std.LawfulEqCmp compare where
  eq_of_compare := by
    intro m n h
    cases m
    cases n
    simpa [compare, compareOn] using h

end NodeId

/- Facts by the nodes that they are for. -/
abbrev FactMap :=
  Std.TreeMap NodeId TypeFact NodeId.compare

/- The targets that have a fact, in their order. -/
def FactMap.of
    (facts : FactMap)
    (targets : List Target) : List (Target × TypeFact) :=
  targets.filterMap (fun target =>
    facts[target.id]?.map (fun f => (target, f)))

/- The map of some facts and their targets. -/
def FactMap.ofTargets
    (facts : List (Target × TypeFact)) : FactMap :=
  .ofList (facts.map (fun f => (f.1.id, f.2))) NodeId.compare

/- The facts for some targets. -/
structure Collected where
  facts : FactMap
  engineCalls : Nat
  failedQueries : Nat := 0
  events : List Event := []

------------------------------------------------------------
-- In Bulk
------------------------------------------------------------

/- The facts that an index has for some targets. -/
def indexedFacts
    (index : PositionIndex)
    (targets : List Target) : List (Target × TypeFact) :=
  targets.filterMap (fun target =>
    (index.findRange? target.node.range).map
      (fun f => (target, f)))

/- Collect facts from everything an engine says of a file. -/
def collectBulk
    (targets : List Target)
    (facts : List TypeFact) : Collected :=
  let index := PositionIndex.ofFacts facts
  { facts := .ofTargets (indexedFacts index targets)
    engineCalls := 1
    events := [.indexed index.size index.skipped] }

------------------------------------------------------------
-- Point by Point
------------------------------------------------------------

/- What an answer means for the target it was asked for. -/
inductive PointFinding where
  | fact (f : TypeFact)
  | elsewhere (located : SourceRange)
  | failed (e : EngineError)

namespace PointFinding

/- Read an answer about the node at a range. -/
def ofAnswer
    (range : SourceRange) :
    Except EngineError PointAnswer → PointFinding
  | .error e => .failed e
  | .ok a =>
      match a.range with
      | none => .fact (a.toFact range)
      | some located =>
          if located = range then .fact (a.toFact range)
          else .elsewhere located

/- The fact in a finding. -/
def fact? : PointFinding → Option TypeFact
  | .fact f => some f
  | _ => none

/- Did the question fail? -/
def isFailure : PointFinding → Bool
  | .failed _ => true
  | _ => false

/- What there is to report of a finding. -/
def event?
    (file : String)
    (node : Node) : PointFinding → Option Event
  | .fact _ => none
  | .elsewhere located =>
      some (.answeredElsewhere node.range.start node.kind located)
  | .failed e =>
      some (.queryFailed file node.range.start node.kind e)

end PointFinding

/- Collect facts from answers about each target. -/
def collectPoints
    (file : String)
    (targets : List Target)
    (answers : List (Except EngineError PointAnswer)) :
    Collected :=
  let findings :=
    (targets.zip answers).map (fun p =>
      (p.1, PointFinding.ofAnswer p.1.node.range p.2))
  { facts :=
      .ofTargets
        (findings.filterMap (fun p =>
          p.2.fact?.map (fun f => (p.1, f))))
    engineCalls := answers.length
    failedQueries := findings.countP (fun p => p.2.isFailure)
    events :=
      findings.filterMap (fun p => p.2.event? file p.1.node) }

------------------------------------------------------------
-- Both
------------------------------------------------------------

/- Ask for the facts of some targets. -/
def collect
    (strategy : Strategy)
    (file : String)
    (targets : List Target) :
    Dialogue (Except EngineError Collected) :=
  match strategy with
  | .bulk =>
      .ask .dump (fun r => .done (r.map (collectBulk targets)))
  | .point =>
      (Dialogue.queryPoints
        (targets.map (fun t => t.node.range.start))).andThen
        (fun answers =>
          .done (.ok (collectPoints file targets answers)))

/-
  Where the facts of a merge come from.  It is asked once
  whether it is available, and then for the facts of some
  nodes of the tree of a file.
-/
structure FactSource where
  engine : String
  strategy : Strategy
  available : Dialogue (Except EngineError Unit)
  collect :
    String → Tree → List NodeId →
      Dialogue (Except EngineError Collected)

/- An engine of some name as a source of facts. -/
def FactSource.ofEngine
    (strategy : Strategy)
    (engine : String) : FactSource where
  engine := engine
  strategy := strategy
  available := .query .available
  collect file tree ids :=
    TypeGraft.collect strategy file (tree.targetsOf ids)

end TypeGraft
