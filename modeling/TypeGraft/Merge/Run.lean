import TypeGraft.Merge.Collect
import TypeGraft.Merge.Eligibility
import TypeGraft.Merge.Error
import TypeGraft.Merge.Resolve

/-
  Merging an engine's facts into a tree.

  The engine is asked first whether it can be used, then for
  the facts of the targets.  Identifiers are annotated before
  all other targets, each passing its annotation on to its
  parent if that is a target without one.  No node is
  annotated twice.

  Key definitions include:
    * `MergeOptions`
    * `Progress`
    * `Progress.write`
    * `Progress.propagate`
    * `annotateAll`
    * `Merged`
    * `mergeFrom`
    * `merge`
-/

namespace TypeGraft

------------------------------------------------------------
-- Options and Progress
------------------------------------------------------------

/- How to merge. -/
structure MergeOptions where
  strategy : Strategy := .bulk
  eligibility : Eligibility := {}
  dialect : Dialect := {}

/- A tree on its way to being annotated. -/
structure Progress where
  tree : Tree
  stats : MergeStats
  events : List Event := []

namespace Progress

/- Report something. -/
def report
    (p : Progress)
    (e : Event) : Progress :=
  { p with events := p.events ++ [e] }

/- Is a node annotated already? -/
def isAnnotated
    (p : Progress)
    (id : NodeId) : Bool :=
  (p.tree.annotation? id).isSome

/- Annotate a target from its own fact. -/
def write
    (dialect : Dialect)
    (file : String)
    (p : Progress)
    (target : Target)
    (fact : TypeFact) : Progress :=
  match resolve dialect fact with
  | .ok (some type) =>
      { p with
        tree :=
          (p.tree.annotate target.id (.ofFact fact type)).2
        stats :=
          { p.stats with annotated := p.stats.annotated + 1 } }
  | .ok none =>
      { p with
        stats :=
          { p.stats with unknown := p.stats.unknown + 1 } }
  | .error e =>
      let p :=
        p.report
          (.unreadable file target.node.range.start
            target.node.kind (p.tree.describeContext target.id)
            fact.rawType e)
      { p with
        stats := { p.stats with failed := p.stats.failed + 1 } }

/-
  Pass the annotation of a node on to its parent, if that is
  one of the targets and not annotated yet.
-/
def propagate
    (isTarget : NodeId → Bool)
    (p : Progress)
    (id : NodeId) : Progress :=
  match p.tree.parent? id, p.tree.annotation? id with
  | some parent, some a =>
      if isTarget parent && !p.isAnnotated parent then
        { p with
          tree := (p.tree.annotate parent a).2
          stats :=
            { p.stats with
              propagated := p.stats.propagated + 1 } }
      else p
  | _, _ => p

/- Annotate an identifier and pass its annotation on. -/
def visitIdentifier
    (dialect : Dialect)
    (file : String)
    (isTarget : NodeId → Bool)
    (p : Progress)
    (target : Target)
    (fact : TypeFact) : Progress :=
  if p.isAnnotated target.id then p
  else
    (p.write dialect file target fact).propagate isTarget
      target.id

/- Annotate any other target. -/
def visitOther
    (dialect : Dialect)
    (file : String)
    (p : Progress)
    (target : Target)
    (fact : TypeFact) : Progress :=
  if p.isAnnotated target.id then p
  else p.write dialect file target fact

end Progress

/- Is the target an identifier? -/
def Target.isIdentifier
    (t : Target) : Bool :=
  t.node.kind = NodeKind.identifier

/-
  Annotate the targets that have facts, identifiers first.
-/
def annotateAll
    (dialect : Dialect)
    (file : String)
    (isTarget : NodeId → Bool)
    (facts : List (Target × TypeFact))
    (p : Progress) : Progress :=
  let p :=
    (facts.filter (fun f => f.1.isIdentifier)).foldl
      (fun p f =>
        p.visitIdentifier dialect file isTarget f.1 f.2) p
  (facts.filter (fun f => !f.1.isIdentifier)).foldl
    (fun p f => p.visitOther dialect file f.1 f.2) p

------------------------------------------------------------
-- Merging
------------------------------------------------------------

/- An annotated tree and how it came about. -/
structure Merged where
  tree : Tree
  stats : MergeStats

/- The end of a merge, with what it reported. -/
structure MergeRun where
  result : Except MergeError Merged
  events : List Event := []

/- Annotate a cleared tree with the facts collected for it. -/
def mergeCollected
    (dialect : Dialect)
    (file : String)
    (tree : Tree)
    (targets : List NodeId)
    (collected : Collected) : Progress :=
  annotateAll dialect file targets.contains
    (collected.facts.of (tree.targetsOf targets))
    { tree := tree
      stats :=
        { eligible := targets.length
          engineCalls := collected.engineCalls
          factsFound := collected.facts.size
          failedQueries := collected.failedQueries }
      events := collected.events }

/- Collect facts for a cleared tree and annotate it. -/
def mergeCleared
    (source : FactSource)
    (eligibility : Eligibility)
    (dialect : Dialect)
    (file : String)
    (tree : Tree) : Dialogue MergeRun :=
  let targets := eligibility.targets tree
  let opening :=
    Event.collecting file source.strategy targets.length
  (source.collect file tree targets).andThen
    (fun outcome =>
      match outcome with
      | .error e =>
          .done
            ⟨.error (e.asMergeError source.engine), [opening]⟩
      | .ok collected =>
          let p :=
            mergeCollected dialect file tree targets collected
          .done
            ⟨.ok ⟨p.tree, p.stats⟩,
              opening :: p.events ++
                [.complete file source.strategy p.stats]⟩)

/-
  Merge the facts of a source into the tree of a file.
  Annotations that the tree has are discarded.
-/
def mergeFrom
    (source : FactSource)
    (eligibility : Eligibility)
    (dialect : Dialect)
    (file : String)
    (tree : Tree) : Dialogue MergeRun :=
  source.available.andThen (fun r =>
    match r with
    | .error e =>
        .done
          ⟨.error (.engineUnavailable source.engine e.message),
            []⟩
    | .ok () =>
        mergeCleared source eligibility dialect file
          tree.clearAnnotations)

/- Merge with an engine: the outcome and the questions asked. -/
def merge
    (options : MergeOptions)
    (engine : Engine)
    (file : String)
    (tree : Tree) : MergeRun × List Query :=
  (mergeFrom (.ofEngine options.strategy engine.name)
    options.eligibility options.dialect file tree).run engine

end TypeGraft
