import Mathlib.Data.List.Forall2
import TypeGraft.Proofs.Merge.ClosedForm

/-
  What a merge asks, and when it fails.

  The first question is whether the engine can be used, and it
  is asked once.  If it can be, a merge in bulk asks for all
  facts at once, and a merge point by point asks one question
  about each target, parents first.  Only the first question
  and the one for all facts can make a merge fail.

  Nothing of this needs an engine that always answers alike:
  what it answers may depend on all that it was asked before,
  so that of two questions about one position one can fail and
  the other succeed.

  Key definitions include:
    * `MutableEngine`
    * `Dialogue.runAfter`
    * `Node.startQuery`

  Main declarations:
    * `Dialogue.runAfter_andThen`
    * `Dialogue.runAfter_ofEngine`
    * `runAfter_collect_point`
    * `questions_of_merge`
-/

namespace TypeGraft

------------------------------------------------------------
-- Engines that Change
------------------------------------------------------------

/-
  An engine whose answers may depend on the questions that it
  was asked before.
-/
structure MutableEngine where
  name : String
  answer : List Query → (q : Query) → q.Answer

/- An engine that always answers alike. -/
def MutableEngine.ofEngine
    (engine : Engine) : MutableEngine where
  name := engine.name
  answer _ := engine.answer

namespace Dialogue

variable {α β : Type}

/-
  Hold a dialogue with an engine that was asked some questions
  before: the result and all questions asked.
-/
def runAfter
    (engine : MutableEngine)
    (asked : List Query) :
    Dialogue α → α × List Query
  | .done a => (a, asked)
  | .ask q next =>
      runAfter engine (asked ++ [q])
        (next (engine.answer asked q))

variable (engine : MutableEngine)
variable (asked : List Query)

/- One part after the other. -/
theorem runAfter_andThen
    (d : Dialogue α)
    (f : α → Dialogue β) :
    (d.andThen f).runAfter engine asked =
      (f (d.runAfter engine asked).1).runAfter engine
        (d.runAfter engine asked).2 := by
  induction d generalizing asked with
  | done a => rfl
  | ask q next ih => exact ih _ _

/- Each position is asked about on its own. -/
theorem runAfter_queryPoints
    (ps : List Position) :
    ((queryPoints ps).runAfter engine asked).2 =
      asked ++
        ps.map (fun p => .point p.line (p.column + 1)) := by
  induction ps generalizing asked with
  | nil => simp [queryPoints, runAfter]
  | cons p ps ih =>
      simp only [queryPoints, runAfter, runAfter_andThen, ih,
        List.map_cons, List.append_assoc,
        List.singleton_append]

/- What is asked before does not matter to other engines. -/
theorem runAfter_ofEngine
    (engine : Engine)
    (d : Dialogue α) :
    d.runAfter (.ofEngine engine) asked =
      ((d.run engine).1, asked ++ (d.run engine).2) := by
  induction d generalizing asked with
  | done a => simp [runAfter, run]
  | ask q next ih =>
      rw [runAfter, ih]
      simp [run, MutableEngine.ofEngine]

end Dialogue

------------------------------------------------------------
-- Questions about Targets
------------------------------------------------------------

/- The question about where a node starts. -/
def Node.startQuery
    (n : Node) : Query :=
  .point n.range.start.line (n.range.start.column + 1)

/-
  Every target is in the table and is asked about once, for
  annotations do not move a node.
-/
theorem forall₂_startQuery
    (eligibility : Eligibility)
    (t : Tree) :
    List.Forall₂
      (fun id q => ∃ n, t.get? id = some n ∧ q = n.startQuery)
      (eligibility.targets t)
      ((t.clearAnnotations.targetsOf
        (eligibility.targets t)).map
          (fun x => x.node.startQuery)) := by
  have hNodes :
      ∀ id ∈ eligibility.targets t, ∃ n, t.get? id = some n :=
    fun _ => Eligibility.exists_node_of_mem_targets
  generalize eligibility.targets t = ids at hNodes
  induction ids with
  | nil => exact .nil
  | cons id ids ih =>
      rw [List.forall_mem_cons] at hNodes
      rcases hNodes with ⟨⟨n, hNode⟩, hRest⟩
      have hSplit :
          t.clearAnnotations.targetsOf (id :: ids) =
            ⟨id, { n with annotation := none }⟩ ::
              t.clearAnnotations.targetsOf ids := by
        simp [Tree.targetsOf, hNode]
      rw [hSplit, List.map_cons]
      exact .cons ⟨n, hNode, rfl⟩ (ih hRest)

/- In bulk, collecting asks once and fails with the answer. -/
theorem runAfter_collect_bulk
    (engine : MutableEngine)
    (asked : List Query)
    (file : String)
    (targets : List Target) :
    (collect .bulk file targets).runAfter engine asked =
      ((engine.answer asked .dump).map (collectBulk targets),
        asked ++ [.dump]) := rfl

/- Point by point, collecting asks about all and succeeds. -/
theorem runAfter_collect_point
    (engine : MutableEngine)
    (asked : List Query)
    (file : String)
    (targets : List Target) :
    ∃ collected,
      (collect .point file targets).runAfter engine asked =
        (.ok collected,
          asked ++ targets.map (fun x => x.node.startQuery)) := by
  have hPoints :=
    Dialogue.runAfter_queryPoints engine asked
      (targets.map (fun x => x.node.range.start))
  rw [List.map_map] at hPoints
  simp only [collect, Dialogue.runAfter_andThen,
    Dialogue.runAfter, hPoints]
  exact ⟨_, rfl⟩

------------------------------------------------------------
-- Questions of a Merge
------------------------------------------------------------

section Merge

variable (options : MergeOptions)
variable (engine : MutableEngine)
variable (file : String)
variable (t : Tree)

/- A merge with an engine that may change. -/
def mergeAfter : MergeRun × List Query :=
  (mergeFrom (.ofEngine options.strategy engine.name)
    options.eligibility options.dialect file t).runAfter
      engine []

variable {options engine file t}

/- An engine that cannot be used is asked nothing else. -/
theorem mergeAfter_of_unavailable
    {e : EngineError}
    (h : engine.answer [] .available = .error e) :
    mergeAfter options engine file t =
      (⟨.error (.engineUnavailable engine.name e.message), []⟩,
        [.available]) := by
  simp only [mergeAfter, mergeFrom, FactSource.ofEngine,
    Dialogue.query, Dialogue.runAfter_andThen,
    Dialogue.runAfter, List.nil_append, h]

/- One that can be used is asked for facts next. -/
theorem mergeAfter_of_available
    (h : engine.answer [] .available = .ok ()) :
    mergeAfter options engine file t =
      (mergeCleared (.ofEngine options.strategy engine.name)
        options.eligibility options.dialect file
        t.clearAnnotations).runAfter engine [.available] := by
  simp only [mergeAfter, mergeFrom, FactSource.ofEngine,
    Dialogue.query, Dialogue.runAfter_andThen,
    Dialogue.runAfter, List.nil_append, h]

/- Whether facts were collected decides how a merge ends. -/
theorem runAfter_mergeCleared
    {source : FactSource}
    {eligibility : Eligibility}
    {dialect : Dialect}
    {asked after : List Query}
    {outcome : Except EngineError Collected}
    (h :
      (source.collect file t
        (eligibility.targets t)).runAfter engine asked =
        (outcome, after)) :
    ∃ run : MergeRun,
      (mergeCleared source eligibility dialect file
        t).runAfter engine asked = (run, after) ∧
      (∀ e, outcome = .error e →
        run.result = .error (e.asMergeError source.engine)) ∧
      (∀ collected, outcome = .ok collected →
        ∃ merged, run.result = .ok merged) := by
  simp only [mergeCleared, Dialogue.runAfter_andThen, h]
  cases outcome with
  | error e =>
      refine ⟨_, rfl, ?_, ?_⟩
      · rintro _ ⟨⟩
        rfl
      · rintro _ ⟨⟩
  | ok collected =>
      refine ⟨_, rfl, ?_, ?_⟩
      · rintro _ ⟨⟩
      · rintro _ ⟨⟩
        exact ⟨_, rfl⟩

/-
  In bulk there is one more question, and the merge fails just
  if the engine fails to answer it.
-/
theorem mergeAfter_bulk
    (hBulk : options.strategy = .bulk)
    (hAvailable : engine.answer [] .available = .ok ()) :
    (mergeAfter options engine file t).2 =
        [.available, .dump] ∧
      (∀ e, engine.answer [.available] .dump = .error e →
        (mergeAfter options engine file t).1.result =
          .error (e.asMergeError engine.name)) ∧
      (∀ facts, engine.answer [.available] .dump = .ok facts →
        ∃ merged,
          (mergeAfter options engine file t).1.result =
            .ok merged) := by
  rcases @runAfter_mergeCleared engine file t.clearAnnotations
      (.ofEngine .bulk engine.name) options.eligibility
      options.dialect [.available] _ _
      (runAfter_collect_bulk engine [.available] file _) with
    ⟨run, hRun, hFails, hEnds⟩
  rw [mergeAfter_of_available hAvailable, hBulk, hRun]
  refine ⟨rfl, ?_, ?_⟩
  · intro e hDump
    exact hFails e (by rw [hDump]; rfl)
  · intro facts hDump
    exact hEnds _ (by rw [hDump]; rfl)

/-
  Point by point there is one more question for each target,
  and the merge succeeds.
-/
theorem mergeAfter_point
    (hPoint : options.strategy = .point)
    (hAvailable : engine.answer [] .available = .ok ()) :
    (mergeAfter options engine file t).2 =
        .available ::
          (t.clearAnnotations.targetsOf
            (options.eligibility.targets t)).map
              (fun x => x.node.startQuery) ∧
      ∃ merged,
        (mergeAfter options engine file t).1.result =
          .ok merged := by
  rcases runAfter_collect_point engine [.available] file
      (t.clearAnnotations.targetsOf
        (options.eligibility.targets t)) with
    ⟨collected, hCollected⟩
  rw [← Eligibility.targets_clearAnnotations] at hCollected
  rcases @runAfter_mergeCleared engine file t.clearAnnotations
      (.ofEngine .point engine.name) options.eligibility
      options.dialect [.available] _ _ hCollected with
    ⟨run, hRun, -, hEnds⟩
  rw [mergeAfter_of_available hAvailable, hPoint, hRun]
  refine ⟨?_, hEnds collected rfl⟩
  rw [Eligibility.targets_clearAnnotations]
  rfl

/-
  Where columns and their successors fit into 32 bits, so do
  the columns that are asked about.
-/
theorem column_lt_of_asked
    (hPoint : options.strategy = .point)
    (hAvailable : engine.answer [] .available = .ok ())
    (hColumns :
      ∀ id n, t.get? id = some n →
        n.range.start.column < twoTo 32 - 1)
    {line column : Nat}
    (hAsked :
      .point line column ∈
        (mergeAfter options engine file t).2) :
    column < twoTo 32 := by
  rw [(mergeAfter_point hPoint hAvailable).1] at hAsked
  simp only [Tree.targetsOf, Tree.get?_clearAnnotations,
    Node.startQuery, List.mem_cons, reduceCtorEq, false_or,
    List.mem_map, List.mem_filterMap, Option.map_map,
    Option.map_eq_some_iff] at hAsked
  rcases hAsked with ⟨_, ⟨id, -, n, hNode, rfl⟩, hQuery⟩
  injection hQuery with _ hColumn
  have hStart : n.range.start.column + 1 = column := hColumn
  have hBound := hColumns id n hNode
  omega

/- A merge with an engine that always answers alike. -/
theorem mergeAfter_ofEngine
    (engine : Engine) :
    mergeAfter options (.ofEngine engine) file t =
      merge options engine file t := by
  rw [mergeAfter, Dialogue.runAfter_ofEngine, List.nil_append]
  rfl

end Merge

/-
  A merge first asks, once, whether the engine can be used; if
  it cannot, that is all, and it is what the error says.  Then
  a merge in bulk asks for all facts in one question, and a
  merge point by point asks one question about the start of
  each target, in the order of the targets.  It fails just if
  it is in bulk and that one question fails, and the error
  says whether the engine could not be found or started.
-/
theorem questions_of_merge
    (options : MergeOptions)
    (engine : MutableEngine)
    (file : String)
    (t : Tree) :
    (∀ e, engine.answer [] .available = .error e →
      (mergeAfter options engine file t).2 = [.available] ∧
      (mergeAfter options engine file t).1.result =
        .error (.engineUnavailable engine.name e.message)) ∧
    (engine.answer [] .available = .ok () →
      (options.strategy = .bulk →
        (mergeAfter options engine file t).2 =
          [.available, .dump]) ∧
      (options.strategy = .point →
        ∃ points,
          (mergeAfter options engine file t).2 =
            .available :: points ∧
          List.Forall₂
            (fun id q => ∃ n, t.get? id = some n ∧
              q = .point n.range.start.line
                (n.range.start.column + 1))
            (t.preorder.filter (options.eligibility.admits t))
            points) ∧
      ((∃ e,
        (mergeAfter options engine file t).1.result =
          .error e) ↔
        options.strategy = .bulk ∧
          ∃ e, engine.answer [.available] .dump = .error e) ∧
      (∀ e, options.strategy = .bulk →
        engine.answer [.available] .dump = .error e →
          (mergeAfter options engine file t).1.result =
            .error
              (match e with
              | .notFound _ | .spawnFailed _ _ =>
                  .engineUnavailable engine.name e.message
              | _ =>
                  .engineFailed engine.name e.message))) ∧
    (∀ plain : Engine, engine = .ofEngine plain →
      merge options plain file t =
        mergeAfter options engine file t) := by
  refine ⟨?_, ?_, ?_⟩
  · intro e hUnavailable
    rw [mergeAfter_of_unavailable hUnavailable]
    exact ⟨rfl, rfl⟩
  · intro hAvailable
    refine ⟨?_, ?_, ?_, ?_⟩
    · intro hBulk
      exact (mergeAfter_bulk hBulk hAvailable).1
    · intro hPoint
      exact ⟨_, (mergeAfter_point hPoint hAvailable).1,
        forall₂_startQuery options.eligibility t⟩
    · constructor
      · rintro ⟨e, hError⟩
        cases hStrategy : options.strategy with
        | bulk =>
            refine ⟨rfl, ?_⟩
            cases hDump : engine.answer [.available] .dump with
            | error d => exact ⟨d, rfl⟩
            | ok facts =>
                rcases (mergeAfter_bulk hStrategy
                  hAvailable).2.2 facts hDump with
                  ⟨merged, hMerged⟩
                cases hError.symm.trans hMerged
        | point =>
            rcases (mergeAfter_point hStrategy
              hAvailable).2 with ⟨merged, hMerged⟩
            cases hError.symm.trans hMerged
      · rintro ⟨hBulk, e, hDump⟩
        exact ⟨_, (mergeAfter_bulk hBulk hAvailable).2.1 e
          hDump⟩
    · intro e hBulk hDump
      rw [(mergeAfter_bulk hBulk hAvailable).2.1 e hDump]
      cases e <;> rfl
  · rintro plain rfl
    exact (mergeAfter_ofEngine plain).symm

/- A declarator that starts with its identifier. -/
def declaratorTree : Tree :=
  ⟨#[{ kind := .ofName "Program"
       range := .onLine 1 0 9
       parent := none
       fields := [("body", .node ⟨1⟩)] },
     { kind := .ofName "VariableDeclarator"
       range := .onLine 1 0 9
       parent := some ⟨0⟩
       fields := [("id", .node ⟨2⟩)] },
     { kind := .identifier
       range := .onLine 1 0 4
       parent := some ⟨1⟩ }]⟩

/- An engine that fails the first question about a type. -/
def flakyEngine : MutableEngine where
  name := "flaky"
  answer asked q :=
    match q with
    | .available => .ok ()
    | .dump => .error (.malformed "no dump")
    | .point _ _ =>
        if asked.length = 1 then .error .json
        else .ok .unknown

/-
  A declarator and its identifier start at one position.  The
  engine is asked about it twice, fails once, and the merge
  succeeds.
-/
theorem questions_of_merge_flaky :
    (mergeAfter ⟨.point, {}, {}⟩ flakyEngine "a.js"
        declaratorTree).2 =
      [.available, .point 1 1, .point 1 1] ∧
    flakyEngine.answer [.available] (.point 1 1) =
      .error .json ∧
    ∃ merged,
      (mergeAfter ⟨.point, {}, {}⟩ flakyEngine "a.js"
        declaratorTree).1.result = .ok merged := by
  rcases (questions_of_merge ⟨.point, {}, {}⟩ flakyEngine
    "a.js" declaratorTree).2.1 rfl with
    ⟨-, hPoint, hFails, -⟩
  rcases hPoint rfl with ⟨points, hAsked, hAll⟩
  have hTargets :
      declaratorTree.preorder.filter
          (({} : Eligibility).admits declaratorTree) =
        [⟨1⟩, ⟨2⟩] := by
    decide +kernel
  rw [hTargets] at hAll
  refine ⟨?_, rfl, ?_⟩
  · rcases hAll with _ | ⟨⟨n, hNode, rfl⟩, hAll⟩
    rcases hAll with _ | ⟨⟨m, hOther, rfl⟩, hAll⟩
    cases hAll
    cases hNode
    cases hOther
    exact hAsked
  · cases hResult :
        (mergeAfter ⟨.point, {}, {}⟩ flakyEngine "a.js"
          declaratorTree).1.result with
    | error e => cases (hFails.1 ⟨e, hResult⟩).1
    | ok merged => exact ⟨merged, rfl⟩

end TypeGraft
