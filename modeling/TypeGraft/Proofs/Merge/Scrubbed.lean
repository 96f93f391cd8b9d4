import Mathlib.Data.List.Forall2
import TypeGraft.Json.Writer
import TypeGraft.Proofs.Merge.Strategies
import TypeGraft.Tree.Export

/-
  What differs from run to run does not show.

  A merge uses a fact in two ways only: it reads the text of
  the type, and it keeps the fact without the metadata that is
  scrubbed.  So merging with a snapshot gives the same tree
  and the same statistics as merging with its facts scrubbed
  beforehand.  Two dumps that differ only in members which are
  scrubbed have the same facts after that, hence lead to the
  same tree.

  Key definitions include:
    * `scrubbedVisits`
    * `Scrubs`
    * `Snapshot.scrubbed`
    * `runSpecificKeys`
    * `AlikeRecords`
    * `AlikeEntries`

  Main declarations:
    * `annotateAll_scrubbedVisits`
    * `Scrubs.insertMany`
    * `merge_scrubbed`
    * `decodeEntries_scrubbed`
    * `merges_of_alike_dumps`
-/

namespace TypeGraft

------------------------------------------------------------
-- Facts
------------------------------------------------------------

namespace TypeFact

/- Scrubbing leaves nothing more to scrub. -/
@[simp]
theorem scrubbed_scrubbed
    (f : TypeFact) :
    f.scrubbed.scrubbed = f.scrubbed := by
  simp [scrubbed]

@[simp]
theorem range_scrubbed
    (f : TypeFact) :
    f.scrubbed.range = f.range := rfl

@[simp]
theorem rawType_scrubbed
    (f : TypeFact) :
    f.scrubbed.rawType = f.rawType := rfl

end TypeFact

/- The type of a fact is in its text alone. -/
theorem resolve_scrubbed
    (dialect : Dialect)
    (f : TypeFact) :
    resolve dialect f.scrubbed = resolve dialect f := rfl

/- Annotations are scrubbed anyway. -/
theorem Annotation.ofFact_scrubbed
    (f : TypeFact)
    (type : FlowType) :
    Annotation.ofFact f.scrubbed type =
      Annotation.ofFact f type := by
  simp [ofFact]

/- Facts for targets, all scrubbed. -/
def scrubbedVisits
    (facts : List (Target × TypeFact)) :
    List (Target × TypeFact) :=
  facts.map (fun f => (f.1, f.2.scrubbed))

section Visits

variable (dialect : Dialect)
variable (file : String)
variable (isTarget : NodeId → Bool)

/- Writing a fact scrubs it. -/
theorem Progress.write_scrubbed
    (p : Progress)
    (target : Target)
    (f : TypeFact) :
    p.write dialect file target f.scrubbed =
      p.write dialect file target f := by
  simp only [write, resolve_scrubbed,
    Annotation.ofFact_scrubbed, TypeFact.rawType_scrubbed]

/- So does annotating with all facts. -/
theorem annotateAll_scrubbedVisits
    (facts : List (Target × TypeFact))
    (p : Progress) :
    annotateAll dialect file isTarget (scrubbedVisits facts) p =
      annotateAll dialect file isTarget facts p := by
  simp only [annotateAll, scrubbedVisits, List.filter_map,
    List.foldl_map, Progress.visitIdentifier,
    Progress.visitOther, Progress.write_scrubbed,
    Function.comp_def]

end Visits

------------------------------------------------------------
-- Maps of Facts
------------------------------------------------------------

section Maps

variable {κ : Type}
variable {cmp : κ → κ → Ordering}
variable [Std.TransCmp cmp]

/- One map has the facts of another, scrubbed. -/
structure Scrubs
    (m n : Std.TreeMap κ TypeFact cmp) : Prop where
  size : n.size = m.size
  getElem? : ∀ k : κ, n[k]? = m[k]?.map TypeFact.scrubbed

namespace Scrubs

variable {m n : Std.TreeMap κ TypeFact cmp}

theorem empty :
    Scrubs (∅ : Std.TreeMap κ TypeFact cmp) ∅ where
  size := rfl
  getElem? := by simp

/- One more fact on both sides. -/
theorem insert
    (h : Scrubs m n)
    (k : κ)
    (f : TypeFact) :
    Scrubs (m.insert k f) (n.insert k f.scrubbed) where
  size := by
    have hSame : n.contains k = m.contains k := by
      rw [Std.TreeMap.contains_eq_isSome_getElem?,
        Std.TreeMap.contains_eq_isSome_getElem?, h.getElem?,
        Option.isSome_map]
    rw [Std.TreeMap.size_insert, Std.TreeMap.size_insert,
      hSame, h.size]
  getElem? := by
    intro l
    rw [Std.TreeMap.getElem?_insert,
      Std.TreeMap.getElem?_insert, h.getElem?]
    split <;> rfl

/- Several more facts on both sides. -/
theorem insertMany
    (h : Scrubs m n)
    (facts : List (κ × TypeFact)) :
    Scrubs (m.insertMany facts)
      (n.insertMany
        (facts.map (fun f => (f.1, f.2.scrubbed)))) := by
  induction facts generalizing m n with
  | nil =>
      simpa only [List.map_nil,
        Std.TreeMap.insertMany_nil] using h
  | cons f facts ih =>
      rw [List.map_cons, Std.TreeMap.insertMany_cons,
        Std.TreeMap.insertMany_cons]
      exact ih (h.insert f.1 f.2)

end Scrubs

end Maps

/- The map of scrubbed facts. -/
theorem FactMap.scrubs_ofTargets
    (facts : List (Target × TypeFact)) :
    Scrubs (FactMap.ofTargets facts)
      (FactMap.ofTargets (scrubbedVisits facts)) := by
  have hEmpty : Scrubs (∅ : FactMap) ∅ := Scrubs.empty
  have hMany :=
    hEmpty.insertMany (facts.map (fun f => (f.1.id, f.2)))
  simpa only [FactMap.ofTargets, scrubbedVisits,
    Std.TreeMap.ofList_eq_insertMany_empty, List.map_map,
    Function.comp_def] using hMany

/- What a map of scrubbed facts has for some targets. -/
theorem Scrubs.of_targets
    {facts others : FactMap}
    (h : Scrubs facts others)
    (targets : List Target) :
    others.of targets = scrubbedVisits (facts.of targets) := by
  simp only [FactMap.of, scrubbedVisits, h.getElem?,
    List.map_filterMap, Option.map_map, Function.comp_def]

/- What is collected, with the facts scrubbed. -/
structure Collected.Scrubs
    (c d : Collected) : Prop where
  facts : TypeGraft.Scrubs c.facts d.facts
  engineCalls : d.engineCalls = c.engineCalls
  failedQueries : d.failedQueries = c.failedQueries
  events : d.events = c.events

/- A merge does not tell the two apart. -/
theorem Collected.Scrubs.mergeCollected_eq
    {c d : Collected}
    (h : c.Scrubs d)
    (dialect : Dialect)
    (file : String)
    (t : Tree)
    (ids : List NodeId) :
    mergeCollected dialect file t ids d =
      mergeCollected dialect file t ids c := by
  simp only [mergeCollected, h.facts.of_targets,
    annotateAll_scrubbedVisits, h.facts.size, h.engineCalls,
    h.failedQueries, h.events]

------------------------------------------------------------
-- In Bulk
------------------------------------------------------------

namespace PositionIndex

/- One index has the facts of another, scrubbed. -/
structure Scrubs
    (index other : PositionIndex) : Prop where
  find? :
    ∀ span, other.find? span =
      (index.find? span).map TypeFact.scrubbed
  size : other.size = index.size
  skipped : other.skipped = index.skipped

namespace Scrubs

variable {index other : PositionIndex}

theorem empty :
    ({} : PositionIndex).Scrubs {} where
  find? := by
    intro span
    rw [find?_empty, Option.map_none]
  size := rfl
  skipped := rfl

/- One more fact is indexed, or skipped, on both sides. -/
theorem add
    (h : index.Scrubs other)
    (f : TypeFact) :
    (index.add f).Scrubs (other.add f.scrubbed) := by
  have hScrubbed : f.scrubbed.span? = f.span? := rfl
  cases hSpan : f.span? with
  | none =>
      rw [index.add_of_no_span hSpan,
        other.add_of_no_span (hScrubbed.trans hSpan)]
      exact ⟨h.find?, h.size, congrArg (· + 1) h.skipped⟩
  | some own =>
      have hOther := hScrubbed.trans hSpan
      refine ⟨?_, ?_, ?_⟩
      · intro span
        rw [index.find?_add_of_span hSpan,
          other.find?_add_of_span hOther, h.find?]
        split <;> rfl
      · rw [index.size_add_of_span hSpan,
          other.size_add_of_span hOther, h.find?,
          Option.isSome_map, h.size]
      · rw [index.skipped_add, other.skipped_add,
          TypeFact.range_scrubbed, h.skipped]

/- Several more facts are. -/
theorem foldl_add
    (h : index.Scrubs other)
    (facts : List TypeFact) :
    (facts.foldl PositionIndex.add index).Scrubs
      ((facts.map TypeFact.scrubbed).foldl
        PositionIndex.add other) := by
  induction facts generalizing index other with
  | nil => exact h
  | cons f facts ih => exact ih (h.add f)

/- What an index of scrubbed facts has for some targets. -/
theorem indexedFacts_eq
    (h : index.Scrubs other)
    (targets : List Target) :
    indexedFacts other targets =
      scrubbedVisits (indexedFacts index targets) := by
  have hRange :
      ∀ r, other.findRange? r =
        (index.findRange? r).map TypeFact.scrubbed := by
    intro r
    cases hSpan : r.span? with
    | none => simp only [findRange?, hSpan, Option.bind_none,
        Option.map_none]
    | some span =>
        simp only [findRange?, hSpan, Option.bind_some]
        exact h.find? span
  simp only [indexedFacts, scrubbedVisits, hRange,
    List.map_filterMap, Option.map_map, Function.comp_def]

end Scrubs

end PositionIndex

/- Collecting in bulk from scrubbed facts. -/
theorem scrubs_collectBulk
    (targets : List Target)
    (facts : List TypeFact) :
    (collectBulk targets facts).Scrubs
      (collectBulk targets
        (facts.map TypeFact.scrubbed)) := by
  have hIndex :
      (PositionIndex.ofFacts facts).Scrubs
        (PositionIndex.ofFacts
          (facts.map TypeFact.scrubbed)) :=
    PositionIndex.Scrubs.empty.foldl_add facts
  refine ⟨?_, rfl, rfl, ?_⟩
  · simp only [collectBulk, hIndex.indexedFacts_eq]
    exact FactMap.scrubs_ofTargets _
  · simp only [collectBulk, hIndex.size, hIndex.skipped]

------------------------------------------------------------
-- Point by Point
------------------------------------------------------------

namespace Snapshot

/- The snapshot with all facts scrubbed. -/
def scrubbed
    (s : Snapshot) : Snapshot :=
  ⟨s.facts.map TypeFact.scrubbed⟩

/- Facts are weighed by their ranges. -/
theorem earlier_scrubbed
    (best : Option TypeFact)
    (f : TypeFact) :
    earlier (best.map TypeFact.scrubbed) f.scrubbed =
      (earlier best f).map TypeFact.scrubbed := by
  cases best with
  | none => rfl
  | some b =>
      simp only [earlier, Option.map_some,
        apply_ite (Option.map TypeFact.scrubbed)]
      rfl

theorem foldl_earlier_scrubbed
    (facts : List TypeFact)
    (best : Option TypeFact) :
    (facts.map TypeFact.scrubbed).foldl earlier
        (best.map TypeFact.scrubbed) =
      (facts.foldl earlier best).map TypeFact.scrubbed := by
  induction facts generalizing best with
  | nil => rfl
  | cons f facts ih =>
      rw [List.map_cons, List.foldl_cons, List.foldl_cons,
        earlier_scrubbed, ih]

/- The fact about a position is the same one, scrubbed. -/
theorem factAt?_scrubbed
    (s : Snapshot)
    (p : Position) :
    s.scrubbed.factAt? p =
      (s.factAt? p).map TypeFact.scrubbed := by
  simp only [factAt?, scrubbed, List.filter_map,
    ← foldl_earlier_scrubbed, Option.map_none]
  rfl

end Snapshot

/- A finding with its fact scrubbed. -/
def PointFinding.scrubbed : PointFinding → PointFinding
  | .fact f => .fact f.scrubbed
  | .elsewhere located => .elsewhere located
  | .failed e => .failed e

/- What a scrubbed snapshot answers about a range. -/
theorem Snapshot.ofAnswer_scrubbed
    (s : Snapshot)
    (r : SourceRange) :
    PointFinding.ofAnswer r (s.scrubbed.engine.answerAt r) =
      (PointFinding.ofAnswer r
        (s.engine.answerAt r)).scrubbed := by
  simp only [Engine.answerAt, Snapshot.engine,
    Snapshot.pointAnswer, factAt?_scrubbed]
  cases s.factAt? _ with
  | none => rfl
  | some f =>
      simp only [Option.map_some, PointAnswer.ofFact,
        PointFinding.ofAnswer, TypeFact.range_scrubbed]
      split <;> rfl

namespace PointFinding

variable (finding : PointFinding)

@[simp]
theorem fact?_scrubbed :
    finding.scrubbed.fact? =
      finding.fact?.map TypeFact.scrubbed := by
  cases finding <;> rfl

@[simp]
theorem isFailure_scrubbed :
    finding.scrubbed.isFailure = finding.isFailure := by
  cases finding <;> rfl

@[simp]
theorem event?_scrubbed
    (file : String)
    (n : Node) :
    finding.scrubbed.event? file n = finding.event? file n := by
  cases finding <;> rfl

end PointFinding

/- Collecting point by point from a scrubbed snapshot. -/
theorem scrubs_collectPoints
    (s : Snapshot)
    (file : String)
    (targets : List Target) :
    (collectPoints file targets
      (targets.map (fun x =>
        s.engine.answerAt x.node.range))).Scrubs
      (collectPoints file targets
        (targets.map (fun x =>
          s.scrubbed.engine.answerAt x.node.range))) := by
  refine ⟨?_, ?_, ?_, ?_⟩
  · have hFacts :=
      FactMap.scrubs_ofTargets
        (targets.filterMap (fun x =>
          (PointFinding.ofAnswer x.node.range
            (s.engine.answerAt x.node.range)).fact?.map
              (fun f => (x, f))))
    simpa only [collectPoints, ← List.map_prod_left_eq_zip,
      List.map_map, List.filterMap_map, scrubbedVisits,
      List.map_filterMap, Function.comp_def, Option.map_map,
      s.ofAnswer_scrubbed,
      PointFinding.fact?_scrubbed] using hFacts
  · simp only [collectPoints, List.length_map]
  · simp only [collectPoints, ← List.map_prod_left_eq_zip,
      List.map_map, List.countP_map, Function.comp_def,
      s.ofAnswer_scrubbed, PointFinding.isFailure_scrubbed]
  · simp only [collectPoints, ← List.map_prod_left_eq_zip,
      List.map_map, List.filterMap_map, Function.comp_def,
      s.ofAnswer_scrubbed, PointFinding.event?_scrubbed]

------------------------------------------------------------
-- Merges
------------------------------------------------------------

/- What a source over a snapshot collects. -/
theorem scrubs_collect
    (s : Snapshot)
    (strategy : Strategy)
    (file : String)
    (targets : List Target) :
    ∃ c d,
      ((collect strategy file targets).run s.engine).1 =
        .ok c ∧
      ((collect strategy file targets).run
        s.scrubbed.engine).1 = .ok d ∧
      c.Scrubs d := by
  cases strategy with
  | bulk =>
      exact ⟨_, _, rfl, rfl, scrubs_collectBulk targets _⟩
  | point =>
      exact ⟨_, _, run_collect_point s.engine file targets,
        run_collect_point s.scrubbed.engine file targets,
        scrubs_collectPoints s file targets⟩

/-
  Merging with a snapshot gives the same tree and the same
  statistics as merging with it scrubbed.
-/
theorem merge_scrubbed
    (options : MergeOptions)
    (s : Snapshot)
    (file : String)
    (t : Tree) :
    ∃ merged,
      (merge options s.engine file t).1.result = .ok merged ∧
      (merge options s.scrubbed.engine file t).1.result =
        .ok merged := by
  rcases scrubs_collect s options.strategy file
      (t.clearAnnotations.targetsOf
        (options.eligibility.targets t)) with
    ⟨c, d, hFirst, hSecond, hScrubs⟩
  refine ⟨_, run_mergeFrom options.dialect rfl hFirst, ?_⟩
  rw [← hScrubs.mergeCollected_eq]
  exact run_mergeFrom options.dialect rfl hSecond

------------------------------------------------------------
-- Records
------------------------------------------------------------

/- Keys of records whose values differ from run to run. -/
def runSpecificKeys : List String :=
  ["path", "source", "reasons", "loc", "range"]

/-
  Two records have the same keys in the same order, and the
  same values but for those that differ from run to run.
-/
def AlikeRecords : Members → Members → Prop :=
  List.Forall₂ (fun m n =>
    m.1 = n.1 ∧ (m.1 ∈ runSpecificKeys ∨ m.2 = n.2))

/- Two entries of a dump are the same, or alike as records. -/
inductive AlikeEntries : Json → Json → Prop where
  | same (v : Json) : AlikeEntries v v
  | records
      {ms ns : Members}
      (h : AlikeRecords ms ns) :
      AlikeEntries (.obj ms) (.obj ns)

namespace Members

/- A record without the values that differ from run to run. -/
def blanked
    (ms : Members) : Members :=
  ms.map (fun m =>
    if m.1 ∈ runSpecificKeys then (m.1, .null) else m)

theorem blanked_cons
    (m : String × Json)
    (ms : Members) :
    blanked (m :: ms) =
      (if m.1 ∈ runSpecificKeys then (m.1, .null) else m) ::
        blanked ms := rfl

variable {ms ns : Members}
variable {key : String}

/- Alike records are the same without these values. -/
theorem blanked_eq_of_alike
    (h : AlikeRecords ms ns) :
    ms.blanked = ns.blanked := by
  induction h with
  | nil => rfl
  | @cons m n ms ns hHead _ ih =>
      rcases m with ⟨k, v⟩
      rcases n with ⟨l, w⟩
      obtain ⟨rfl, hValue⟩ := hHead
      rw [blanked_cons, blanked_cons, ih]
      rcases hValue with hMem | rfl
      · simp only [if_pos hMem]
      · rfl

/- All other members hold what they held. -/
theorem get?_blanked
    (h : key ∉ runSpecificKeys) :
    ms.blanked.get? key = ms.get? key := by
  induction ms with
  | nil => rfl
  | cons m ms ih =>
      rcases m with ⟨k, v⟩
      by_cases hEq : k = key
      · subst hEq
        rw [blanked_cons, if_neg h, get?, get?, if_pos rfl,
          if_pos rfl]
      · rw [blanked_cons]
        split <;> rw [get?, get?, if_neg hEq, if_neg hEq, ih]

/-
  Removing a member closes the gap alike, whatever the values
  of the others are.
-/
theorem eraseSwap_map
    {change : String × Json → String × Json}
    (hKeys : ∀ m, (change m).1 = m.1) :
    eraseSwap (ms.map change) key =
      (ms.eraseSwap key).map change := by
  simp only [eraseSwap, List.findIdx?_map, Function.comp_def,
    hKeys]
  cases ms.findIdx? (fun m => m.1 = key) with
  | none => rfl
  | some i =>
      simp only [← List.map_take, ← List.map_drop,
        List.getLast?_map]
      cases (List.drop (i + 1) ms).getLast? with
      | none => rfl
      | some m =>
          simp only [Option.map_some, List.map_append,
            List.map_cons, List.map_dropLast]

/- What is kept of metadata does not differ. -/
theorem filter_blanked :
    ms.blanked.filter
        (fun m => !TypeFact.scrubbedKeys.contains m.1) =
      ms.filter
        (fun m => !TypeFact.scrubbedKeys.contains m.1) := by
  have hScrubbed :
      ∀ key ∈ runSpecificKeys, key ∈ TypeFact.scrubbedKeys := by
    decide
  induction ms with
  | nil => rfl
  | cons m ms ih =>
      rw [blanked_cons]
      split
      · rename_i hMem
        have hGone := hScrubbed _ hMem
        rw [List.filter_cons_of_neg (by simp [hGone]),
          List.filter_cons_of_neg (by simp [hGone]), ih]
      · rw [List.filter_cons, List.filter_cons, ih]

end Members

/- A record says the same without these values. -/
theorem recordFact?_blanked
    (ms : Members) :
    (recordFact? ms.blanked).map TypeFact.scrubbed =
      (recordFact? ms).map TypeFact.scrubbed := by
  have hType :
      ms.blanked.get? "type" = ms.get? "type" :=
    Members.get?_blanked (by decide)
  have hRange : recordRange? ms.blanked = recordRange? ms := by
    unfold recordRange? coordinate?
    rw [Members.get?_blanked (by decide),
      Members.get?_blanked (by decide),
      Members.get?_blanked (by decide),
      Members.get?_blanked (by decide)]
  have hMetadata :
      recordMetadata ms.blanked =
        (recordMetadata ms).blanked := by
    apply Members.eraseSwap_map
    intro m
    split <;> rfl
  unfold recordFact?
  rw [hType, hRange, hMetadata]
  split
  · simp only [Option.map_some, TypeFact.scrubbed,
      Members.filter_blanked]
  · rfl

/- What a record adds to the facts of the entries behind it. -/
theorem decodeEntries_obj_scrubbed
    (i : Nat)
    (record : Members)
    (entries : List Json) :
    (decodeEntries i (.obj record :: entries)).map
        (List.map TypeFact.scrubbed) =
      ((decodeEntries (i + 1) entries).map
        (List.map TypeFact.scrubbed)).map
          (((recordFact? record).map
            TypeFact.scrubbed).toList ++ ·) := by
  rw [decodeEntries]
  cases decodeEntries (i + 1) entries with
  | error e => rfl
  | ok facts => simp [Except.map, Option.toList_map]

/-
  Entries that are alike are decoded to the same facts, once
  these are scrubbed, or are refused for the same reason.
-/
theorem decodeEntries_scrubbed
    {entries others : List Json}
    (h : List.Forall₂ AlikeEntries entries others)
    (i : Nat) :
    (decodeEntries i entries).map
        (List.map TypeFact.scrubbed) =
      (decodeEntries i others).map
        (List.map TypeFact.scrubbed) := by
  induction h generalizing i with
  | nil => rfl
  | @cons entry other entries others hHead _ ih =>
      cases hHead with
      | same =>
          cases entry with
          | obj record =>
              rw [decodeEntries_obj_scrubbed,
                decodeEntries_obj_scrubbed, ih]
          | _ => rfl
      | @records ms ns hAlike =>
          rw [decodeEntries_obj_scrubbed,
            decodeEntries_obj_scrubbed, ih,
            ← recordFact?_blanked ms, ← recordFact?_blanked ns,
            Members.blanked_eq_of_alike hAlike]

------------------------------------------------------------
-- Dumps
------------------------------------------------------------

/- Snapshots of alike entries, scrubbed. -/
theorem Snapshot.ofJson_scrubbed
    {entries others : List Json}
    (h : List.Forall₂ AlikeEntries entries others) :
    (Snapshot.ofJson (.arr entries)).map Snapshot.scrubbed =
      (Snapshot.ofJson (.arr others)).map
        Snapshot.scrubbed := by
  have hMap :
      ∀ decoded : Except EngineError (List TypeFact),
        (decoded.map Snapshot.mk).map scrubbed =
          (decoded.map (List.map TypeFact.scrubbed)).map
            Snapshot.mk := by
    intro decoded
    cases decoded <;> rfl
  rw [ofJson, ofJson, decodeDump, decodeDump, hMap, hMap,
    decodeEntries_scrubbed h]

/-
  Two dumps whose entries are alike are refused for the same
  reason, or merging with either of them succeeds and gives
  the same tree, the same statistics and the same text.
-/
theorem merges_of_alike_dumps
    {entries others : List Json}
    (hAlike : List.Forall₂ AlikeEntries entries others)
    (options : MergeOptions)
    (file : String)
    (t : Tree) :
    (∃ e,
      Snapshot.ofJson (.arr entries) = .error e ∧
      Snapshot.ofJson (.arr others) = .error e) ∨
    (∃ s u one other,
      Snapshot.ofJson (.arr entries) = .ok s ∧
      Snapshot.ofJson (.arr others) = .ok u ∧
      (merge options s.engine file t).1.result = .ok one ∧
      (merge options u.engine file t).1.result = .ok other ∧
      one.tree = other.tree ∧
      one.stats = other.stats ∧
      one.tree.toJson.compact = other.tree.toJson.compact) := by
  have hSame := Snapshot.ofJson_scrubbed hAlike
  cases hFirst : Snapshot.ofJson (.arr entries) with
  | error e =>
      cases hSecond : Snapshot.ofJson (.arr others) with
      | error d =>
          rw [hFirst, hSecond] at hSame
          cases hSame
          exact .inl ⟨e, rfl, rfl⟩
      | ok u =>
          rw [hFirst, hSecond] at hSame
          cases hSame
  | ok s =>
      cases hSecond : Snapshot.ofJson (.arr others) with
      | error d =>
          rw [hFirst, hSecond] at hSame
          cases hSame
      | ok u =>
          rw [hFirst, hSecond] at hSame
          have hScrubbed : s.scrubbed = u.scrubbed :=
            Except.ok.inj hSame
          rcases merge_scrubbed options s file t with
            ⟨one, hOne, hBare⟩
          rcases merge_scrubbed options u file t with
            ⟨other, hOther, hBareOther⟩
          rw [hScrubbed] at hBare
          cases hBare.symm.trans hBareOther
          exact .inr ⟨s, u, one, one, rfl, rfl, hOne, hOther,
            rfl, rfl, rfl⟩

/- A record about an identifier, from a run in some place. -/
def recordFrom
    (path : String) : Json :=
  .obj
    [("path", .str path),
      ("type", .str "number"),
      ("line", .ofNat 1),
      ("start", .ofNat 1),
      ("end", .ofNat 4),
      ("expanded", .bool false)]

/- Where the engine ran shows neither here nor there. -/
theorem merges_of_alike_dumps_paths :
    ∃ s u one other,
      Snapshot.ofJson (.arr [recordFrom "/a/x.js"]) = .ok s ∧
      Snapshot.ofJson (.arr [recordFrom "/b/x.js"]) = .ok u ∧
      (merge {} s.engine "x.js" declaratorTree).1.result =
        .ok one ∧
      (merge {} u.engine "x.js" declaratorTree).1.result =
        .ok other ∧
      one.tree.annotated = [⟨1⟩, ⟨2⟩] ∧
      one.tree = other.tree ∧
      one.stats = other.stats ∧
      one.tree.toJson.compact = other.tree.toJson.compact := by
  have hAlike :
      List.Forall₂ AlikeEntries [recordFrom "/a/x.js"]
        [recordFrom "/b/x.js"] := by
    refine .cons (.records ?_) .nil
    simp [AlikeRecords, runSpecificKeys]
  have hShown :
      (Snapshot.ofJson
          (.arr [recordFrom "/a/x.js"])).toOption.map
        (fun s =>
          (merge {} s.engine "x.js"
            declaratorTree).1.result.toOption.map
              (fun merged => merged.tree.annotated)) =
        some (some [⟨1⟩, ⟨2⟩]) := by
    decide +kernel
  rcases merges_of_alike_dumps hAlike {} "x.js"
      declaratorTree with
    ⟨e, hError, -⟩ |
    ⟨s, u, one, other, hFirst, hSecond, hOne, hOther, hSame⟩
  · simp [hError, Except.toOption] at hShown
  · simp only [hFirst, hOne, Except.toOption, Option.map_some,
      Option.some.injEq] at hShown
    exact ⟨s, u, one, other, hFirst, hSecond, hOne, hOther,
      hShown, hSame⟩

end TypeGraft
