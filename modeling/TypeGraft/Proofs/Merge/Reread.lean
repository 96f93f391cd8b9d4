import TypeGraft.Proofs.Engine.Decoders
import TypeGraft.Proofs.FlowType.Encoded
import TypeGraft.Proofs.FlowType.RoundTrip
import TypeGraft.Proofs.Json.RoundTrip
import TypeGraft.Proofs.Merge.FactTypes
import TypeGraft.Proofs.Merge.Frame
import TypeGraft.Proofs.Tree.Nesting

/-
  Reading the text of a merged tree.

  The text that a merge writes is JSON again, and an import
  passes over its annotations.  But annotations hold types,
  which nest as deep as an engine likes, and they stand inside
  their nodes.  The text is read back as the tree without its
  annotations as long as no annotation reaches beyond what
  text may nest; otherwise it is refused.

  Of the numbers in the text it is known that whole numbers
  read back.  That doubles do is assumed where there are any.

  Key definitions include:
    * `Tree.KeepsNesting`

  Main declarations:
    * `proper_of_ofJson`
    * `exists_fact_of_merge`
    * `proper_of_merge`
    * `Tree.parse_compact_of_clear`
    * `parse_of_typed_identifier`
    * `parse_of_merged`
-/

namespace TypeGraft

------------------------------------------------------------
-- Facts from Dumps
------------------------------------------------------------

/- What facts say besides types is proper if the dump is. -/
theorem proper_of_ofJson
    {fits : Number → Prop}
    {dump : Json}
    {s : Snapshot}
    (hProper : dump.Proper fits)
    (h : Snapshot.ofJson dump = .ok s) :
    ∀ f ∈ s.facts, (Json.obj f.metadata).Proper fits := by
  unfold Snapshot.ofJson at h
  cases hDecoded : decodeDump dump with
  | error e =>
      rw [hDecoded] at h
      cases h
  | ok facts =>
      rw [hDecoded] at h
      cases h
      rcases decodeDump_eq_ok_iff.1 hDecoded with
        ⟨records, rfl, rfl⟩
      intro f hMem
      rcases List.mem_filterMap.1 hMem with
        ⟨record, hIn, hFact⟩
      have hRecord :=
        hProper.of_arr _ (List.mem_map_of_mem hIn)
      unfold recordFact? at hFact
      split at hFact
      · cases hFact
        exact Members.proper_eraseSwap hRecord "type"
      · cases hFact

------------------------------------------------------------
-- Annotations
------------------------------------------------------------

/- An annotation is proper if its type and its fact are. -/
theorem Annotation.proper_toJson
    {fits : Number → Prop}
    {a : Annotation}
    (hType : a.type.toJson.Proper fits)
    (h : (Json.obj a.source.metadata).Proper fits) :
    a.toJson.Proper fits := by
  rcases h.of_obj with ⟨hKeys, hMembers⟩
  refine .obj ?_ ?_
  · have hNew :
        ∀ key, key = "type" ∨ key = "raw" →
          key ∉ Members.keys (a.source.metadata.filter
            (fun m => m.1 != "type" && m.1 != "raw")) := by
      intro key hKey hMem
      rcases List.mem_map.1 hMem with ⟨m, hIn, rfl⟩
      have hOther := (List.mem_filter.1 hIn).2
      rcases hKey with hKey | hKey <;> simp [hKey] at hOther
    have hRest :
        (Members.keys (a.source.metadata.filter
          (fun m => m.1 != "type" && m.1 != "raw"))).Nodup :=
      hKeys.sublist (List.filter_sublist.map Prod.fst)
    simp only [Members.keys_cons, List.nodup_cons,
      List.mem_cons, not_or]
    exact ⟨⟨by decide, hNew "type" (.inl rfl)⟩,
      hNew "raw" (.inr rfl), hRest⟩
  · simp only [List.forall_mem_cons]
    refine ⟨hType, .str _, ?_⟩
    intro m hMem
    exact hMembers m (List.mem_filter.1 hMem).1

section Merged

variable {options : MergeOptions}
variable {s : Snapshot}
variable {file : String}
variable {t : Tree}
variable {merged : Merged}

/- Whatever a node shows is some node's own annotation. -/
theorem exists_own_of_merged
    {eligibility : Eligibility}
    {dialect : Dialect}
    {facts : FactMap}
    {n : NodeId}
    {a : Annotation}
    (h :
      mergedAnnotation? eligibility dialect t facts n =
        some a) :
    ∃ k,
      ownAnnotation? eligibility dialect t facts k =
        some a := by
  have hChild :
      childAnnotation? eligibility dialect t facts n = some a →
        ∃ k, ownAnnotation? eligibility dialect t facts k =
          some a := by
    intro hSome
    rcases childAnnotation?_eq_some hSome with ⟨c, -, -, hOwn⟩
    exact ⟨c, hOwn⟩
  simp only [mergedAnnotation?] at h
  split at h
  · split at h
    · rcases Option.or_eq_some_iff.1 h with hOwn | ⟨-, hSome⟩
      · exact ⟨n, hOwn⟩
      · exact hChild hSome
    · rcases Option.or_eq_some_iff.1 h with hSome | ⟨-, hOwn⟩
      · exact hChild hSome
      · exact ⟨n, hOwn⟩
  · cases h

/- Every annotation comes from a fact of the snapshot. -/
theorem exists_fact_of_merge
    (hLinked : t.Linked)
    (h : (merge options s.engine file t).1.result = .ok merged)
    {n : NodeId}
    {a : Annotation}
    (hShown : merged.tree.annotation? n = some a) :
    ∃ f ∈ s.facts,
      factAnnotation? options.dialect f = some a := by
  rcases exists_merged hLinked s options.strategy
    options.eligibility options.dialect file with
    ⟨other, facts, hOther, hReads, -, hClosed⟩
  cases h.symm.trans hOther
  rw [hClosed] at hShown
  rcases exists_own_of_merged hShown with ⟨k, hOwn⟩
  have hTarget := mem_targets_of_ownAnnotation? hOwn
  rcases Eligibility.exists_node_of_mem_targets hTarget with
    ⟨m, hNode⟩
  rw [hReads.own hTarget hNode] at hOwn
  rcases Option.bind_eq_some_iff.1 (stated_of_reading hOwn)
    with ⟨f, hLast, hFact⟩
  exact ⟨f, (mem_of_lastAbout? hLast).1, hFact⟩

/- Where one fact is known, nothing else is shown. -/
theorem annotation_of_single_fact
    {f : TypeFact}
    {type : FlowType}
    (hLinked : t.Linked)
    (h : (merge options s.engine file t).1.result = .ok merged)
    (hFacts : s.facts = [f])
    (hResolve : resolve options.dialect f = .ok (some type))
    {n : NodeId}
    {a : Annotation}
    (hShown : merged.tree.annotation? n = some a) :
    a = .ofFact f type := by
  rcases exists_fact_of_merge hLinked h hShown with
    ⟨g, hMem, hFact⟩
  rw [hFacts] at hMem
  cases List.mem_singleton.1 hMem
  simp only [factAnnotation?, hResolve] at hFact
  exact (Option.some.inj hFact).symm

/-
  What a merge writes is proper if what it reads is and the
  types that it shows are.
-/
theorem proper_of_merge
    {fits : Number → Prop}
    {d : Document}
    {dump : Json}
    (hProper : d.value.Proper fits)
    (hTree : Tree.ofJson d.value = .ok t)
    (hDump : dump.Proper fits)
    (hSnapshot : Snapshot.ofJson dump = .ok s)
    (h : (merge options s.engine file t).1.result = .ok merged)
    (hTypes :
      ∀ n a, merged.tree.annotation? n = some a →
        a.type.toJson.Proper fits) :
    merged.tree.toJson.Proper fits := by
  have hLinked := Tree.linked_of_ofJson hTree
  refine Tree.proper_toJson hTree
    (clear_of_merge hLinked h) hProper ?_
  intro id a hShown
  rcases exists_fact_of_merge hLinked h hShown with
    ⟨f, hMem, hFact⟩
  have hMetadata := proper_of_ofJson hDump hSnapshot f hMem
  have hType := hTypes id a hShown
  unfold factAnnotation? at hFact
  split at hFact
  · cases hFact
    apply Annotation.proper_toJson hType
    rcases hMetadata.of_obj with ⟨hNodup, hMembers⟩
    exact .obj
      (hNodup.sublist (List.filter_sublist.map Prod.fst))
      (fun m hIn => hMembers m (List.mem_filter.1 hIn).1)
  · cases hFact

end Merged

/-
  The text of a tree that was imported, whatever its
  annotations are now, reads back as the imported tree or
  nests too deep.
-/
theorem Tree.parse_compact_of_clear
    {d : Document}
    {t u : Tree}
    (hTree : Tree.ofJson d.value = .ok t)
    (hClear : u.clearAnnotations = t.clearAnnotations)
    (hProper : u.toJson.Proper Number.Legible) :
    Tree.parse u.toJson.compact =
      if u.toJson.depth ≤ Json.nestingLimit then .ok t
      else .error .json := by
  rw [Tree.parse, Json.parse?_compact hProper]
  by_cases hDepth : u.toJson.depth ≤ Json.nestingLimit
  · simp only [if_pos hDepth]
    exact Tree.ofJson_toJson_of_clear hTree hClear
  · simp only [if_neg hDepth]

------------------------------------------------------------
-- Types Nested Deep
------------------------------------------------------------

open FlowType.Grammar (arrays bracketed)

namespace FlowType

theorem shaped_arrays
    {t : FlowType}
    (hShaped : Shaped t)
    (k : Nat) : Shaped (arrays k t) := by
  induction k generalizing t with
  | zero => exact hShaped
  | succ k ih => exact ih (.array hShaped)

/- Arrays are written as brackets behind their elements. -/
theorem render_arrays
    {t : FlowType}
    (hBare :
      ∀ l after, render l t after = render .atom t after)
    (k : Nat)
    (l : Level)
    (after : List Char) :
    render l (arrays k t) after =
      render .atom t (bracketed k after) := by
  induction k generalizing t with
  | zero => exact hBare l after
  | succ k ih =>
      rw [arrays, ih (fun l after => by simp only [render]),
        render, bracketed]

/- Each array nests its elements once more. -/
theorem depth_toJson_arrays
    (k : Nat)
    (t : FlowType) :
    (arrays k t).toJson.depth = k + t.toJson.depth := by
  induction k generalizing t with
  | zero => simp [arrays]
  | succ k ih =>
      rw [arrays, ih, toJson]
      simp [node, Json.depth, Json.depthMembers]
      omega

theorem proper_toJson_arrays
    {fits : Number → Prop}
    {t : FlowType}
    (h : t.toJson.Proper fits)
    (k : Nat) : (arrays k t).toJson.Proper fits := by
  induction k generalizing t with
  | zero => exact h
  | succ k ih =>
      refine ih ?_
      rw [toJson]
      exact .obj (by simp [Members.keys]) (by simp [h])

end FlowType

/- Arrays of arrays of numbers are read as such. -/
theorem resolve_arrays
    {dialect : Dialect}
    {fact : TypeFact}
    (hTypes : dialect.supportsTypes = true)
    (k : Nat)
    (hRaw :
      fact.rawType = (arrays k (.keyword .number)).text) :
    resolve dialect fact =
      .ok (some (arrays k (.keyword .number))) := by
  have hText :
      fact.rawType.toList =
        'n' :: ("umber".toList ++ bracketed k []) := by
    rw [hRaw, FlowType.text, FlowType.render_arrays
      (fun _ _ => by simp only [FlowType.render])]
    simp [FlowType.render, Keyword.word]
  have hType :=
    FlowType.parse_text_of_shaped hTypes
      (FlowType.shaped_arrays (.keyword .number) k)
  have hPlain :
      classMarker.isPrefixOf fact.rawType.toList = false := by
    rw [hText]
    rfl
  rw [resolve_of_head hText (by decide), hPlain,
    if_neg Bool.false_ne_true, hRaw, Except.bind, hType,
    Except.map]

------------------------------------------------------------
-- An Identifier and Its Type
------------------------------------------------------------

/- Of a document with small numbers nothing more is asked. -/
theorem Document.proper_of_small
    {fits : Number → Prop}
    (hSmall : ∀ z ∈ [0, 1, 2], fits (.whole z))
    (d : Document)
    (hNumbers :
      ∀ n ∈ d.value.numbers,
        n ∈ [.whole 0, .whole 1, .whole 2]) :
    d.value.Proper fits := by
  refine (Json.Proper.of_keysDistinct _ d.keysDistinct).imp ?_
  intro n _ hMem
  have hOne := hNumbers n hMem
  simp only [List.mem_cons, List.not_mem_nil, or_false] at hOne
  rcases hOne with rfl | rfl | rfl <;>
    exact hSmall _ (by decide)

/- What an engine knows about an identifier. -/
def identifierDump
    (type : String) : Json :=
  .arr [.obj
    [("type", .str type), ("line", .num (.whole 1)),
      ("endline", .num (.whole 1)),
      ("start", .num (.whole 1)), ("end", .num (.whole 2))]]

/- The type of the identifier is shown there alone. -/
theorem exists_merged_identifier
    {text : String}
    {type : FlowType}
    (hResolve :
      ∀ f : TypeFact, f.rawType = text →
        resolve {} f = .ok (some type)) :
    ∃ t s merged a,
      Tree.ofJson identifierJson = .ok t ∧
      Snapshot.ofJson (identifierDump text) = .ok s ∧
      (merge {} s.engine "a.js" t).1.result = .ok merged ∧
      merged.tree.annotation? ⟨0⟩ = some a ∧
      (∀ n b, merged.tree.annotation? n = some b → b = a) ∧
      a.type = type ∧
      a.toJson.depth = type.toJson.depth + 1 := by
  obtain ⟨t, hTree, hTargets, m, hNode, hKind, hRange⟩ :
      ∃ t, Tree.ofJson identifierJson = .ok t ∧
        ⟨0⟩ ∈ ({} : Eligibility).targets t ∧
        ∃ m, t.get? ⟨0⟩ = some m ∧ m.kind = .identifier ∧
          m.range = .onLine 1 0 2 :=
    ⟨_, rfl, by decide +kernel, _, rfl, rfl, rfl⟩
  obtain ⟨s, f, hSnapshot, hFacts, hAbout, hRaw, hRest⟩ :
      ∃ s f, Snapshot.ofJson (identifierDump text) = .ok s ∧
        s.facts = [f] ∧ f.range = .onLine 1 0 2 ∧
        f.rawType = text ∧ f.scrubbed.metadata = [] :=
    ⟨_, _, rfl, rfl, rfl, rfl, rfl⟩
  have hLinked := Tree.linked_of_ofJson hTree
  have hType := hResolve f hRaw
  rcases exists_merged hLinked s .bulk {} {} "a.js" with
    ⟨merged, facts, hMerged, hReads, -, hShown⟩
  have hStated :
      statedAnnotation? {} s.facts m.range =
        some (.ofFact f type) := by
    simp [statedAnnotation?, lastAbout?, hFacts, hAbout,
      hRange, factAnnotation?, hType]
  refine ⟨t, s, merged, .ofFact f type, hTree, hSnapshot,
    hMerged, ?_, ?_, rfl, ?_⟩
  · rw [hShown, mergedAnnotation?_identifier hTargets hNode
      hKind, hReads.own hTargets hNode, reading_bulk, hStated,
      hRange]
    rfl
  · intro n b hSome
    exact annotation_of_single_fact hLinked hMerged hFacts hType
      hSome
  · simp [hRest, Annotation.toJson, Annotation.ofFact,
      Json.depth, Json.depthMembers]

/-
  The identifier with a type is read again just if the type
  nests at most 125 deep: it stands in an annotation, which
  stands in the identifier.
-/
theorem parse_of_typed_identifier
    {text : String}
    {type : FlowType}
    (hResolve :
      ∀ f : TypeFact, f.rawType = text →
        resolve {} f = .ok (some type))
    (hType : type.toJson.Proper Number.Legible) :
    ∃ t s merged,
      Tree.parse identifierJson.compact = .ok t ∧
      Snapshot.ofJson (identifierDump text) = .ok s ∧
      (merge {} s.engine "a.js" t).1.result = .ok merged ∧
      Tree.parse merged.tree.toJson.compact =
        if type.toJson.depth ≤ 125 then .ok t
        else .error .json := by
  have hFits : ∀ z ∈ [0, 1, 2], (Number.whole z).Fits := by
    decide
  have hSmall : ∀ z ∈ [0, 1, 2], (Number.whole z).Legible :=
    fun z hMem => Number.legible_whole (hFits z hMem)
  let d : Document := ⟨identifierJson, by decide⟩
  have hProper : d.value.Proper Number.Legible :=
    d.proper_of_small hSmall (by decide)
  have hDump : (identifierDump text).Proper Number.Legible :=
    Document.proper_of_small hSmall ⟨identifierDump text, rfl⟩
      (by
        simp [identifierDump, Json.numbers, Json.numbersItems,
          Json.numbersMembers])
  rcases exists_merged_identifier hResolve with
    ⟨t, s, merged, a, hTree, hSnapshot, hMerged, hShown, hOnly,
      rfl, hDepth⟩
  change Tree.ofJson d.value = .ok t at hTree
  have hClear :=
    clear_of_merge (Tree.linked_of_ofJson hTree) hMerged
  have hWritten : merged.tree.toJson.Proper Number.Legible := by
    refine proper_of_merge hProper hTree hDump hSnapshot
      hMerged ?_
    intro n b hSome
    rw [hOnly n b hSome]
    exact hType
  have hWithin :
      merged.tree.toJson.depth ≤ Json.nestingLimit ↔
        a.type.toJson.depth ≤ 125 := by
    rw [Tree.depth_toJson_le_iff hTree hClear (by decide),
      show d.value.places = [(⟨0⟩, 1)] from rfl,
      Json.nestingLimit]
    constructor
    · intro hAll
      have hAt := hAll ⟨0⟩ 1 a (by simp) hShown
      omega
    · intro hLe n k b hPlace hSome
      cases List.mem_singleton.1 hPlace
      rw [hOnly _ b hSome]
      omega
  refine ⟨t, s, merged, ?_, hSnapshot, hMerged, ?_⟩
  · rw [Tree.parse, Json.parse?_compact hProper]
    exact hTree
  · rw [Tree.parse_compact_of_clear hTree hClear hWritten]
    simp only [hWithin]

------------------------------------------------------------
-- Reading a Merged Tree Again
------------------------------------------------------------

/-
  No annotation of the tree reaches deeper than text may nest,
  from where its node stands in the value that was imported.
-/
def Tree.KeepsNesting
    (u : Tree)
    (v : Json) : Prop :=
  ∀ id d a, (id, d) ∈ v.places → u.annotation? id = some a →
    d + a.toJson.depth ≤ Json.nestingLimit

/-
  The text of a merged tree is read back as the tree without
  its annotations if these do not nest too deep, and refused
  if one of them does.  The doubles in it have to be such that
  each reads back alone.
-/
theorem parse_of_merged
    {ast : String}
    {dump : Json}
    {t : Tree}
    {s : Snapshot}
    {options : MergeOptions}
    {file : String}
    {merged : Merged}
    (hAst : Tree.parse ast = .ok t)
    (hRecords : dump.Proper Number.Fits)
    (hDump : Snapshot.ofJson dump = .ok s)
    (hMerged :
      (merge options s.engine file t).1.result = .ok merged)
    (hReals :
      ∀ x, .real x ∈ merged.tree.toJson.numbers →
        Json.parse? (Json.num (.real x)).compact =
          some (.num (.real x))) :
    ∃ v, Json.parse? ast = some v ∧
      (merged.tree.KeepsNesting v →
        Tree.parse merged.tree.toJson.compact =
          .ok merged.tree.clearAnnotations) ∧
      (¬ merged.tree.KeepsNesting v →
        Tree.parse merged.tree.toJson.compact =
          .error .json) := by
  unfold Tree.parse at hAst
  split at hAst
  · rename_i v hText
    rcases Document.exists_of_parse? hText with ⟨d, rfl⟩
    have hClear :=
      clear_of_merge (Tree.linked_of_ofJson hAst) hMerged
    have hProper : merged.tree.toJson.Proper Number.Legible := by
      refine (proper_of_merge (Json.proper_of_parse? hText)
        hAst hRecords hDump hMerged
        (fun _ a _ => FlowType.proper_toJson a.type)).imp ?_
      intro n hMem hFit
      cases n with
      | whole z => exact Number.legible_whole hFit
      | real x => exact Number.legible_real (hReals x hMem)
    have hRead :=
      Tree.parse_compact_of_clear hAst hClear hProper
    have hDepth :=
      Tree.depth_toJson_le_iff hAst hClear
        (Json.depth_le_of_parse? hText)
    refine ⟨d.value, hText, ?_, ?_⟩
    · intro hKeeps
      rw [hRead, if_pos (hDepth.2 hKeeps), hClear,
        Tree.clearAnnotations_of_ofJson hAst]
    · intro hDeep
      rw [hRead, if_neg (fun h => hDeep (hDepth.1 h))]
  · cases hAst

/- The double one half. -/
def half : Binary64 :=
  .finite false (twoTo 52) (-53)
    ⟨by decide, by decide, by decide, by decide⟩

/- An identifier with it. -/
def scaledText : String :=
  "\x7b\"type\":\"Identifier\",\"scale\":0.5,\"loc\":\x7b" ++
    "\"start\":\x7b\"line\":1,\"column\":0\x7d," ++
    "\"end\":\x7b\"line\":1,\"column\":2\x7d\x7d\x7d"

/- Its annotation holds the double once more. -/
theorem parse_of_merged_scaled :
    ∃ t s merged,
      Tree.parse scaledText = .ok t ∧
      Snapshot.ofJson (identifierDump "?0.5") = .ok s ∧
      (merge {} s.engine "a.js" t).1.result = .ok merged ∧
      merged.tree.annotated = [⟨0⟩] ∧
      Tree.parse merged.tree.toJson.compact =
        .ok merged.tree.clearAnnotations := by
  have hHalf :
      Json.parse? (Json.num (.real half)).compact =
        some (.num (.real half)) :=
    Eq.refl _
  have hPlaces :
      (Json.parse? scaledText).map Json.places =
        some [(⟨0⟩, 1)] := by
    decide +kernel
  have hShown :
      (Tree.parse scaledText).toOption.map (fun t =>
        (Snapshot.ofJson (identifierDump "?0.5")).toOption.map
          (fun s =>
            (merge {} s.engine "a.js" t).1.result.toOption.map
              (fun merged => decide (
                merged.tree.annotated = [⟨0⟩] ∧
                (merged.tree.annotation? ⟨0⟩).map
                  (fun a => a.toJson.depth) = some 3 ∧
                ∀ n ∈ merged.tree.toJson.numbers,
                  n ∈ [.whole 0, .whole 1, .whole 2,
                    .real half])))) =
        some (some (some true)) := by
    decide +kernel
  rcases Option.map_eq_some_iff.1 hShown with
    ⟨t, hSome, hShown⟩
  have hTree := eq_ok_of_toOption hSome
  rcases Option.map_eq_some_iff.1 hShown with
    ⟨s, hSome, hShown⟩
  have hDump := eq_ok_of_toOption hSome
  rcases Option.map_eq_some_iff.1 hShown with
    ⟨merged, hSome, hShown⟩
  have hMerged := eq_ok_of_toOption hSome
  rcases of_decide_eq_true hShown with ⟨hAt, hDepth, hNumbers⟩
  have hRecords : (identifierDump "?0.5").Proper Number.Fits :=
    Document.proper_of_small (by decide)
      ⟨identifierDump "?0.5", rfl⟩ (by decide)
  have hReals :
      ∀ x, .real x ∈ merged.tree.toJson.numbers →
        Json.parse? (Json.num (.real x)).compact =
          some (.num (.real x)) := by
    intro x hMem
    have hOne := hNumbers _ hMem
    simp only [List.mem_cons, List.not_mem_nil, or_false,
      reduceCtorEq, false_or, Number.real.injEq] at hOne
    rw [hOne]
    exact hHalf
  rcases parse_of_merged hTree hRecords hDump hMerged hReals
    with ⟨v, hText, hRead, -⟩
  refine ⟨t, s, merged, hTree, hDump, hMerged, hAt, hRead ?_⟩
  rw [hText] at hPlaces
  intro n d a hPlace hSome
  rw [Option.some.inj hPlaces] at hPlace
  cases List.mem_singleton.1 hPlace
  have hThree : a.toJson.depth = 3 := by
    simpa [hSome] using hDepth
  rw [hThree]
  decide

/-
  The text that is written for an identifier with 125 arrays
  as its type is refused.
-/
theorem parse_refuses_deep_arrays :
    ∃ t s merged,
      Tree.parse identifierJson.compact = .ok t ∧
      Snapshot.ofJson (identifierDump
        (arrays 125 (.keyword .number)).text) = .ok s ∧
      (merge {} s.engine "a.js" t).1.result = .ok merged ∧
      Tree.parse merged.tree.toJson.compact =
        .error .json := by
  have hProper :
      (arrays 125 (.keyword .number)).toJson.Proper
        Number.Legible :=
    FlowType.proper_toJson_arrays
      (by rw [FlowType.toJson]; exact .obj (by simp) (by simp))
      125
  have hDeep :
      ¬ (arrays 125 (.keyword .number)).toJson.depth ≤ 125 := by
    rw [FlowType.depth_toJson_arrays]
    decide
  rcases parse_of_typed_identifier
    (fun f hRaw => resolve_arrays rfl 125 hRaw) hProper with
    ⟨t, s, merged, hRuns⟩
  rw [if_neg hDeep] at hRuns
  exact ⟨t, s, merged, hRuns⟩

end TypeGraft
