import TypeGraft.Proofs.Engine.Decoders
import TypeGraft.Proofs.Merge.Strategies

/-
  Which record of a dump is the fact of a node.

  The records of a dump say where they apply in columns that
  count from one.  In bulk, a node on one line has the last
  record that is about exactly its range, as its members say
  it: the end line may be missing, and a record that starts at
  column zero starts where one at column one starts.

  Key definitions include:
    * `Members.Holds`
    * `Members.IsAbout`

  Main declarations:
    * `coordinate?_eq_some_iff`
    * `recordFact?_of_isAbout`
    * `isAbout_of_recordFact?`
    * `facts_of_records`
-/

namespace TypeGraft

------------------------------------------------------------
-- Records
------------------------------------------------------------

namespace Members

/- The member with a key is a whole number of 32 bits. -/
def Holds
    (record : Members)
    (key : String)
    (n : Nat) : Prop :=
  n < twoTo 32 ∧ record.get? key = some (.num (.whole n))

/-
  The record states a type for a stretch of one line, whose
  columns count from zero and whose end is exclusive.
-/
structure IsAbout
    (record : Members)
    (line column stop : Nat) : Prop where
  typed : ∃ text, record.get? "type" = some (.str text)
  onLine : record.Holds "line" line
  endsOn :
    record.Holds "endline" line ∨
      ∀ n, ¬ record.Holds "endline" n
  startsAt :
    record.Holds "start" (column + 1) ∨
      column = 0 ∧ record.Holds "start" 0
  stopsAt : record.Holds "end" stop

end Members

section Record

variable {record : Members}

/- Lines and columns are the whole numbers of 32 bits. -/
theorem coordinate?_eq_some_iff
    {key : String}
    {n : Nat} :
    coordinate? record key = some n ↔ record.Holds key n := by
  simp only [coordinate?, Option.bind_eq_some_iff,
    Json.asNat32?_eq_some_iff, Members.Holds]
  grind

/- A member that is no coordinate. -/
theorem coordinate?_eq_none_iff
    {key : String} :
    coordinate? record key = none ↔
      ∀ n, ¬ record.Holds key n := by
  simp only [Option.eq_none_iff_forall_ne_some, ne_eq,
    coordinate?_eq_some_iff]

/- The location of a record, by what its members hold. -/
theorem recordRange?_eq_some_iff
    {r : SourceRange} :
    recordRange? record = some r ↔
      ∃ line start stop,
        record.Holds "line" line ∧
        record.Holds "start" start ∧
        record.Holds "end" stop ∧
        0 < line ∧
        r = ⟨⟨line, start - 1⟩,
          ⟨(coordinate? record "endline").getD line,
            stop⟩⟩ := by
  simp only [recordRange?, bind, Option.bind_eq_some_iff,
    coordinate?_eq_some_iff]
  constructor
  · rintro ⟨line, hLine, start, hStart, stop, hStop, hRange⟩
    split at hRange
    · cases hRange
    · rename_i hZero
      cases hRange
      exact ⟨line, start, stop, hLine, hStart, hStop,
        Nat.pos_of_ne_zero hZero, rfl⟩
  · rintro ⟨line, start, stop, hLine, hStart, hStop, hPos,
      rfl⟩
    exact ⟨line, hLine, start, hStart, stop, hStop,
      if_neg (by omega)⟩

/- The fact in a record about a stretch of a line. -/
theorem recordFact?_of_isAbout
    {line column stop : Nat}
    (hPos : 0 < line)
    (h : record.IsAbout line column stop) :
    ∃ text,
      record.get? "type" = some (.str text) ∧
      recordFact? record =
        some ⟨.onLine line column stop, text,
          record.eraseSwap "type"⟩ := by
  rcases h.typed with ⟨text, hType⟩
  have hEnd :
      (coordinate? record "endline").getD line = line := by
    rcases h.endsOn with hHolds | hNone
    · rw [coordinate?_eq_some_iff.2 hHolds, Option.getD_some]
    · rw [coordinate?_eq_none_iff.2 hNone, Option.getD_none]
  have hRange :
      recordRange? record =
        some (.onLine line column stop) := by
    rw [recordRange?_eq_some_iff]
    rcases h.startsAt with hStart | ⟨rfl, hStart⟩
    · exact ⟨line, column + 1, stop, h.onLine, hStart,
        h.stopsAt, hPos, by rw [hEnd]; rfl⟩
    · exact ⟨line, 0, stop, h.onLine, hStart, h.stopsAt,
        hPos, by rw [hEnd]; rfl⟩
  refine ⟨text, hType, ?_⟩
  rw [recordFact?, hType, hRange]
  rfl

/- A record with a fact about one line is about that line. -/
theorem isAbout_of_recordFact?
    {f : TypeFact}
    (hFact : recordFact? record = some f)
    (hLine : f.range.isSingleLine = true) :
    0 < f.range.start.line ∧
      record.IsAbout f.range.start.line f.range.start.column
        f.range.stop.column := by
  unfold recordFact? at hFact
  split at hFact
  · rename_i text range hType hRange
    cases hFact
    rcases recordRange?_eq_some_iff.1 hRange with
      ⟨line, start, stop, hHolds, hStart, hStop, hPos, rfl⟩
    have hEnd :
        line = (coordinate? record "endline").getD line := by
      simpa [SourceRange.isSingleLine] using hLine
    refine ⟨hPos, ⟨text, hType⟩, hHolds, ?_, ?_, hStop⟩
    · cases hGiven : coordinate? record "endline" with
      | none => exact .inr (coordinate?_eq_none_iff.1 hGiven)
      | some n =>
          rw [hGiven, Option.getD_some] at hEnd
          subst hEnd
          exact .inl (coordinate?_eq_some_iff.1 hGiven)
    · -- A start column of zero is taken for one.
      cases start with
      | zero => exact .inr ⟨rfl, hStart⟩
      | succ column => exact .inl hStart
  · cases hFact

end Record

------------------------------------------------------------
-- Dumps
------------------------------------------------------------

/- No record is about a line, and so no fact is. -/
theorem lastAbout?_eq_none_of_records
    {records : List Members}
    {line column stop : Nat}
    (h :
      ∀ record ∈ records,
        ¬ record.IsAbout line column stop) :
    lastAbout? (records.filterMap recordFact?)
      (.onLine line column stop) = none := by
  rw [lastAbout?_eq_none_iff]
  intro f hMem hRange
  rcases List.mem_filterMap.1 hMem with
    ⟨record, hRecord, hFact⟩
  have hAbout :=
    (isAbout_of_recordFact? hFact
      (by rw [hRange]; exact decide_eq_true rfl)).2
  rw [hRange] at hAbout
  exact h record hRecord hAbout

/- The last record about a line is the last fact about it. -/
theorem lastAbout?_of_records
    {before after : List Members}
    {record : Members}
    {line column stop : Nat}
    {f : TypeFact}
    (hFact : recordFact? record = some f)
    (hRange : f.range = .onLine line column stop)
    (hLater :
      ∀ later ∈ after,
        ¬ later.IsAbout line column stop) :
    lastAbout?
      ((before ++ record :: after).filterMap recordFact?)
      (.onLine line column stop) = some f := by
  have hNone := lastAbout?_eq_none_of_records hLater
  simp only [lastAbout?, List.filterMap_append,
    List.filterMap_cons, hFact, List.filter_append] at hNone ⊢
  rw [List.filter_cons_of_pos (by simpa using hRange),
    List.getLast?_eq_none_iff.1 hNone]
  simp

/-
  In bulk, each target on one line has the fact in the last
  record about it and none if there is no such record.  A
  target over several lines, or on line zero, has none.
-/
theorem facts_of_records
    {t : Tree}
    {engine : Engine}
    {records : List Members}
    (hTree : t.Produced)
    (hDump :
      engine.answer .dump =
        decodeDump (.arr (records.map .obj)))
    (eligibility : Eligibility)
    (file : String) :
    ∃ bulk,
      (((FactSource.ofEngine .bulk engine.name).collect file t
        (eligibility.targets t)).run engine).1 = .ok bulk ∧
      ∀ n m, n ∈ eligibility.targets t → t.get? n = some m →
        (∀ line column stop, 0 < line →
          m.range = .onLine line column stop →
            ((∀ record ∈ records,
              ¬ record.IsAbout line column stop) →
                bulk.facts[n]? = none) ∧
            (∀ before record after,
              records = before ++ record :: after →
              record.IsAbout line column stop →
              (∀ later ∈ after,
                ¬ later.IsAbout line column stop) →
              ∃ text,
                record.get? "type" = some (.str text) ∧
                bulk.facts[n]? =
                  some ⟨m.range, text,
                    record.eraseSwap "type"⟩)) ∧
        (m.range.isSingleLine = false ∨
            m.range.start.line = 0 →
          bulk.facts[n]? = none) := by
  have hNodup : (eligibility.targets t).Nodup :=
    Eligibility.nodup_targets hTree.linked
  have hAnswer :
      engine.answer .dump =
        .ok (records.filterMap recordFact?) :=
    hDump.trans (decodeEntries_objects records 0)
  refine ⟨collectBulk (t.targetsOf (eligibility.targets t))
    (records.filterMap recordFact?), ?_, ?_⟩
  · simp only [FactSource.ofEngine, collect, Dialogue.run,
      hAnswer]
    rfl
  · intro n m hTarget hNode
    have hFact :
        (collectBulk (t.targetsOf (eligibility.targets t))
          (records.filterMap recordFact?)).facts[n]? =
            bulkFact? (records.filterMap recordFact?)
              m.range := by
      refine (FactMap.getElem?_ofTargets hNodup _ n).trans ?_
      rw [if_pos hTarget, hNode]
      rfl
    rw [hFact, bulkFact?_eq]
    refine ⟨?_, ?_⟩
    · intro line column stop hPos hRange
      have hLine : m.range.isSingleLine = true := by
        rw [hRange]
        exact decide_eq_true rfl
      rw [if_pos hLine, hRange]
      refine ⟨lastAbout?_eq_none_of_records, ?_⟩
      rintro before record after rfl hAbout hLater
      rcases recordFact?_of_isAbout hPos hAbout with
        ⟨text, hType, hDecoded⟩
      exact ⟨text, hType,
        lastAbout?_of_records hDecoded rfl hLater⟩
    · intro hOut
      by_cases hLine : m.range.isSingleLine = true
      · rw [if_pos hLine, lastAbout?_eq_none_iff]
        intro f hMem hRange
        rcases List.mem_filterMap.1 hMem with
          ⟨record, -, hDecoded⟩
        have hPos :=
          (isAbout_of_recordFact? hDecoded
            (by rw [hRange, hLine])).1
        rw [hRange] at hPos
        rcases hOut with hLines | hZero
        · exact absurd hLine (by simp [hLines])
        · omega
      · rw [if_neg hLine]

/-
  Two records about the first identifier, the second of them
  from column zero and without an end line, and one that
  starts at the second identifier and leaves its line.
-/
def identifiersRecords : List Members :=
  [[("type", .str "number"), ("line", .ofNat 1),
      ("endline", .ofNat 1), ("start", .ofNat 1),
      ("end", .ofNat 1)],
    [("type", .str "string"), ("line", .ofNat 1),
      ("start", .ofNat 0), ("end", .ofNat 1),
      ("endline", .null)],
    [("type", .str "boolean"), ("line", .ofNat 1),
      ("endline", .ofNat 2), ("start", .ofNat 5),
      ("end", .ofNat 6)]]

/-
  The first identifier has the second record as its fact, and
  the second identifier has none.
-/
theorem facts_of_records_identifiers :
    ∃ s bulk,
      Snapshot.ofJson (.arr (identifiersRecords.map .obj)) =
        .ok s ∧
      (((FactSource.ofEngine .bulk "snapshot").collect
        "a.js" identifiersTree
        (({} : Eligibility).targets identifiersTree)).run
          s.engine).1 = .ok bulk ∧
      bulk.facts[(⟨1⟩ : NodeId)]? =
        some ⟨.onLine 1 0 1, "string",
          [("endline", .null), ("line", .ofNat 1),
            ("start", .ofNat 0), ("end", .ofNat 1)]⟩ ∧
      bulk.facts[(⟨2⟩ : NodeId)]? = none := by
  have hBuild :
      Tree.build? (.ofName "Program") (.onLine 1 0 9)
        [.push Tree.root "body" .identifier (.onLine 1 0 1),
          .push Tree.root "body" .identifier (.onLine 1 4 6),
          .push Tree.root "body" .identifier
            (.onLine 1 8 9)] =
        some identifiersTree := rfl
  have hTargets :
      ({} : Eligibility).targets identifiersTree =
        [⟨1⟩, ⟨2⟩, ⟨3⟩] := by
    decide +kernel
  let s : Snapshot :=
    ⟨identifiersRecords.filterMap recordFact?⟩
  have hDecoded :
      decodeDump (.arr (identifiersRecords.map .obj)) =
        .ok s.facts :=
    decodeEntries_objects identifiersRecords 0
  rcases @facts_of_records _ s.engine _ (.built hBuild)
    hDecoded.symm {} "a.js" with ⟨bulk, hBulk, hFacts⟩
  have hFirst :=
    (hFacts ⟨1⟩ _ (by rw [hTargets]; decide) rfl).1 1 0 1
      (by decide) rfl
  have hSecond :=
    (hFacts ⟨2⟩ _ (by rw [hTargets]; decide) rfl).1 1 4 6
      (by decide) rfl
  refine ⟨s, bulk, ?_, hBulk, ?_, hSecond.1 ?_⟩
  · rw [Snapshot.ofJson, hDecoded]
    rfl
  · have hLater := hFirst.2 [_] _ [_] rfl
      { typed := ⟨"string", rfl⟩
        onLine := ⟨by decide, rfl⟩
        endsOn := .inr (by
          rintro n ⟨-, hHeld⟩
          cases hHeld)
        startsAt := .inr ⟨rfl, by decide, rfl⟩
        stopsAt := ⟨by decide, rfl⟩ }
    rcases hLater (by
        intro later hMem hAbout
        cases List.mem_singleton.1 hMem
        cases hAbout.stopsAt.2) with
      ⟨text, hType, hFact⟩
    cases hType
    exact hFact
  · intro record hMem hAbout
    simp only [identifiersRecords, List.mem_cons,
      List.not_mem_nil, or_false] at hMem
    rcases hMem with rfl | rfl | rfl
    · cases hAbout.stopsAt.2
    · cases hAbout.stopsAt.2
    · rcases hAbout.endsOn with hHeld | hNone
      · cases hHeld.2
      · exact hNone 2 ⟨by decide, rfl⟩

end TypeGraft
