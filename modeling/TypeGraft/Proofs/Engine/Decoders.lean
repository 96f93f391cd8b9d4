import TypeGraft.Engine.Record
import TypeGraft.Proofs.Json.Proper

/-
  Two ways to decode the records of an engine.

  A dump is decoded as a whole and leaves out what it cannot
  use; the answer to one question is decoded alone and is
  refused then.  Both find the same facts in a record, and
  what they keep besides the type is the rest of the record.

  Key definitions include:
    * `PointAnswer.located?`
    * `answeredFact?`

  Main declarations:
    * `Members.eraseSwap_perm_filter`
    * `decodeEntries_eq_ok_iff`
    * `answeredFact?_obj`
    * `decoders_agree`
-/

namespace TypeGraft

------------------------------------------------------------
-- Members Besides One
------------------------------------------------------------

namespace Members

/- If keys are distinct, only one member has a key. -/
theorem eraseP_eq_filter
    {ms : Members}
    (hKeys : ms.keys.Nodup)
    (key : String) :
    ms.eraseP (fun m => m.1 = key) =
      ms.filter (fun m => m.1 ≠ key) := by
  induction ms with
  | nil => rfl
  | cons m ms ih =>
      rcases List.nodup_cons.1 hKeys with ⟨hNew, hRest⟩
      by_cases hEq : m.1 = key
      · have hOthers : ∀ n ∈ ms, n.1 ≠ key := by
          rintro n hMem rfl
          exact hNew (hEq ▸ List.mem_map_of_mem hMem)
        rw [List.eraseP_cons_of_pos (by simpa using hEq),
          List.filter_cons_of_neg (by simpa using hEq),
          List.filter_eq_self.2 (by simpa using hOthers)]
      · rw [List.eraseP_cons_of_neg (by simpa using hEq),
          List.filter_cons_of_pos (by simpa using hEq),
          ih hRest]

/- What is left without a key are the members with others. -/
theorem eraseSwap_perm_filter
    {ms : Members}
    (hKeys : ms.keys.Nodup)
    (key : String) :
    (ms.eraseSwap key).Perm
      (ms.filter (fun m => m.1 ≠ key)) := by
  rw [← eraseP_eq_filter hKeys]
  exact ms.eraseSwap_perm key

end Members

------------------------------------------------------------
-- Dumps
------------------------------------------------------------

/- Records that are all objects are decoded one by one. -/
theorem decodeEntries_objects
    (records : List Members)
    (i : Nat) :
    decodeEntries i (records.map .obj) =
      .ok (records.filterMap recordFact?) := by
  induction records generalizing i with
  | nil => rfl
  | cons record records ih =>
      rw [List.map_cons, decodeEntries, ih,
        List.filterMap_cons]
      cases recordFact? record <;> rfl

/- Values that are all objects are those of some records. -/
theorem exists_records_iff
    {entries : List Json} :
    (∃ records : List Members, entries = records.map .obj) ↔
      ∀ entry ∈ entries, ∃ record, entry = .obj record := by
  constructor
  · rintro ⟨records, rfl⟩ entry hMem
    rcases List.mem_map.1 hMem with ⟨record, -, rfl⟩
    exact ⟨record, rfl⟩
  · intro h
    induction entries with
    | nil => exact ⟨[], rfl⟩
    | cons entry entries ih =>
        rcases List.forall_mem_cons.1 h with
          ⟨⟨record, rfl⟩, hLater⟩
        rcases ih hLater with ⟨records, rfl⟩
        exact ⟨record :: records, rfl⟩

/- Only values that are all objects are decoded. -/
theorem forall_obj_of_decodeEntries
    {i : Nat}
    {entries : List Json}
    {facts : List TypeFact}
    (h : decodeEntries i entries = .ok facts) :
    ∀ entry ∈ entries, ∃ record, entry = .obj record := by
  induction entries generalizing i facts with
  | nil => simp
  | cons entry entries ih =>
      cases entry with
      | obj record =>
          rw [decodeEntries] at h
          split at h
          · cases h
          · rename_i later hLater
            exact List.forall_mem_cons.2
              ⟨⟨record, rfl⟩, ih hLater⟩
      | _ => cases h

theorem decodeEntries_eq_ok_iff
    {i : Nat}
    {entries : List Json}
    {facts : List TypeFact} :
    decodeEntries i entries = .ok facts ↔
      ∃ records : List Members,
        entries = records.map .obj ∧
        facts = records.filterMap recordFact? := by
  constructor
  · intro h
    rcases exists_records_iff.2
      (forall_obj_of_decodeEntries h) with ⟨records, rfl⟩
    rw [decodeEntries_objects] at h
    exact ⟨records, rfl, (Except.ok.inj h).symm⟩
  · rintro ⟨records, rfl, rfl⟩
    exact decodeEntries_objects records i

/- A dump is an array of objects. -/
theorem decodeDump_eq_ok_iff
    {v : Json}
    {facts : List TypeFact} :
    decodeDump v = .ok facts ↔
      ∃ records : List Members,
        v = .arr (records.map .obj) ∧
        facts = records.filterMap recordFact? := by
  cases v with
  | arr entries =>
      rw [decodeDump, decodeEntries_eq_ok_iff]
      simp only [Json.arr.injEq]
  | _ => simp [decodeDump]

/- Nothing else is one. -/
theorem decodeDump_eq_error_iff
    {v : Json} :
    (∃ e, decodeDump v = .error e) ↔
      (∀ entries, v ≠ .arr entries) ∨
      ∃ entries, v = .arr entries ∧
        ∃ entry ∈ entries, ∀ record, entry ≠ .obj record := by
  constructor
  · rintro ⟨e, hError⟩
    by_contra hNot
    push Not at hNot
    rcases hNot with ⟨⟨entries, rfl⟩, hAll⟩
    rcases exists_records_iff.2 (hAll entries rfl) with
      ⟨records, rfl⟩
    have hOk := decodeDump_eq_ok_iff.2 ⟨records, rfl, rfl⟩
    cases hOk.symm.trans hError
  · intro h
    cases hDecoded : decodeDump v with
    | error e => exact ⟨e, rfl⟩
    | ok facts =>
        rcases decodeDump_eq_ok_iff.1 hDecoded with
          ⟨records, rfl, -⟩
        rcases h with hNone | ⟨_, hEq, entry, hMem, hNot⟩
        · exact absurd rfl (hNone _)
        · cases hEq
          rcases exists_records_iff.1 ⟨records, rfl⟩ entry hMem
            with ⟨record, rfl⟩
          exact absurd rfl (hNot record)

------------------------------------------------------------
-- Single Answers
------------------------------------------------------------

/- The fact in an answer that says where it applies. -/
def PointAnswer.located?
    (a : PointAnswer) : Option TypeFact :=
  a.range.map a.toFact

/- The fact in the answer that a value is decoded as. -/
def answeredFact?
    (v : Json) : Option TypeFact :=
  match decodePoint v with
  | .ok answer => answer.located?
  | .error _ => none

/- Alone, a record has the fact that it has in a dump. -/
theorem answeredFact?_obj
    (record : Members) :
    answeredFact? (.obj record) = recordFact? record := by
  unfold answeredFact? recordFact?
  rw [decodePoint]
  cases hType : record.get? "type" with
  | none => rfl
  | some type =>
      cases type with
      | str text => cases recordRange? record <;> rfl
      | _ => rfl

/- An answer keeps the rest of the record. -/
theorem metadata_of_decodePoint
    {v : Json}
    {answer : PointAnswer}
    (h : decodePoint v = .ok answer) :
    ∃ record : Members, v = .obj record ∧
      answer.metadata = record.eraseSwap "type" := by
  unfold decodePoint at h
  split at h
  · rename_i record
    split at h
    · cases h
      exact ⟨record, rfl, rfl⟩
    · cases h
    · cases h
  · cases h

------------------------------------------------------------
-- Agreement
------------------------------------------------------------

/-
  A dump is refused just if it is no array or has an entry
  that is no object.  If it is decoded, its facts are those
  that its entries have on their own, in order.  The metadata
  of an entry are its members other than the type, each of
  them once.
-/
theorem decoders_agree
    (v : Json) :
    ((∃ e, decodeDump v = .error e) ↔
      (∀ entries, v ≠ .arr entries) ∨
      ∃ entries, v = .arr entries ∧
        ∃ entry ∈ entries, ∀ record, entry ≠ .obj record) ∧
    ∀ facts, decodeDump v = .ok facts →
      ∃ entries, v = .arr entries ∧
        facts = entries.filterMap answeredFact? ∧
        ∀ entry ∈ entries, ∀ answer,
          decodePoint entry = .ok answer →
            ∃ record : Members, entry = .obj record ∧
              (record.keys.Nodup →
                answer.metadata.Perm
                  (record.filter (fun m => m.1 ≠ "type")) ∧
                answer.metadata.keys.Nodup) := by
  refine ⟨decodeDump_eq_error_iff, ?_⟩
  intro facts hDecoded
  rcases decodeDump_eq_ok_iff.1 hDecoded with
    ⟨records, rfl, rfl⟩
  refine ⟨records.map .obj, rfl, ?_, ?_⟩
  · rw [List.filterMap_map]
    congr
    funext record
    exact (answeredFact?_obj record).symm
  · intro entry hMem answer hAnswer
    rcases metadata_of_decodePoint hAnswer with
      ⟨record, rfl, hMetadata⟩
    refine ⟨record, rfl, fun hKeys => ?_⟩
    have hPerm := Members.eraseSwap_perm_filter hKeys "type"
    rw [hMetadata]
    refine ⟨hPerm, (hPerm.map Prod.fst).nodup_iff.2 ?_⟩
    exact hKeys.sublist (List.filter_sublist.map Prod.fst)

/- A record with its type between other members. -/
def enclosingRecord : Members :=
  [("path", .str "a.js"), ("type", .str "number"),
    ("line", .ofNat 1), ("start", .ofNat 7),
    ("end", .ofNat 7), ("reasons", .arr [])]

/-
  That record, one without a location, one whose type is no
  text, and one that leaves its line.
-/
def mixedRecords : List Members :=
  [enclosingRecord,
    [("type", .str "string"), ("line", .ofNat 0),
      ("start", .ofNat 1), ("end", .ofNat 1)],
    [("type", .null), ("line", .ofNat 1),
      ("start", .ofNat 1), ("end", .ofNat 3)],
    [("type", .str "boolean"), ("line", .ofNat 2),
      ("endline", .ofNat 4), ("start", .ofNat 1),
      ("end", .ofNat 2)]]

/- Two of them have facts, and nothing else is lost. -/
theorem decoders_agree_mixed :
    ∃ facts answer,
      decodeDump (.arr (mixedRecords.map .obj)) = .ok facts ∧
      facts =
        (mixedRecords.map Json.obj).filterMap
          answeredFact? ∧
      facts.map TypeFact.rawType = ["number", "boolean"] ∧
      decodePoint (.obj enclosingRecord) = .ok answer ∧
      answer.metadata.Perm
        [("path", .str "a.js"), ("line", .ofNat 1),
          ("start", .ofNat 7), ("end", .ofNat 7),
          ("reasons", .arr [])] := by
  have hDecoded :
      decodeDump (.arr (mixedRecords.map .obj)) =
        .ok (mixedRecords.filterMap recordFact?) :=
    decodeEntries_objects mixedRecords 0
  rcases (decoders_agree _).2 _ hDecoded with
    ⟨_, hEntries, hFacts, hKept⟩
  cases hEntries
  rcases hKept (.obj enclosingRecord) (by simp [mixedRecords])
    _ rfl with ⟨_, hRecord, hMetadata⟩
  cases hRecord
  exact ⟨_, _, hDecoded, hFacts, by decide +kernel, rfl,
    (hMetadata (by decide)).1⟩

end TypeGraft
