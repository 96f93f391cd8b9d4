import TypeGraft.Proofs.FlowType.RoundTrip
import TypeGraft.Proofs.Peg.Failing

/-
  Texts that are refused, and what is reported of them.

  Primary types are remembered while a declaration is read.
  Nobody notices: what a text is read as, and what is reported
  of one that is refused, is the same without memory.

  A type text is read with a head before it and a semicolon
  behind it.  The head is always read, and a type reports
  where it fails, so a text is refused behind the head.  What
  is reported lies between two characters of the text, or at
  its end if the semicolon was passed.

  Key definitions include:
    * `FlowType.Placed`

  Main declarations:
    * `FlowType.Grammar.memory_unnoticed`
    * `FlowType.Grammar.reports_type`
    * `FlowType.byteLength_head_le`
    * `FlowType.placed_of_refused`
-/

namespace TypeGraft

namespace FlowType

namespace Grammar

open Peg

------------------------------------------------------------
-- Memory
------------------------------------------------------------

/-
  Memory of primary types changes no verdict on an alias or on
  a class declaration: not its value, and neither the offset
  nor the items that are reported.
-/
theorem memory_unnoticed
    (text : String) :
    Grammar.SameVerdict
        (FlowType.grammar.parse typeAlias text.toList)
        (FlowType.grammar.parsePlainly typeAlias text.toList) ∧
      Grammar.SameVerdict
        (FlowType.grammar.parse classHeader text.toList)
        (FlowType.grammar.parsePlainly classHeader
          text.toList) :=
  ⟨FlowType.grammar.parse_sameVerdict typeAlias rfl _,
    FlowType.grammar.parse_sameVerdict classHeader rfl _⟩

------------------------------------------------------------
-- Types Report Where They Fail
------------------------------------------------------------

/- A name is the last thing that a primary type may be. -/
theorem reports_generic : FlowType.grammar.Reports generic := by
  have hPart : FlowType.grammar.Reports identifier :=
    .orElse _ (.fail _)
  have hName : FlowType.grammar.Reports typeName :=
    (hPart.sequence (.many _) _).check _
  exact (hName.map _).apply (.optional _)

theorem reports_primary : FlowType.grammar.Reports primary := by
  unfold primary
  -- Eleven other kinds of types are tried before a name.
  iterate 11 refine .orElse _ ?_
  exact reports_generic

theorem reports_prefixed :
    FlowType.grammar.Reports prefixed := by
  have hPrimary : FlowType.grammar.Reports (.call .primary) :=
    .call reports_primary
  exact .orElse _ ((hPrimary.map _).apply (.many _))

theorem reports_joinedBy
    {item : Rule FlowType}
    (hItem : FlowType.grammar.Reports item)
    (mark : String)
    (join : List FlowType → FlowType) :
    FlowType.grammar.Reports (joinedBy mark join item) := by
  have hFirst :
      FlowType.grammar.Reports
        (Peg.optional (symbol mark *> ws) *> item) :=
    .keepRight (.optional _) hItem
  exact (hFirst.map _).apply (.many _)

theorem reports_type : FlowType.grammar.Reports type := by
  have hPrefixed : FlowType.grammar.Reports (.call .prefixed) :=
    .call reports_prefixed
  have hUnion : FlowType.grammar.Reports union :=
    reports_joinedBy (reports_joinedBy hPrefixed _ _) _ _
  exact .call hUnion

/- The end of a declaration never fails. -/
theorem reports_ending : FlowType.grammar.Reports ending := by
  have hSpace : FlowType.grammar.Reports ws :=
    .of_reads (fun xs => by rw [reads_ws]; rfl)
  exact (hSpace.keepRight (.optional _)).keepRight hSpace

end Grammar

end FlowType

------------------------------------------------------------
-- Offsets in Texts
------------------------------------------------------------

namespace Cursor

theorem byteLength_eq_utf8ByteSize
    (cs : List Char) :
    byteLength cs = (String.ofList cs).utf8ByteSize := by
  induction cs with
  | nil => rfl
  | cons c cs ih =>
      rw [byteLength, ih, String.ofList_cons,
        String.utf8ByteSize_append,
        String.utf8ByteSize_singleton]

theorem byteLength_toList
    (text : String) :
    byteLength text.toList = text.utf8ByteSize := by
  rw [byteLength_eq_utf8ByteSize, String.ofList_toList]

/- The bytes of a front part of a text end between characters. -/
theorem isValid_byteLength
    {text : String}
    {front back : List Char}
    (h : text.toList = front ++ back) :
    String.Pos.Raw.IsValid text ⟨byteLength front⟩ := by
  rw [String.Pos.Raw.isValid_iff_exists_append]
  refine ⟨String.ofList front, String.ofList back, ?_, ?_⟩
  · rw [← String.ofList_append, ← h, String.ofList_toList]
  · rw [byteLength_eq_utf8ByteSize]
    rfl

/- A cursor behind the head of a text splits the rest. -/
theorem Reaches.exists_front
    {head rest : List Char}
    {d : Cursor}
    (h : (Cursor.start (head ++ rest)).Reaches d)
    (hHead : byteLength head ≤ d.offset) :
    ∃ front, rest = front ++ d.rest ∧
      d.offset = byteLength head + byteLength front := by
  rcases h with ⟨read, hText, hOffset⟩
  have hRead : d.offset = byteLength read :=
    hOffset.trans (Nat.zero_add _)
  rcases List.append_eq_append_iff.mp hText with
    ⟨more, rfl, hRest⟩ | ⟨more, rfl, hRest⟩
  · exact ⟨more, hRest, by rw [hRead, byteLength_append]⟩
  · -- The cursor is in the head, and so at the end of it.
    have hNone : more = [] := by
      apply eq_of_byteLength_eq more [] [] more
        (List.append_nil more)
      rw [byteLength_append] at hHead
      change byteLength more = 0
      omega
    subst hNone
    exact ⟨[], hRest.symm, by rw [List.append_nil, hRead]; rfl⟩

end Cursor

------------------------------------------------------------
-- Where Type Texts Are Refused
------------------------------------------------------------

open FlowType.Grammar

namespace FlowType

/-
  An error that is met at a position of the declaration around
  a text is reported at an offset of the text.  Nine bytes are
  put before the text and one behind it.
-/
structure Placed
    (text : String)
    (position offset : Nat) : Prop where
  behindHead : 9 ≤ position
  boundary : String.Pos.Raw.IsValid text ⟨offset⟩
  within : offset ≤ text.utf8ByteSize
  inText :
    position ≤ 9 + text.utf8ByteSize → offset = position - 9
  behindMark :
    9 + text.utf8ByteSize < position →
      position = 9 + text.utf8ByteSize + 1 ∧
        offset = text.utf8ByteSize

section

variable {text : String}
variable {failures : Failures}
variable
  (hRefused :
    FlowType.grammar.parse typeAlias (fragmentSource text) =
      .error failures)
include hRefused

/- The head that is put before a text is always read. -/
theorem byteLength_head_le :
    Cursor.byteLength fragmentHead ≤ failures.offset := by
  have hLeft :
      (skip (text.toList ++ [';'])).length ≤
        (text.toList ++ [';']).length :=
    (FlowType.grammar.reads_suffix (reads_ws _)).1
  rw [fragmentSource, List.append_assoc, typeAlias_eq]
    at hRefused
  exact FlowType.grammar.byteLength_le_of_parse_error rfl
    (reports_type.keepLeft reports_ending)
    (reads_aliasHead _) hLeft hRefused

/-
  The text is refused between two of its characters, or behind
  the semicolon.
-/
theorem offset_cases :
    (∃ front back, text.toList = front ++ back ∧
        failures.offset = 9 + Cursor.byteLength front) ∨
      failures.offset = 9 + text.utf8ByteSize + 1 := by
  have hHead := byteLength_head_le hRefused
  rcases FlowType.grammar.exists_reaches_of_parse_error rfl
    hRefused with ⟨d, hReaches, hOffset⟩
  rw [← hOffset] at hHead ⊢
  rw [fragmentSource, List.append_assoc] at hReaches
  rcases hReaches.exists_front hHead with
    ⟨front, hRest, hFront⟩
  rcases d.rest.eq_nil_or_concat with
    hNil | ⟨back, mark, hBack⟩
  · -- Nothing is left, so the semicolon was passed.
    right
    rw [hNil, List.append_nil] at hRest
    rw [hFront, ← hRest, Cursor.byteLength_append,
      Cursor.byteLength_toList]
    rfl
  · left
    rw [hBack, List.concat_eq_append, ← List.append_assoc]
      at hRest
    exact ⟨front, back, (List.append_inj' hRest rfl).1, hFront⟩

/- The offset that is kept within the text is in its place. -/
theorem placed_of_parse_error :
    Placed text failures.offset
      (min (failures.offset - 9) text.utf8ByteSize) := by
  rcases offset_cases hRefused with
    ⟨front, back, hText, hOffset⟩ | hOffset
  · have hSize :
        Cursor.byteLength front + Cursor.byteLength back =
          text.utf8ByteSize := by
      rw [← Cursor.byteLength_append, ← hText,
        Cursor.byteLength_toList]
    have hPlace :
        min (failures.offset - 9) text.utf8ByteSize =
          Cursor.byteLength front := by omega
    rw [hPlace]
    exact
      { behindHead := by omega
        boundary := Cursor.isValid_byteLength hText
        within := by omega
        inText := by omega
        behindMark := by omega }
  · have hPlace :
        min (failures.offset - 9) text.utf8ByteSize =
          text.utf8ByteSize := by omega
    rw [hPlace]
    exact
      { behindHead := by omega
        boundary := String.Pos.Raw.isValid_rawEndPos
        within := Nat.le_refl _
        inText := by omega
        behindMark := fun _ => ⟨hOffset, rfl⟩ }

/- A text is refused if the declaration around it is. -/
theorem parse_eq_error
    {dialect : Dialect}
    (hTypes : dialect.supportsTypes = true) :
    FlowType.parse dialect text =
      .error (.ofFailures .type text 9 failures) := by
  rw [FlowType.parse, readWith, if_pos hTypes, hRefused]
  rfl

end

/-
  If a dialect has types, an error about a text names the text
  and an offset in it, which is where the declaration around
  the text was refused, less the nine bytes of the head.
-/
theorem placed_of_refused
    {dialect : Dialect}
    {text : String}
    {e : ParseError}
    (hTypes : dialect.supportsTypes = true)
    (h : FlowType.parse dialect text = .error e) :
    ∃ failures offset,
      FlowType.grammar.parse typeAlias (fragmentSource text) =
          .error failures ∧
        e = .invalid .type text offset failures.describe ∧
        Placed text failures.offset offset := by
  cases hParse :
      FlowType.grammar.parse typeAlias (fragmentSource text) with
  | ok declared =>
      rw [FlowType.parse, readWith, if_pos hTypes, hParse] at h
      cases h
  | error failures =>
      rw [parse_eq_error hParse hTypes] at h
      cases h
      refine ⟨failures, _, rfl, rfl, ?_⟩
      rw [Cursor.byteLength_toList]
      exact placed_of_parse_error hParse

/-
  The quote is not closed, so that the string goes on through
  the semicolon, and the end of the text is reported.
-/
theorem placed_of_refused_unclosed :
    ∃ failures,
      FlowType.grammar.parse typeAlias (fragmentSource "'é") =
          .error failures ∧
        failures.offset = 13 ∧
        FlowType.parse {} "'é" =
          .error (.invalid .type "'é" 3 failures.describe) ∧
        Placed "'é" failures.offset 3 := by
  have hOffset :
      (failure? (FlowType.grammar.parse typeAlias
        (fragmentSource "'é"))).map Failures.offset =
          some 13 := by
    decide +kernel
  rcases Option.map_eq_some_iff.mp hOffset with
    ⟨failures, hFailure, hEnd⟩
  have hTypes : ({} : Dialect).supportsTypes = true := rfl
  have hParse := failure?_eq_some_iff.mp hFailure
  have hError := parse_eq_error hParse hTypes
  rcases placed_of_refused hTypes hError with
    ⟨failures', offset, hParse', hSame, hPlaced⟩
  obtain rfl : failures = failures' :=
    Except.error.inj (hParse.symm.trans hParse')
  obtain rfl : offset = 3 :=
    (hPlaced.behindMark (by rw [hEnd]; decide)).2
  exact ⟨failures, hParse, hEnd, hError.trans (by rw [hSame]),
    hPlaced⟩

end FlowType

end TypeGraft
