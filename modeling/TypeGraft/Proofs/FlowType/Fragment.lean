import TypeGraft.Proofs.FlowType.RoundTrip
import TypeGraft.Proofs.FlowType.Trailing

/-
  Which texts are read as types.

  A type text is read as the right side of a declaration that
  ends in a semicolon of its own.  The text has to be one type
  with blanks and comments around it.  It may have a semicolon
  behind the type only if a line comment follows that is not
  ended, since then the declaration ends with the semicolon of
  the text, and the added one is part of the comment.

  Key definitions include:
    * `FlowType.Grammar.soleType`

  Main declarations:
    * `FlowType.Grammar.reads_ending_eq_nil_iff`
    * `FlowType.parse_eq_ok_iff_soleType`
-/

namespace TypeGraft

namespace FlowType

namespace Grammar

open Peg

/- A type with blanks and comments around it. -/
def soleType : Rule FlowType :=
  ws *> type <* ws

theorem reads_soleType
    (xs : List Char) :
    soleType.reads rules xs =
      (rules .type (skip xs)).map (fun v => (v.1, skip v.2)) := by
  simp only [soleType, type, reads_keepLeft, reads_keepRight,
    reads_ws, reads_call, Option.bind_some, Option.map_some]
  cases rules .type (skip xs) <;> rfl

------------------------------------------------------------
-- The End of a Declaration
------------------------------------------------------------

/- A declaration may end with a semicolon. -/
theorem reads_ending_mark
    {xs rest : List Char}
    (h : skip xs = ';' :: rest) :
    ending.reads rules xs = some ((), skip rest) := by
  simp [ending, h, Cursor.dropLiteral]

theorem reads_ending_unmarked
    {xs : List Char}
    (h : Avoids (fun x => x = ';') (skip xs)) :
    ending.reads rules xs = some ((), skip xs) := by
  have hNone :
      (symbol ";" : Rule Unit).reads rules (skip xs) = none :=
    congrArg (Option.map _) (dropLiteral_of_avoids h)
  simp only [ending, reads_keepRight, reads_ws,
    Option.bind_some, reads_optional, hNone, skip_skip]

/-
  The declaration is read to its end if nothing is left of the
  text, or a semicolon and what takes the added one with it.
-/
theorem reads_ending_eq_nil_iff
    {xs zs : List Char}
    (h : Trails xs zs) :
    ending.reads rules zs = some ((), []) ↔
      skip xs = [] ∨
        ∃ rest, skip xs = ';' :: rest ∧ OpenComment rest := by
  have hEnd :
      skip zs = [] → ending.reads rules zs = some ((), []) := by
    intro hNil
    rw [reads_ending_unmarked (by rw [hNil]; exact avoids_nil _),
      hNil]
  rcases trails_skip h with hMark | ⟨hNil, hSkip⟩
  · cases hRest : skip xs with
    | nil =>
        rw [hRest] at hMark
        rw [reads_ending_mark hMark, skip_nil]
        simp
    | cons x rest =>
        rw [hRest, List.cons_append] at hMark
        by_cases hSemicolon : x = ';'
        · -- The semicolon of the text ends the declaration, and
          -- the added one has to be skipped.
          subst hSemicolon
          rw [reads_ending_mark hMark]
          simp [skip_concat_mark_eq_nil_iff]
        · rw [reads_ending_unmarked (by simp [hMark, hSemicolon]),
            hMark]
          simp [hSemicolon]
  · rw [skip_skip] at hSkip
    simp [hEnd hNil, hSkip]

/- A type and the end of its declaration. -/
theorem reads_declared_iff
    {t : FlowType}
    {xs : List Char} :
    (∃ declared,
      ((type <* ending).reads rules xs).map (fun v =>
          ((⟨"S", none, v.1⟩ : Alias), v.2)) =
        some (declared, []) ∧
      declared.right = t) ↔
      ∃ us, rules .type xs = some (t, us) ∧
        ending.reads rules us = some ((), []) := by
  constructor
  · rintro ⟨declared, hRead, rfl⟩
    rcases Option.map_eq_some_iff.1 hRead with
      ⟨⟨u, ys⟩, hBoth, hEq⟩
    cases hEq
    rcases (reads_keepLeft_eq_some_iff _ _ _ _ _ _).1 hBoth
      with ⟨us, ⟨⟩, hType, hEnd⟩
    exact ⟨us, hType, hEnd⟩
  · rintro ⟨us, hType, hEnd⟩
    refine ⟨⟨"S", none, t⟩, Option.map_eq_some_iff.2
      ⟨(t, []), ?_, rfl⟩, rfl⟩
    exact (reads_keepLeft_eq_some_iff _ _ _ _ _ _).2
      ⟨us, (), hType, hEnd⟩

end Grammar

end FlowType

------------------------------------------------------------
-- Texts
------------------------------------------------------------

open FlowType.Grammar

namespace FlowType

/-
  A text is read as a type if the dialect has types and the
  whole text is that type with blanks and comments around it,
  or if a semicolon is behind these, and behind that blanks
  and comments up to a line comment that the text ends in.
-/
theorem parse_eq_ok_iff_soleType
    (dialect : Dialect)
    (text : String)
    (t : FlowType) :
    FlowType.parse dialect text = .ok t ↔
      dialect.supportsTypes = true ∧
        (FlowType.grammar.parse soleType text.toList = .ok t ∨
          ∃ rest,
            soleType.reads rules text.toList =
              some (t, ';' :: rest) ∧
            OpenComment rest) := by
  have hTrails :
      Trails (skip text.toList) (skip (text.toList ++ [';'])) :=
    trails_skip (.inl rfl)
  have hTypes := steady_rules.calls .type _ _ hTrails
  rw [parse_eq_ok_iff_reads,
    FlowType.grammar.parse_eq_ok_iff_reads soleType rfl,
    fragmentSource, List.append_assoc,
    reads_typeAlias_fragment, reads_declared_iff,
    reads_soleType]
  apply and_congr_right
  intro _
  rw [Peg.reads_call, Peg.reads_call] at hTypes
  generalize rules .type (skip text.toList) = o at hTypes ⊢
  generalize rules .type (skip (text.toList ++ [';'])) = o'
    at hTypes ⊢
  cases hTypes with
  | none => simp
  | @some v w hSame =>
      rcases v with ⟨u, xs⟩
      rcases w with ⟨u', zs⟩
      rcases hSame with ⟨rfl, hRest⟩
      have hEnd := reads_ending_eq_nil_iff hRest
      simp only [Option.some.injEq, Prod.mk.injEq,
        Option.map_some]
      constructor
      · rintro ⟨us, ⟨rfl, rfl⟩, hRead⟩
        rcases hEnd.1 hRead with hNil | ⟨rest, hMark, hOpen⟩
        · exact .inl ⟨rfl, hNil⟩
        · exact .inr ⟨rest, ⟨rfl, hMark⟩, hOpen⟩
      · rintro (⟨rfl, hNil⟩ | ⟨rest, ⟨rfl, hMark⟩, hOpen⟩)
        · exact ⟨zs, ⟨rfl, rfl⟩, hEnd.2 (.inl hNil)⟩
        · exact ⟨zs, ⟨rfl, rfl⟩,
            hEnd.2 (.inr ⟨rest, hMark, hOpen⟩)⟩

/-
  The semicolon of this text ends its declaration, and the one
  that is added behind it is part of the comment.
-/
theorem parse_accepts_semicolon_before_comment :
    (FlowType.parse {} "number; // c").toOption.map
        FlowType.text =
      some "number" ∧
    (FlowType.grammar.parse soleType
      "number; // c".toList).isOk = false := by
  decide +kernel

end FlowType

end TypeGraft
