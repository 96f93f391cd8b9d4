import TypeGraft.Proofs.FlowType.Printed

/-
  What is skipped between the tokens of a type.

  Blanks and comments are skipped one after the other.  Only a
  line comment that the text ends in reads on if the text is
  made longer; everything else that is skipped has an end of
  its own, and what is not skipped stays so.  So a semicolon
  at the end of a text is either left there or is part of a
  line comment.

  Key definitions include:
    * `FlowType.Grammar.Space`
    * `FlowType.Grammar.Spacing`
    * `FlowType.Grammar.OpenComment`

  Main declarations:
    * `FlowType.Grammar.skip_space`
    * `FlowType.Grammar.space_or_open_or_stays`
    * `FlowType.Grammar.skip_concat_mark`
    * `FlowType.Grammar.skip_concat_mark_eq_nil_iff`
-/

namespace TypeGraft

namespace FlowType

namespace Grammar

open Peg

------------------------------------------------------------
-- Blanks and Comments
------------------------------------------------------------

/- The end of a block comment. -/
def blockEnd : List Char := ['*', '/']

/- A blank, or a comment with its end. -/
inductive Space : List Char → Prop where
  | blank
      {x : Char}
      (hx : blank.accepts x = true) : Space [x]
  | block
      {body : List Char}
      (hBody : ¬ blockEnd <:+: body) :
      Space ('/' :: '*' :: (body ++ blockEnd))
  | line
      {body : List Char}
      (hBody : '\n' ∉ body) :
      Space ('/' :: '/' :: (body ++ ['\n']))

/- Blanks and comments with their ends. -/
inductive Spacing : List Char → Prop where
  | nil : Spacing []
  | cons
      {s xs : List Char}
      (hs : Space s)
      (h : Spacing xs) : Spacing (s ++ xs)

/- Blanks and comments, of which a last one is not ended. -/
def OpenComment
    (xs : List Char) : Prop :=
  ∃ before comment,
    xs = before ++ '/' :: '/' :: comment ∧
      Spacing before ∧ '\n' ∉ comment

/- What is skipped is not empty. -/
theorem Space.length_pos
    {s : List Char}
    (h : Space s) : 0 < s.length := by
  cases h <;> simp

------------------------------------------------------------
-- One Step
------------------------------------------------------------

/- One thing that is skipped. -/
def spacePiece : Rule Unit :=
  (char blank *> succeed ()) <|> blockComment <|> lineComment

theorem ws_eq :
    ws = quiet (many spacePiece *> succeed ()) := rfl

/- Where nothing can be skipped, nothing is. -/
theorem skip_of_piece_none
    {xs : List Char}
    (h : spacePiece.reads rules xs = none) : skip xs = xs := by
  have hRead := reads_ws xs
  rw [ws_eq, reads_quiet, reads_keepRight,
    reads_many_stop rfl h] at hRead
  exact (congrArg Prod.snd (Option.some.inj hRead)).symm

/- One thing is skipped, and then what is behind it. -/
theorem skip_of_piece
    {xs ys : List Char}
    (h : spacePiece.reads rules xs = some ((), ys)) :
    skip xs = skip ys := by
  have hRead := reads_ws xs
  have hRest := reads_ws ys
  rw [ws_eq, reads_quiet, reads_keepRight] at hRead hRest
  rw [reads_many_rules rfl, h] at hRead
  rcases Option.bind_eq_some_iff.1 hRest with
    ⟨v, hMany, hEnd⟩
  simp only [hMany, Option.map_some, Option.bind_some,
    reads_succeed, Option.some.injEq, Prod.mk.injEq,
    true_and] at hRead hEnd
  rw [← hRead, ← hEnd]

/- A line comment goes to the end of its line. -/
theorem reads_piece_line
    (xs : List Char) :
    spacePiece.reads rules ('/' :: '/' :: xs) =
      some ((), xs.dropWhile inLine.accepts) := by
  have hBlank : blank.accepts '/' = false := rfl
  simp [spacePiece, blockComment, lineComment, hBlank,
    Cursor.dropLiteral]

/- What the body of a block comment is made of. -/
def blockChar : Rule Char :=
  absent (symbol "*/") *> char anyChar

theorem blockComment_eq :
    blockComment =
      symbol "/*" *> many blockChar *> symbol "*/" := rfl

/- Everything but the end of the comment is in its body. -/
theorem reads_blockChar
    (x : Char)
    (xs : List Char) :
    blockChar.reads rules (x :: xs) =
      if blockEnd <+: x :: xs then none else some (x, xs) := by
  have hEnd :
      (symbol "*/" : Rule Unit).reads rules (x :: xs) =
        (Cursor.dropLiteral blockEnd (x :: xs)).map
          (fun ys => ((), ys)) := rfl
  rw [blockChar, reads_keepRight, reads_absent, hEnd,
    Option.isSome_map]
  cases hDrop : Cursor.dropLiteral blockEnd (x :: xs) with
  | none =>
      rw [if_neg (by simp), if_neg ?_]
      · rfl
      · rintro ⟨ys, hEq⟩
        rw [(Cursor.dropLiteral_eq_some_iff _ _ _).2
          hEq.symm] at hDrop
        cases hDrop
  | some ys =>
      rw [Cursor.dropLiteral_eq_some_iff] at hDrop
      rw [if_pos (by simp), if_pos ⟨ys, hDrop.symm⟩]
      rfl

/- The end of a comment is found where it is first written. -/
theorem not_prefix_of_body
    {x : Char}
    {body rest : List Char}
    (hBody : ¬ blockEnd <:+: x :: body)
    (hRest : rest = [] ∨ blockEnd <+: rest) :
    ¬ blockEnd <+: x :: (body ++ rest) := by
  intro hPrefix
  cases body with
  | nil =>
      rcases hRest with rfl | ⟨ys, rfl⟩ <;>
        simp [blockEnd] at hPrefix
  | cons y body =>
      apply hBody
      simp only [blockEnd, List.cons_append,
        List.cons_prefix_cons] at hPrefix
      rcases hPrefix with ⟨rfl, rfl, -⟩
      exact ⟨[], body, rfl⟩

/- A block comment is read up to its end. -/
theorem reads_blockBody
    {body rest : List Char}
    (hBody : ¬ blockEnd <:+: body)
    (hRest : rest = [] ∨ blockEnd <+: rest) :
    (many blockChar).reads rules (body ++ rest) =
      some (body, rest) := by
  induction body with
  | nil =>
      apply reads_many_stop rfl
      rcases hRest with rfl | ⟨ys, rfl⟩
      · rfl
      · exact (reads_blockChar _ _).trans
          (if_pos ⟨ys, rfl⟩)
  | cons x body ih =>
      have hInner : ¬ blockEnd <:+: body :=
        fun hInfix => hBody (List.infix_cons hInfix)
      rw [List.cons_append, reads_many_rules rfl,
        reads_blockChar,
        if_neg (not_prefix_of_body hBody hRest)]
      simp only [ih hInner, Option.map_some]

/- A block comment that is ended is skipped. -/
theorem reads_piece_block
    {body : List Char}
    (hBody : ¬ blockEnd <:+: body)
    (rest : List Char) :
    spacePiece.reads rules
        ('/' :: '*' :: (body ++ blockEnd ++ rest)) =
      some ((), rest) := by
  have hBlank : blank.accepts '/' = false := rfl
  have hRead :=
    @reads_blockBody body (blockEnd ++ rest) hBody
      (.inr ⟨rest, rfl⟩)
  simp only [blockEnd, List.cons_append,
    List.nil_append] at hRead
  simp [spacePiece, blockComment_eq, hBlank,
    Cursor.dropLiteral, hRead, blockEnd]

/- One that is not ended is not skipped. -/
theorem reads_piece_unended
    {body : List Char}
    (hBody : ¬ blockEnd <:+: body) :
    spacePiece.reads rules ('/' :: '*' :: body) = none := by
  have hBlank : blank.accepts '/' = false := rfl
  have hRead := @reads_blockBody body [] hBody (.inl rfl)
  rw [List.append_nil] at hRead
  simp [spacePiece, blockComment_eq, lineComment, hBlank,
    Cursor.dropLiteral, hRead]

/- A slash that starts no comment is not skipped. -/
theorem reads_piece_slash
    {xs : List Char}
    (hStar : xs.head? ≠ some '*')
    (hSlash : xs.head? ≠ some '/') :
    spacePiece.reads rules ('/' :: xs) = none := by
  have hBlank : blank.accepts '/' = false := rfl
  cases xs with
  | nil =>
      simp [spacePiece, blockComment_eq, lineComment, hBlank,
        Cursor.dropLiteral]
  | cons x xs =>
      simp only [List.head?_cons, ne_eq,
        Option.some.injEq] at hStar hSlash
      simp [spacePiece, blockComment_eq, lineComment, hBlank,
        Cursor.dropLiteral, Ne.symm hStar, Ne.symm hSlash]

------------------------------------------------------------
-- What a Text Starts With
------------------------------------------------------------

/- A line comment is skipped up to the end of its line. -/
theorem skip_line
    {body rest : List Char}
    (hBody : '\n' ∉ body)
    (hRest : Avoids inLine.accepts rest) :
    skip ('/' :: '/' :: (body ++ rest)) = skip rest := by
  have hAll :
      ∀ x ∈ body, inLine.accepts x = true := by
    intro x hMem
    have hNe : x ≠ '\n' := fun hEq => hBody (hEq ▸ hMem)
    simpa [inLine] using hNe
  rw [skip_of_piece (reads_piece_line _),
    (takeWhile_of_avoids hAll hRest).2]

/- One without an end is skipped to the end of the text. -/
theorem skip_open
    {comment : List Char}
    (h : '\n' ∉ comment) :
    skip ('/' :: '/' :: comment) = [] := by
  have hLine := @skip_line comment [] h (avoids_nil _)
  rwa [List.append_nil, skip_nil] at hLine

/- A blank or a whole comment is skipped, whatever follows. -/
theorem skip_space
    {s : List Char}
    (h : Space s)
    (rest : List Char) : skip (s ++ rest) = skip rest := by
  cases h with
  | @blank x hx =>
      apply skip_of_piece
      simp [spacePiece, hx]
  | block hBody =>
      exact skip_of_piece (reads_piece_block hBody rest)
  | @line body hBody =>
      have hLine :=
        @skip_line body ('\n' :: rest) hBody
          ((avoids_cons _ _ _).2 rfl)
      have hBlank : blank.accepts '\n' = true := rfl
      have hNext : skip ('\n' :: rest) = skip rest := by
        apply skip_of_piece
        simp [spacePiece, hBlank]
      rw [← hNext, ← hLine]
      simp

/- Where a block comment first ends. -/
theorem exists_first_blockEnd
    {xs : List Char}
    (h : blockEnd <:+: xs) :
    ∃ body rest,
      xs = body ++ blockEnd ++ rest ∧
        ¬ blockEnd <:+: body := by
  induction xs with
  | nil => simp [blockEnd] at h
  | cons x xs ih =>
      by_cases hHere : blockEnd <+: x :: xs
      · rcases hHere with ⟨rest, hEq⟩
        exact ⟨[], rest, hEq.symm, by simp [blockEnd]⟩
      · rcases List.infix_cons_iff.1 h with hFirst | hLater
        · exact absurd hFirst hHere
        · rcases ih hLater with ⟨body, rest, rfl, hBody⟩
          refine ⟨x :: body, rest, rfl, ?_⟩
          intro hInfix
          rcases List.infix_cons_iff.1 hInfix with
            hFirst | hInner
          · exact hHere (hFirst.trans
              ⟨blockEnd ++ rest, by simp⟩)
          · exact hBody hInner

/- A semicolon ends no block comment. -/
theorem not_infix_concat_mark
    {xs : List Char}
    (h : ¬ blockEnd <:+: xs) :
    ¬ blockEnd <:+: xs ++ [';'] := by
  intro hInfix
  rcases List.infix_concat_iff.1 hInfix with hSuffix | hInner
  · rcases hSuffix with ⟨ys, hEq⟩
    have hLast := congrArg List.getLast? hEq
    simp [blockEnd] at hLast
  · exact h hInner

/-
  A slash starts a whole comment or a line comment without an
  end, or it stays, also if a semicolon is put behind the text.
-/
theorem slash_cases
    (xs : List Char) :
    (∃ s rest, Space s ∧ '/' :: xs = s ++ rest) ∨
      (∃ comment, '\n' ∉ comment ∧
        '/' :: xs = '/' :: '/' :: comment) ∨
      (skip ('/' :: xs) = '/' :: xs ∧
        skip ('/' :: (xs ++ [';'])) =
          '/' :: (xs ++ [';'])) := by
  by_cases hStar : xs.head? = some '*'
  · rcases List.head?_eq_some_iff.1 hStar with ⟨ys, rfl⟩
    by_cases hEnd : blockEnd <:+: ys
    · rcases exists_first_blockEnd hEnd with
        ⟨body, rest, rfl, hBody⟩
      exact .inl ⟨_, rest, .block hBody, rfl⟩
    · exact .inr (.inr
        ⟨skip_of_piece_none (reads_piece_unended hEnd),
          skip_of_piece_none (reads_piece_unended
            (not_infix_concat_mark hEnd))⟩)
  by_cases hSlash : xs.head? = some '/'
  · rcases List.head?_eq_some_iff.1 hSlash with ⟨ys, rfl⟩
    by_cases hEnd : '\n' ∈ ys
    · rcases List.eq_append_cons_of_mem hEnd with
        ⟨body, rest, rfl, hBody⟩
      exact .inl ⟨_, rest, .line hBody, by simp⟩
    · exact .inr (.inl ⟨ys, hEnd, rfl⟩)
  · refine .inr (.inr
      ⟨skip_of_piece_none (reads_piece_slash hStar hSlash),
        skip_of_piece_none (reads_piece_slash ?_ ?_)⟩)
    · cases xs with
      | nil => simp
      | cons y ys => simpa using hStar
    · cases xs with
      | nil => simp
      | cons y ys => simpa using hSlash

/-
  A text starts with a blank or a whole comment, is a line
  comment without an end, or nothing of it is skipped, nor if
  a semicolon is put behind it.
-/
theorem space_or_open_or_stays
    (xs : List Char) :
    (∃ s rest, Space s ∧ xs = s ++ rest) ∨
      (∃ comment, '\n' ∉ comment ∧
        xs = '/' :: '/' :: comment) ∨
      (skip xs = xs ∧ skip (xs ++ [';']) = xs ++ [';']) := by
  cases xs with
  | nil => exact .inr (.inr ⟨skip_nil, skip_cons rfl _⟩)
  | cons x xs =>
      by_cases hBlank : blank.accepts x = true
      · exact .inl ⟨[x], xs, .blank hBlank, rfl⟩
      by_cases hSlash : x = '/'
      · subst hSlash
        exact slash_cases xs
      · have hNone : spacing x = false := by
          simp [spacing, hBlank, hSlash]
        exact .inr (.inr ⟨skip_cons hNone _, skip_cons hNone _⟩)

------------------------------------------------------------
-- A Semicolon at the End
------------------------------------------------------------

/-
  What is behind the blanks and comments of a text is followed
  by a semicolon if the text is, unless a line comment takes
  both to the end.
-/
theorem skip_concat_mark
    (xs : List Char) :
    skip (xs ++ [';']) = skip xs ++ [';'] ∨
      (skip xs = [] ∧ skip (xs ++ [';']) = []) := by
  -- Each blank or comment that is skipped shortens the text, and
  -- a comment is more than one character of it.
  induction hLength : xs.length using Nat.strongRecOn
    generalizing xs with
  | ind n ih =>
      rcases space_or_open_or_stays xs with
        ⟨s, rest, hSpace, rfl⟩ | ⟨comment, hLine, rfl⟩ |
          ⟨hStays, hMarked⟩
      · have hPos := hSpace.length_pos
        rw [List.append_assoc, skip_space hSpace,
          skip_space hSpace]
        exact ih rest.length
          (by rw [← hLength, List.length_append]; omega) rest
          rfl
      · have hMore : '\n' ∉ comment ++ [';'] := by
          simpa using hLine
        exact .inr ⟨skip_open hLine, skip_open hMore⟩
      · exact .inl (by rw [hMarked, hStays])

/- Blanks and whole comments are skipped. -/
theorem skip_spacing
    {before : List Char}
    (h : Spacing before)
    (rest : List Char) :
    skip (before ++ rest) = skip rest := by
  induction h with
  | nil => rfl
  | cons hs _ ih =>
      rw [List.append_assoc, skip_space hs, ih]

/- If anything is left, whole blanks and comments were skipped. -/
theorem exists_spacing
    {xs : List Char}
    (h : skip xs ≠ []) :
    ∃ before, Spacing before ∧ xs = before ++ skip xs := by
  induction hLength : xs.length using Nat.strongRecOn
    generalizing xs with
  | ind n ih =>
      rcases space_or_open_or_stays xs with
        ⟨s, rest, hSpace, rfl⟩ | ⟨comment, hLine, rfl⟩ |
          ⟨hStays, -⟩
      · have hPos := hSpace.length_pos
        rw [skip_space hSpace] at h ⊢
        rcases ih rest.length
          (by rw [← hLength, List.length_append]; omega) h rfl
          with ⟨before, hBefore, hRest⟩
        refine ⟨s ++ before, .cons hSpace hBefore, ?_⟩
        rw [List.append_assoc, ← hRest]
      · exact absurd (skip_open hLine) h
      · exact ⟨[], .nil, hStays.symm⟩

/-
  A semicolon behind a text is skipped with it just if the
  text is blanks and comments, and the last is a line comment
  without an end.
-/
theorem skip_concat_mark_eq_nil_iff
    (xs : List Char) :
    skip (xs ++ [';']) = [] ↔ OpenComment xs := by
  constructor
  · induction hLength : xs.length using
      Nat.strongRecOn generalizing xs with
    | ind n ih =>
        intro hNil
        rcases space_or_open_or_stays xs with
          ⟨s, rest, hSpace, rfl⟩ | ⟨comment, hLine, rfl⟩ |
            ⟨-, hMarked⟩
        · have hPos := hSpace.length_pos
          rw [List.append_assoc, skip_space hSpace] at hNil
          rcases ih rest.length
            (by rw [← hLength, List.length_append]; omega) rest
            rfl hNil with
            ⟨before, comment, rfl, hBefore, hLine⟩
          exact ⟨s ++ before, comment, by simp,
            .cons hSpace hBefore, hLine⟩
        · exact ⟨[], comment, rfl, .nil, hLine⟩
        · rw [hMarked] at hNil
          simp at hNil
  · rintro ⟨before, comment, rfl, hBefore, hLine⟩
    have hMore : '\n' ∉ comment ++ [';'] := by
      simpa using hLine
    rw [List.append_assoc, skip_spacing hBefore]
    exact skip_open hMore

end Grammar

end FlowType

end TypeGraft
