import TypeGraft.Proofs.FlowType.Spacing
import TypeGraft.Proofs.Peg.Related

/-
  Reading with and without a semicolon at the end.

  No rule of the grammar can tell a text from the same text
  with a semicolon behind it, except that the semicolon may be
  read as part of a last line comment or as the mark behind a
  last member.  In both cases nothing but blanks and comments
  is left of the text.

  Key definitions include:
    * `FlowType.Grammar.Trails`
    * `FlowType.Grammar.isSolid`
    * `FlowType.Grammar.Steady`

  Main declarations:
    * `FlowType.Grammar.trails_skip`
    * `FlowType.Grammar.respects_stringLiteral`
    * `FlowType.Grammar.respects_entries`
    * `FlowType.Grammar.respects_primary`
    * `FlowType.Grammar.steady_rules`
-/

namespace TypeGraft

namespace FlowType

namespace Grammar

open Peg

------------------------------------------------------------
-- The Added Semicolon
------------------------------------------------------------

/-
  The second text is the first with a semicolon behind it; or
  it has been read to its end, and of the first text only
  blanks and comments are left.
-/
def Trails
    (xs zs : List Char) : Prop :=
  zs = xs ++ [';'] ∨ (zs = [] ∧ skip xs = [])

/- What is skipped starts with a blank or a slash. -/
theorem spacing_of_skip_eq_nil
    {x : Char}
    {xs : List Char}
    (h : skip (x :: xs) = []) : spacing x = true := by
  cases hSpace : spacing x with
  | true => rfl
  | false =>
      rw [skip_cons hSpace] at h
      cases h

/- The same is skipped in both texts. -/
theorem trails_skip
    {xs zs : List Char}
    (h : Trails xs zs) : Trails (skip xs) (skip zs) := by
  rcases h with rfl | ⟨rfl, hSkip⟩
  · rcases skip_concat_mark xs with hMark | ⟨hSkip, hAll⟩
    · exact .inl hMark
    · exact .inr ⟨hAll, by rw [skip_skip, hSkip]⟩
  · exact .inr ⟨skip_nil, by rw [skip_skip, hSkip]⟩

/- A literal that has no semicolon does not read the added one. -/
theorem dropLiteral_concat
    {c : Char}
    {text : List Char}
    (hText : c ∉ text)
    (xs : List Char) :
    Cursor.dropLiteral text (xs ++ [c]) =
      (Cursor.dropLiteral text xs).map (fun ys => ys ++ [c]) := by
  induction text generalizing xs with
  | nil => rfl
  | cons l text ih =>
      rw [List.mem_cons, not_or] at hText
      cases xs with
      | nil =>
          simp [Cursor.dropLiteral, Ne.symm hText.1]
      | cons x xs =>
          simp only [Cursor.dropLiteral, List.cons_append,
            ih hText.2]
          split <;> rfl

/-
  A literal that starts with no blank or slash and has no
  semicolon.
-/
def isSolid
    (s : String) : Bool :=
  s.toList.head?.any (fun x => !spacing x) &&
    !s.toList.contains ';'

section Lexical

variable
  {call : RuleName → List Char → Option (FlowType × List Char)}

theorem respects_symbol
    {s : String}
    (h : isSolid s = true) :
    Respects Trails call (symbol s : Rule Unit) := by
  rw [isSolid, Bool.and_eq_true] at h
  rcases h with ⟨hHead, hMark⟩
  have hNone : ';' ∉ s.toList := by simpa using hMark
  rintro xs zs (rfl | ⟨rfl, hSkip⟩)
  · rw [reads_symbol, reads_symbol, dropLiteral_concat hNone]
    cases Cursor.dropLiteral s.toList xs with
    | none => exact .none
    | some ys => exact .some (.inl rfl) ()
  · rw [reads_symbol, reads_symbol]
    cases hText : s.toList with
    | nil => simp [hText] at hHead
    | cons l ls =>
        have hSolid : spacing l = false := by
          simpa [hText] using hHead
        have hAvoids : Avoids (fun x => x = l) xs := by
          cases xs with
          | nil => exact avoids_nil _
          | cons x xs =>
              have hSpace := spacing_of_skip_eq_nil hSkip
              have hNe : x ≠ l := by
                rintro rfl
                rw [hSolid] at hSpace
                cases hSpace
              exact (avoids_cons _ _ _).2 (decide_eq_false hNe)
        rw [dropLiteral_of_avoids hAvoids]
        exact .none

/- A class without the semicolon, blanks and the slash. -/
theorem respects_char
    {cls : CharClass}
    (h :
      ∀ x ∈ [';', ' ', '\t', '\n', '\r', '/'],
        cls.accepts x = false) :
    Respects Trails call (char cls : Rule Char) := by
  have hMark : cls.accepts ';' = false := h ';' (by simp)
  have hSpace :
      ∀ x, spacing x = true → cls.accepts x = false :=
    fun x hx =>
      h x (List.mem_cons_of_mem _ (mem_of_spacing x hx))
  rintro xs zs (rfl | ⟨rfl, hSkip⟩)
  · cases xs with
    | nil =>
        rw [List.nil_append, reads_char_nil, reads_char_cons,
          hMark]
        exact .none
    | cons x xs =>
        rw [List.cons_append, reads_char_cons, reads_char_cons]
        split
        · exact .some (.inl rfl) x
        · exact .none
  · cases xs with
    | nil => exact .none
    | cons x xs =>
        rw [reads_char_cons,
          hSpace x (spacing_of_skip_eq_nil hSkip)]
        exact .none

/- What calls read does not matter to blanks and comments. -/
theorem reads_ws_call
    (xs : List Char) :
    ws.reads call xs = some ((), skip xs) := by
  rw [reads_eq_of_callFree call rules ws rfl, reads_ws]

theorem respects_ws : Respects Trails call ws := by
  intro xs zs h
  rw [reads_ws_call, reads_ws_call]
  exact .some (trails_skip h) ()

end Lexical

------------------------------------------------------------
-- Strings
------------------------------------------------------------

/- A class of what stands in quotes of a kind. -/
structure Quotes
    (mark : Char)
    (plain : CharClass) : Prop where
  accepts_iff :
    ∀ x, plain.accepts x = true ↔ x ≠ mark ∧ x ≠ '\\'
  solid : mark ≠ ';' ∧ mark ≠ '\\' ∧ spacing mark = false

theorem quotes_double : Quotes '"' inDoubleQuotes :=
  ⟨by simp [inDoubleQuotes], by decide⟩

theorem quotes_single : Quotes '\'' inSingleQuotes :=
  ⟨by simp [inSingleQuotes], by decide⟩

section Strings

variable {mark : Char}
variable {plain : CharClass}

/- An escape is one piece. -/
theorem reads_quotedPiece_escaped
    (x : Char)
    (xs : List Char) :
    (quotedPiece plain).reads rules ('\\' :: x :: xs) =
      some (['\\', x], xs) := by
  simp [quotedPiece, Cursor.dropLiteral, anyChar]

/- So is any other character, but for the closing quote. -/
theorem reads_quotedPiece_plain
    (h : Quotes mark plain)
    {x : Char}
    (hEscape : x ≠ '\\')
    (xs : List Char) :
    (quotedPiece plain).reads rules (x :: xs) =
      if x = mark then none else some ([x], xs) := by
  have hAccepts := h.accepts_iff x
  by_cases hMark : x = mark
  · subst hMark
    have hNot : plain.accepts x = false := by
      simpa using hAccepts
    simp [quotedPiece, Cursor.dropLiteral, Ne.symm hEscape,
      hNot]
  · have hPlain : plain.accepts x = true :=
      hAccepts.2 ⟨hMark, hEscape⟩
    simp [quotedPiece, Cursor.dropLiteral, Ne.symm hEscape,
      hPlain, hMark]

/- A backslash at the end of the text is none. -/
theorem reads_quotedPiece_backslash
    (h : Quotes mark plain) :
    (quotedPiece plain).reads rules ['\\'] = none := by
  have hNot : plain.accepts '\\' = false := by
    simpa using h.accepts_iff '\\'
  simp [quotedPiece, Cursor.dropLiteral, hNot]

/-
  With and without a semicolon behind the text, the same is
  read up to the same closing quote, or there is none.
-/
def ClosesAlike
    (mark : Char)
    (plain : CharClass)
    (xs : List Char) : Prop :=
  (∃ v ys,
    (many (quotedPiece plain)).reads rules xs =
        some (v, mark :: ys) ∧
      (many (quotedPiece plain)).reads rules (xs ++ [';']) =
        some (v, mark :: (ys ++ [';']))) ∨
    ∃ v ys w us,
      (many (quotedPiece plain)).reads rules xs =
          some (v, ys) ∧
        (many (quotedPiece plain)).reads rules (xs ++ [';']) =
          some (w, us) ∧
        Avoids (fun x => x = mark) ys ∧
        Avoids (fun x => x = mark) us

/- One more piece in front of both texts. -/
theorem ClosesAlike.step
    {piece xs ys : List Char}
    (hFirst :
      (quotedPiece plain).reads rules xs = some (piece, ys))
    (hSecond :
      (quotedPiece plain).reads rules (xs ++ [';']) =
        some (piece, ys ++ [';']))
    (h : ClosesAlike mark plain ys) :
    ClosesAlike mark plain xs := by
  unfold ClosesAlike
  rw [reads_many_rules rfl xs, hFirst,
    reads_many_rules rfl (xs ++ [';']), hSecond]
  rcases h with ⟨v, rest, hShort, hLong⟩ |
    ⟨v, rest, w, more, hShort, hLong, hNone⟩
  · left
    exact ⟨piece :: v, rest, by simp only [hShort]; rfl,
      by simp only [hLong]; rfl⟩
  · right
    exact ⟨piece :: v, rest, piece :: w, more,
      by simp only [hShort]; rfl, by simp only [hLong]; rfl,
      hNone⟩

/-
  By induction on the length, as an escape takes two
  characters.  At the end of the text the semicolon is read
  as one more character of the string, or as escaped.
-/
theorem closesAlike
    (h : Quotes mark plain)
    (xs : List Char) : ClosesAlike mark plain xs := by
  have hMore :
      (many (quotedPiece plain)).reads rules [] =
        some ([], []) := rfl
  induction hLength : xs.length using Nat.strongRecOn
    generalizing xs with
  | ind n ih =>
      cases xs with
      | nil =>
          right
          refine ⟨[], [], [[';']], [], rfl, ?_, avoids_nil _,
            avoids_nil _⟩
          rw [List.nil_append, reads_many_rules rfl,
            reads_quotedPiece_plain h (by decide),
            if_neg (Ne.symm h.solid.1)]
          simp only [hMore, Option.map_some]
      | cons x xs =>
          by_cases hEscape : x = '\\'
          · subst hEscape
            cases xs with
            | nil =>
                right
                refine ⟨[], ['\\'], [['\\', ';']], [],
                  reads_many_stop rfl
                    (reads_quotedPiece_backslash h), ?_, ?_,
                  avoids_nil _⟩
                · rw [List.cons_append, List.nil_append,
                    reads_many_rules rfl,
                    reads_quotedPiece_escaped]
                  simp only [hMore, Option.map_some]
                · exact (avoids_cons _ _ _).2
                    (decide_eq_false (Ne.symm h.solid.2.1))
            | cons y ys =>
                refine ClosesAlike.step
                  (reads_quotedPiece_escaped y ys)
                  (reads_quotedPiece_escaped y (ys ++ [';']))
                  (ih ys.length ?_ ys rfl)
                rw [← hLength, List.length_cons,
                  List.length_cons]
                omega
          · by_cases hMark : x = mark
            · subst hMark
              left
              have hStop :=
                fun ys =>
                  (reads_quotedPiece_plain h hEscape ys).trans
                    (if_pos rfl)
              exact ⟨[], xs, reads_many_stop rfl (hStop xs),
                reads_many_stop rfl (hStop (xs ++ [';']))⟩
            · refine ClosesAlike.step
                ((reads_quotedPiece_plain h hEscape xs).trans
                  (if_neg hMark))
                ((reads_quotedPiece_plain h hEscape
                  (xs ++ [';'])).trans (if_neg hMark))
                (ih xs.length ?_ xs rfl)
              rw [← hLength, List.length_cons]
              omega

/- How a string literal in quotes of one kind is read. -/
theorem reads_quoted
    {s : String}
    (hMark : s.toList = [mark])
    (xs : List Char) :
    (symbol s *> quotedBody plain <* symbol s :
      Rule (List Char)).reads rules xs =
      (Cursor.dropLiteral [mark] xs).bind (fun ys =>
        ((many (quotedPiece plain)).reads rules ys).bind
          (fun v =>
            (Cursor.dropLiteral [mark] v.2).map
              (fun us => (v.1.flatten, us)))) := by
  simp only [quotedBody_eq, reads_keepLeft, reads_keepRight,
    reads_symbol, reads_map, hMark]
  cases Cursor.dropLiteral [mark] xs with
  | none => rfl
  | some ys =>
      simp only [Option.map_some, Option.bind_some]
      cases (many (quotedPiece plain)).reads rules ys with
      | none => rfl
      | some v =>
          simp only [Option.map_some, Option.bind_some,
            Option.map_map]
          rfl

theorem respects_quoted
    {call :
      RuleName → List Char → Option (FlowType × List Char)}
    {s : String}
    (h : Quotes mark plain)
    (hMark : s.toList = [mark]) :
    Respects Trails call
      (symbol s *> quotedBody plain <* symbol s :
        Rule (List Char)) := by
  intro xs zs hTrails
  rw [reads_eq_of_callFree call rules _ rfl,
    reads_eq_of_callFree call rules _ rfl,
    reads_quoted hMark, reads_quoted hMark]
  rcases hTrails with rfl | ⟨rfl, hSkip⟩
  · rw [dropLiteral_concat (by simp [Ne.symm h.solid.1])]
    cases Cursor.dropLiteral [mark] xs with
    | none => exact .none
    | some ys =>
        simp only [Option.map_some, Option.bind_some]
        rcases closesAlike h ys with
          ⟨v, rest, hFirst, hSecond⟩ |
            ⟨v, rest, w, more, hFirst, hSecond, hNone, hNone'⟩
        · simp only [hFirst, hSecond, Option.bind_some,
            Cursor.dropLiteral, if_true, Option.map_some]
          exact .some (.inl rfl) v.flatten
        · simp only [hFirst, hSecond, Option.bind_some,
            dropLiteral_of_avoids hNone,
            dropLiteral_of_avoids hNone', Option.map_none]
          exact .none
  · cases xs with
    | nil => exact .none
    | cons x xs =>
        have hSpace := spacing_of_skip_eq_nil hSkip
        have hNe : mark ≠ x := by
          rintro rfl
          rw [h.solid.2.2] at hSpace
          cases hSpace
        simp only [Cursor.dropLiteral, if_neg hNe,
          Option.bind_none]
        exact .none

theorem respects_stringLiteral
    {call :
      RuleName → List Char → Option (FlowType × List Char)} :
    Respects Trails call stringLiteral :=
  ((respects_quoted quotes_double rfl).map _).orElse
    ((respects_quoted quotes_single rfl).map _)

end Strings

------------------------------------------------------------
-- Rules
------------------------------------------------------------

/- Calls leave shorter texts, and read both texts alike. -/
structure Steady
    (call :
      RuleName → List Char → Option (FlowType × List Char)) :
    Prop where
  shortens : Shortens call
  calls : ∀ n, Respects Trails call (.call n)

section Rules

variable
  {call : RuleName → List Char → Option (FlowType × List Char)}

variable (h : Steady call)

include h

theorem respects_word : Respects Trails call word :=
  (respects_char (by decide)).map _
    |>.apply ((respects_char (by decide)).many h.shortens rfl)

theorem respects_keyword
    (w : String) : Respects Trails call (keyword w) :=
  (respects_word h).check _

theorem respects_identifier :
    Respects Trails call identifier :=
  (respects_word h).quiet.orElse (.fail _)

theorem respects_digits : Respects Trails call digits :=
  (respects_char (by decide)).many1 h.shortens rfl

omit h in
theorem respects_minus : Respects Trails call minus :=
  (respects_symbol rfl).optional.map _

theorem respects_fraction : Respects Trails call fraction :=
  ((respects_symbol rfl).keepRight
    (respects_digits h)).map _ |>.optional.map _

theorem respects_power : Respects Trails call power :=
  (respects_char (by decide)).map _
    |>.apply (respects_char (by decide)).optional
    |>.apply (respects_digits h)
    |>.optional.map _

omit h in
/- No part of a name stands behind a number. -/
theorem respects_apart :
    Respects Trails call
      (absent (char identChar) : Rule Unit) :=
  (respects_char (by decide)).absent

theorem respects_numberLiteral :
    Respects Trails call numberLiteral :=
  respects_minus.map _
    |>.apply (respects_digits h)
    |>.apply (respects_fraction h)
    |>.apply (respects_power h)
    |>.keepLeft respects_apart
    |>.map _

theorem respects_bigintLiteral :
    Respects Trails call bigintLiteral :=
  respects_minus.map _
    |>.apply
      ((respects_digits h).keepLeft (respects_symbol rfl))
    |>.keepLeft respects_apart
    |>.map _

------------------------------------------------------------
-- Names and Arguments
------------------------------------------------------------

theorem respects_type : Respects Trails call type :=
  h.calls .type

omit h in
theorem respects_comma : Respects Trails call comma :=
  respects_ws.keepRight (respects_symbol rfl)
    |>.keepRight respects_ws

omit h in
theorem respects_lastComma : Respects Trails call lastComma :=
  respects_ws.keepRight (respects_symbol rfl).optional
    |>.keepRight respects_ws

theorem respects_typeName : Respects Trails call typeName := by
  have hPoint :
      Respects Trails call (ws *> symbol "." *> ws : Rule Unit) :=
    respects_ws.keepRight (respects_symbol rfl)
      |>.keepRight respects_ws
  exact (respects_identifier h).sepBy1 h.shortens rfl
    (hPoint.keepRight (respects_identifier h)) |>.check _

/- Types with commas between them. -/
theorem respects_types :
    Respects Trails call (sepBy type comma) :=
  (respects_type h).sepBy h.shortens rfl
    (respects_comma.keepRight (respects_type h))

theorem respects_typeArgs : Respects Trails call typeArgs :=
  (respects_symbol rfl).keepRight respects_ws
    |>.keepRight (respects_types h)
    |>.keepLeft respects_lastComma
    |>.keepLeft (respects_symbol rfl)

theorem respects_generic : Respects Trails call generic :=
  (respects_typeName h).map _
    |>.apply (respects_ws.keepRight (respects_typeArgs h)).optional

theorem respects_tuple : Respects Trails call tuple :=
  (respects_symbol rfl).keepRight respects_ws
    |>.keepRight (respects_types h)
    |>.keepLeft respects_lastComma
    |>.keepLeft (respects_symbol rfl)
    |>.map _

------------------------------------------------------------
-- Functions and Type Parameters
------------------------------------------------------------

omit h in
theorem respects_variance : Respects Trails call variance :=
  (respects_symbol rfl).map _
    |>.orElse ((respects_symbol rfl).map _)

theorem respects_typeAfter
    {mark : String}
    (hMark : isSolid mark = true) :
    Respects Trails call (typeAfter mark) :=
  respects_ws.keepRight (respects_symbol hMark)
    |>.keepRight respects_ws
    |>.keepRight (respects_type h)

theorem respects_typeParam : Respects Trails call typeParam :=
  respects_variance.optional.map _
    |>.apply (respects_identifier h)
    |>.apply (respects_typeAfter h rfl).optional
    |>.apply (respects_typeAfter h rfl).optional

theorem respects_typeParams :
    Respects Trails call typeParams :=
  (respects_symbol rfl).keepRight respects_ws
    |>.keepRight
      ((respects_typeParam h).sepBy1 h.shortens rfl
        (respects_comma.keepRight (respects_typeParam h)))
    |>.keepLeft respects_lastComma
    |>.keepLeft (respects_symbol rfl)

omit h in
/- A mark with blanks before and behind it. -/
theorem respects_beforeMark
    {α : Type}
    {p : Rule α}
    {mark : String}
    (hp : Respects Trails call p)
    (hMark : isSolid mark = true) :
    Respects Trails call (p <* ws <* symbol mark <* ws) :=
  hp.keepLeft respects_ws
    |>.keepLeft (respects_symbol hMark)
    |>.keepLeft respects_ws

theorem respects_parameter : Respects Trails call parameter :=
  ((respects_identifier h).keepLeft respects_ws).map _
    |>.apply
      (respects_beforeMark (respects_symbol rfl).optional rfl)
    |>.apply (respects_type h)
    |>.orElse ((respects_type h).map _)

theorem respects_restParameter :
    Respects Trails call restParameter :=
  (respects_symbol rfl).keepRight respects_ws
    |>.keepRight (respects_parameter h)

theorem respects_parameters :
    Respects Trails call parameters := by
  have hFirst :
      Respects Trails call (sepBy parameter comma) :=
    (respects_parameter h).sepBy h.shortens rfl
      (respects_comma.keepRight (respects_parameter h))
  have hRest :
      Respects Trails call
        (optional (lastComma *> restParameter) <* ws <*
          optional (symbol ",")) :=
    (respects_lastComma.keepRight
      (respects_restParameter h)).optional
      |>.keepLeft respects_ws
      |>.keepLeft (respects_symbol rfl).optional
  exact (hFirst.map _).apply hRest

theorem respects_parenthesized :
    Respects Trails call parenthesized :=
  (respects_symbol rfl).keepRight respects_ws
    |>.keepRight (respects_parameters h)
    |>.keepLeft respects_ws
    |>.keepLeft (respects_symbol rfl)

/- Type parameters that may be left out, and blanks. -/
theorem respects_optionalTypeParams :
    Respects Trails call (optional typeParams <* ws) :=
  (respects_typeParams h).optional.keepLeft respects_ws

theorem respects_functionType :
    Respects Trails call functionType :=
  (respects_optionalTypeParams h).map _
    |>.apply
      (respects_beforeMark (respects_parenthesized h) rfl)
    |>.apply (respects_type h)

------------------------------------------------------------
-- Objects
------------------------------------------------------------

theorem respects_static : Respects Trails call static :=
  (respects_keyword h _).keepLeft respects_ws
    |>.keepLeft (respects_char (by decide)).absent
    |>.optional.map _

theorem respects_propertyKey :
    Respects Trails call propertyKey :=
  (respects_identifier h).map _
    |>.orElse (respects_stringLiteral.map _)

theorem respects_spreadEntry :
    Respects Trails call spreadEntry :=
  (respects_symbol rfl).keepRight respects_ws
    |>.keepRight (respects_type h)
    |>.map _

theorem respects_indexerEntry :
    Respects Trails call indexerEntry := by
  have hOpen :
      Respects Trails call
        (static *> optional variance <* symbol "[" <* ws) :=
    (respects_static h).keepRight respects_variance.optional
      |>.keepLeft (respects_symbol rfl)
      |>.keepLeft respects_ws
  have hKey :
      Respects Trails call
        (type <* ws <* symbol "]" <* ws <* symbol ":" <* ws) :=
    respects_beforeMark
      ((respects_type h).keepLeft respects_ws
        |>.keepLeft (respects_symbol rfl)) rfl
  exact hOpen.map _
    |>.apply
      (respects_beforeMark (respects_identifier h) rfl).optional
    |>.apply hKey
    |>.apply (respects_type h)

theorem respects_callEntry :
    Respects Trails call callEntry :=
  (respects_static h).map _
    |>.apply (respects_optionalTypeParams h)
    |>.apply
      (respects_beforeMark (respects_parenthesized h) rfl)
    |>.apply (respects_type h)

theorem respects_methodEntry :
    Respects Trails call methodEntry :=
  (respects_static h).map _
    |>.apply respects_variance.optional
    |>.apply ((respects_propertyKey h).keepLeft respects_ws)
    |>.apply (respects_optionalTypeParams h)
    |>.apply
      (respects_beforeMark (respects_parenthesized h) rfl)
    |>.apply (respects_type h)

theorem respects_fieldEntry :
    Respects Trails call fieldEntry :=
  (respects_static h).map _
    |>.apply respects_variance.optional
    |>.apply ((respects_propertyKey h).keepLeft respects_ws)
    |>.apply
      (respects_beforeMark (respects_symbol rfl).optional rfl)
    |>.apply (respects_type h)

theorem respects_entry : Respects Trails call entry :=
  (respects_spreadEntry h).orElse <|
    ((respects_symbol rfl).map _).orElse <|
    (respects_indexerEntry h).orElse <|
    (respects_callEntry h).orElse <|
    (respects_methodEntry h).orElse (respects_fieldEntry h)

omit h in
/-
  A mark between members is read alike, unless it is the added
  semicolon itself.
-/
theorem mark_cases
    {xs zs : List Char}
    (hTrails : Trails xs zs) :
    Agree Trails
        ((ws *> char memberMark : Rule Char).reads call xs)
        ((ws *> char memberMark : Rule Char).reads call zs) ∨
      ((ws *> char memberMark : Rule Char).reads call xs =
          none ∧
        skip xs = [] ∧
        (ws *> char memberMark : Rule Char).reads call zs =
          some (';', [])) := by
  simp only [reads_keepRight, reads_ws_call, Option.bind_some]
  rcases trails_skip hTrails with hMark | ⟨hEnd, hSkip⟩
  · rw [hMark]
    cases skip xs with
    | nil => exact .inr ⟨rfl, rfl, rfl⟩
    | cons x rest =>
        left
        simp only [List.cons_append, reads_char_cons]
        split
        · exact .some (.inl rfl) x
        · exact .none
  · left
    rw [skip_skip] at hSkip
    rw [hEnd, hSkip]
    exact .none

/- An entry behind such a mark. -/
theorem respects_nextEntry :
    Respects Trails call
      ((ws *> char memberMark *> ws) *> entry) := by
  intro xs zs hTrails
  rw [reads_keepRight, reads_keepRight (q := ws),
    reads_keepRight (q := entry), reads_keepRight (q := ws)]
  rcases @mark_cases call _ _ hTrails with
    hAgree | ⟨hNone, -, hMark⟩
  · refine Agree.bind (hAgree.bind ?_) ?_
    · exact fun _ ys us hRest => respects_ws ys us hRest
    · exact fun _ ys us hRest => respects_entry h ys us hRest
  · -- No entry is behind the added semicolon, so that it is
    -- given back.
    have hEnd : entry.reads call [] = none :=
      Shortens.reads_nil h.shortens rfl
    rw [hNone, hMark, Option.bind_none, Option.bind_none,
      Option.bind_some, reads_ws_call, skip_nil,
      Option.bind_some, hEnd]
    exact .none

theorem respects_entries : Respects Trails call entries := by
  have hItems :
      Respects Trails call
        (sepBy entry (ws *> char memberMark *> ws)) :=
    (respects_entry h).sepBy h.shortens rfl
      (respects_nextEntry h)
  intro xs zs hTrails
  rw [entries, reads_keepLeft, reads_keepLeft]
  refine (hItems xs zs hTrails).bind ?_
  intro as ys us hRest
  rw [reads_optional, reads_optional]
  rcases @mark_cases call _ _ hRest with
    hAgree | ⟨hNone, hSkip, hMark⟩
  · generalize (ws *> char memberMark : Rule Char).reads call
      ys = o at hAgree ⊢
    generalize (ws *> char memberMark : Rule Char).reads call
      us = o' at hAgree ⊢
    cases hAgree with
    | none => exact .some hRest as
    | some hSame => exact .some hSame.2 as
  · -- The mark is the added semicolon.  The text keeps the
    -- blanks before it, and the declaration is at its end.
    rw [hNone, hMark]
    exact .some (.inr ⟨rfl, hSkip⟩) as

/- Entries in braces of one kind. -/
theorem respects_braced
    {start stop : String}
    (hStart : isSolid start = true)
    (hStop : isSolid stop = true) :
    Respects Trails call
      (symbol start *> ws *> entries <* ws <* symbol stop) :=
  (respects_symbol hStart).keepRight respects_ws
    |>.keepRight (respects_entries h)
    |>.keepLeft respects_ws
    |>.keepLeft (respects_symbol hStop)

theorem respects_objectType :
    Respects Trails call objectType :=
  (respects_braced h rfl rfl).map _
    |>.orElse ((respects_braced h rfl rfl).map _)

------------------------------------------------------------
-- Types
------------------------------------------------------------

theorem respects_group : Respects Trails call group :=
  (respects_symbol rfl).keepRight respects_ws
    |>.keepRight (respects_type h)
    |>.keepLeft respects_ws
    |>.keepLeft (respects_symbol rfl)

theorem respects_typeofType :
    Respects Trails call typeofType :=
  (respects_keyword h _).keepRight respects_ws
    |>.keepRight (respects_typeName h)
    |>.map _

theorem respects_primary : Respects Trails call primary :=
  (respects_functionType h).orElse <|
    (respects_group h).orElse <|
    (respects_objectType h).orElse <|
    (respects_tuple h).orElse <|
    (respects_typeofType h).orElse <|
    (respects_stringLiteral.map _).orElse <|
    (respects_bigintLiteral h).orElse <|
    (respects_numberLiteral h).orElse <|
    ((respects_keyword h _).map _).orElse <|
    ((respects_keyword h _).map _).orElse <|
    ((respects_symbol rfl).map _).orElse (respects_generic h)

theorem respects_arrayed : Respects Trails call arrayed := by
  have hBrackets :
      Respects Trails call
        (ws *> symbol "[" *> ws *> symbol "]" : Rule Unit) :=
    respects_ws.keepRight (respects_symbol rfl)
      |>.keepRight respects_ws
      |>.keepRight (respects_symbol rfl)
  exact (h.calls .primary).map _
    |>.apply (hBrackets.many h.shortens rfl)

theorem respects_prefixed : Respects Trails call prefixed :=
  (respects_symbol rfl).keepRight respects_ws
    |>.keepRight (h.calls .prefixed)
    |>.map _
    |>.orElse (respects_arrayed h)

theorem respects_joinedBy
    {mark : String}
    {join : List FlowType → FlowType}
    {item : Rule FlowType}
    (hMark : isSolid mark = true)
    (hItem : Respects Trails call item) :
    Respects Trails call (joinedBy mark join item) := by
  have hFirst :
      Respects Trails call
        (optional (symbol mark *> ws) *> item) :=
    ((respects_symbol hMark).keepRight respects_ws).optional
      |>.keepRight hItem
  have hNext :
      Respects Trails call
        (ws *> symbol mark *> ws *> item) :=
    respects_ws.keepRight (respects_symbol hMark)
      |>.keepRight respects_ws
      |>.keepRight hItem
  have hReads :
      (ws *> symbol mark *> ws *> item).nullable = false := by
    cases hText : mark.toList with
    | nil => simp [isSolid, hText] at hMark
    | cons l ls => simp [hText]
  exact (hFirst.map _).apply (hNext.many h.shortens hReads)

theorem respects_union : Respects Trails call union :=
  respects_joinedBy h rfl
    (respects_joinedBy h rfl (h.calls .prefixed))

end Rules

/- The rules read both texts alike. -/
theorem steady_rules : Steady rules where
  shortens _ hReads _ _ _ hRead :=
    (FlowType.grammar.reads_suffix hRead).2 hReads
  calls := by
    apply FlowType.grammar.respects_reads
    intro call hShort hCalls n
    have h : Steady call := ⟨hShort, hCalls⟩
    cases n with
    | type => exact respects_union h
    | prefixed => exact respects_prefixed h
    | primary => exact respects_primary h

end Grammar

end FlowType

end TypeGraft
