import TypeGraft.Proofs.FlowType.Printed

/-
  How printed names and literals are read as primary types.

  Main declarations:
    * `FlowType.Grammar.reads_typeName`
    * `FlowType.Grammar.reads_primary_word`
    * `FlowType.Grammar.reads_primary_name`
    * `FlowType.Grammar.reads_primary_keyword`
-/

namespace TypeGraft

namespace FlowType

namespace Grammar

open Peg

------------------------------------------------------------
-- Names
------------------------------------------------------------

/-
  What a primary type may be that starts with no bracket and
  no quote.
-/
theorem reads_primary_of_unmarked
    {x : Char}
    (hMarks : ∀ y ∈ ['<', '(', '\x7b', '[', '"', '\''], y ≠ x)
    (hSpacing : spacing x = false)
    (xs : List Char) :
    rules .primary (x :: xs) =
      (typeofType <|> bigintLiteral <|> numberLiteral <|>
        ((fun _ => FlowType.booleanLiteral true) <$>
          keyword "true") <|>
        ((fun _ => FlowType.booleanLiteral false) <$>
          keyword "false") <|>
        ((fun _ => FlowType.keyword .exists) <$> symbol "*") <|>
        generic).reads rules (x :: xs) := by
  simp only [List.mem_cons, List.not_mem_nil, or_false,
    forall_eq_or_imp, forall_eq] at hMarks
  have hFunction : functionType.reads rules (x :: xs) = none :=
    reads_eq_none rfl
      (by simp [functionType, typeParams, parenthesized,
        hSpacing, hMarks])
  have hGroup : group.reads rules (x :: xs) = none := by
    simp [group, Cursor.dropLiteral, hMarks]
  have hObject : objectType.reads rules (x :: xs) = none := by
    simp [objectType, Cursor.dropLiteral, hMarks]
  have hTuple : tuple.reads rules (x :: xs) = none := by
    simp [tuple, Cursor.dropLiteral, hMarks]
  have hString : stringLiteral.reads rules (x :: xs) = none := by
    simp [stringLiteral, Cursor.dropLiteral, hMarks]
  rw [rules_primary, primary]
  simp [hFunction, hGroup, hObject, hTuple, hString]

/- A character of a class is none of those outside of it. -/
theorem ne_of_class
    {q : Char → Bool}
    {cs : List Char}
    {x : Char}
    (hClass : ∀ y ∈ cs, q y = false)
    (hx : q x = true) : ∀ y ∈ cs, y ≠ x := by
  rintro y hy rfl
  rw [hClass y hy] at hx
  exact absurd hx Bool.false_ne_true

/- What a primary type that starts with a letter may be. -/
theorem reads_primary_of_isIdentStart
    {x : Char}
    (hx : isIdentStart x = true)
    (xs : List Char) :
    rules .primary (x :: xs) =
      (typeofType <|>
        ((fun _ => FlowType.booleanLiteral true) <$>
          keyword "true") <|>
        ((fun _ => FlowType.booleanLiteral false) <$>
          keyword "false") <|>
        generic).reads rules (x :: xs) := by
  have hMarks : ∀ y ∈ ['-', '*'], y ≠ x :=
    ne_of_class (by decide) hx
  simp only [List.mem_cons, List.not_mem_nil, or_false,
    forall_eq_or_imp, forall_eq] at hMarks
  have hDigit : Decimal.isDigit x = false := by
    cases hDigit : Decimal.isDigit x with
    | false => rfl
    | true =>
        rw [not_isIdentStart_of_isDigit hDigit] at hx
        exact absurd hx Bool.false_ne_true
  have hBigint : bigintLiteral.reads rules (x :: xs) = none := by
    simp [bigintLiteral, minus, digits, digit,
      Cursor.dropLiteral, hMarks, hDigit]
  have hNumber : numberLiteral.reads rules (x :: xs) = none := by
    simp [numberLiteral, minus, digits, digit,
      Cursor.dropLiteral, hMarks, hDigit]
  have hStar : Cursor.dropLiteral ['*'] (x :: xs) = none := by
    simp [Cursor.dropLiteral, hMarks]
  rw [reads_primary_of_unmarked (ne_of_class (by decide) hx)
    (eq_false_of_apart mem_of_spacing (by decide) hx)]
  simp [hBigint, hNumber, hStar]

/- A name is read whole. -/
theorem reads_typeName
    {head : String}
    {parts : List String}
    {rest : List Char}
    (hHead : IsWord head)
    (hParts : ∀ part ∈ parts, IsWord part)
    (hApart : Avoids isIdentChar rest)
    (hPoint : Avoids (fun x => x = '.') (skip rest)) :
    typeName.reads rules
        ((TypeName.ofParts head parts).render rest) =
      some (.ofParts head parts, rest) := by
  have hEnd :
      ∀ text, EndOrMore ['.'] rest text →
        Avoids isIdentChar text := by
    rintro text (rfl | ⟨more, rfl⟩)
    · exact hApart
    · exact (avoids_cons _ _ _).mpr rfl
  have hFirst :=
    reads_word_append rules hHead
      (hEnd _
        (endOrMore_writeEach ['.']
          (fun part rest => part.toList ++ rest) parts rest))
  have hMany :
      (many ((ws *> symbol "." *> ws) *> identifier) :
          Rule (List String)).reads rules
        (writeEach ['.'] (fun part rest => part.toList ++ rest)
          false parts rest) =
      some (parts, rest) := by
    apply reads_many_writeEach rfl
    · intro part hPart text hText
      have hRead :=
        reads_word_append rules (hParts part hPart) (hEnd text hText)
      have hSkip :
          skip (part.toList ++ text) = part.toList ++ text :=
        skip_of_avoids
          ((hParts part hPart).avoids mem_of_spacing (by decide)
            text)
      simp (disch := decide) [Cursor.dropLiteral, hSkip, hRead]
    · simp [dropLiteral_of_avoids hPoint]
  rw [render_ofParts]
  simp [typeName, reads_sepBy1, hFirst, hMany]

theorem reads_word_of_avoids
    {text : List Char}
    (hText : Avoids isIdentStart text) :
    word.reads rules text = none := by
  cases text with
  | nil => simp
  | cons x xs =>
      rw [avoids_cons] at hText
      simp [reads_word_cons, hText]

/- What a primary type that starts with a word may be. -/
theorem reads_primary_word
    {w : String}
    {rest : List Char}
    (hWord : IsWord w)
    (hApart : Avoids isIdentChar rest)
    (hNext : Avoids isIdentStart (skip rest)) :
    rules .primary (w.toList ++ rest) =
      if w = "true" then some (.booleanLiteral true, rest)
      else if w = "false" then some (.booleanLiteral false, rest)
      else generic.reads rules (w.toList ++ rest) := by
  have hRead := reads_word_append rules hWord hApart
  have hName := reads_word_of_avoids hNext
  have hStart :
      rules .primary (w.toList ++ rest) =
        (typeofType <|>
          ((fun _ => FlowType.booleanLiteral true) <$>
            keyword "true") <|>
          ((fun _ => FlowType.booleanLiteral false) <$>
            keyword "false") <|>
          generic).reads rules (w.toList ++ rest) := by
    rcases hWord with ⟨c, cs, hText, hStart, -⟩
    rw [hText]
    exact reads_primary_of_isIdentStart hStart (cs ++ rest)
  -- The text matters only through the word that is read.
  generalize w.toList ++ rest = text at hRead hStart ⊢
  have hTypeof : typeofType.reads rules text = none := by
    by_cases hw : w = "typeof"
    · simp [typeofType, typeName, reads_sepBy1, hRead, hw, hName]
    · simp [typeofType, hRead, hw]
  rw [hStart]
  by_cases hTrue : w = "true"
  · simp [hTypeof, hRead, hTrue]
  · by_cases hFalse : w = "false"
    · simp [hTypeof, hRead, hFalse]
    · simp [hTypeof, hRead, hTrue, hFalse]

theorem reference_ofParts
    {head : String}
    {parts : List String}
    (hKeyword : parts = [] → keywordOf? head = none) :
    reference (.ofParts head parts) none =
      .generic (.ofParts head parts) none := by
  have hNone :
      (TypeName.ofParts head parts).asSimple?.bind keywordOf? =
        none := by
    rcases List.eq_nil_or_concat parts with
      rfl | ⟨qualifiers, part, rfl⟩
    · exact hKeyword rfl
    · simp [TypeName.ofParts, TypeName.asSimple?]
  simp [reference, hNone]

/- A name that no arguments follow. -/
theorem reads_generic_named
    {head : String}
    {parts : List String}
    {after : List Char}
    (hHead : IsWord head)
    (hParts : ∀ part ∈ parts, IsWord part)
    (hApart : Avoids isIdentChar after)
    (hPoint : Avoids (fun x => x = '.') (skip after))
    (hAngle : Avoids (fun x => x = '<') (skip after)) :
    generic.reads rules
        ((TypeName.ofParts head parts).render after) =
      some (reference (.ofParts head parts) none, after) := by
  have hName := reads_typeName hHead hParts hApart hPoint
  have hNone : Cursor.dropLiteral ['<'] (skip after) = none :=
    dropLiteral_of_avoids hAngle
  simp [generic, hName, typeArgs, hNone]

/- A name without arguments. -/
theorem reads_generic_bare
    {head : String}
    {parts : List String}
    {after : List Char}
    (hHead : IsWord head)
    (hParts : ∀ part ∈ parts, IsWord part)
    (hStop : Stop .atom after) :
    generic.reads rules
        ((TypeName.ofParts head parts).render after) =
      some (reference (.ofParts head parts) none, after) :=
  reads_generic_named hHead hParts hStop.apart.of_goesOn
    (hStop.skip_avoids rfl) (hStop.skip_avoids rfl)

/- A name with arguments. -/
theorem reads_generic_applied
    {head : String}
    {parts : List String}
    {args after : List Char}
    {ts : List FlowType}
    (hHead : IsWord head)
    (hParts : ∀ part ∈ parts, IsWord part)
    (hArgs :
      typeArgs.reads rules ('<' :: args) = some (ts, after)) :
    generic.reads rules
        ((TypeName.ofParts head parts).render ('<' :: args)) =
      some (.generic (.ofParts head parts) (some ts), after) := by
  have hName :
      typeName.reads rules
          ((TypeName.ofParts head parts).render ('<' :: args)) =
        some (.ofParts head parts, '<' :: args) := by
    apply reads_typeName hHead hParts
    · exact (avoids_cons _ _ _).mpr rfl
    · simp (disch := decide)
  simp (disch := decide) [generic, hName, hArgs, reference]

theorem Stop.avoids_isIdentStart
    {l : Level}
    {after : List Char}
    (hStop : Stop l after) : Avoids isIdentStart (skip after) :=
  hStop.next.mono (fun x hx => by simp [continues, hx])

theorem reads_primary_name
    {head : String}
    {parts : List String}
    {rest : List Char}
    (hHead : IsWord head)
    (hLiteral : head ≠ "true" ∧ head ≠ "false")
    (hApart : Avoids isIdentChar rest)
    (hNext : Avoids isIdentStart (skip rest)) :
    rules .primary ((TypeName.ofParts head parts).render rest) =
      generic.reads rules
        ((TypeName.ofParts head parts).render rest) := by
  rw [render_ofParts]
  have hTail :
      Avoids isIdentChar
          (writeEach ['.'] (fun part rest => part.toList ++ rest)
            false parts rest) ∧
        Avoids isIdentStart
          (skip
            (writeEach ['.']
              (fun part rest => part.toList ++ rest) false parts
              rest)) := by
    cases parts with
    | nil => exact ⟨hApart, hNext⟩
    | cons part parts =>
        refine ⟨(avoids_cons _ _ _).mpr rfl, ?_⟩
        simp only [writeEach, between, Bool.false_eq_true,
          if_false, List.cons_append, List.nil_append]
        rw [skip_cons rfl]
        exact (avoids_cons _ _ _).mpr rfl
  rw [reads_primary_word hHead hTail.1 hTail.2,
    if_neg hLiteral.1, if_neg hLiteral.2]

------------------------------------------------------------
-- Literals and Keywords
------------------------------------------------------------

theorem reads_primary_keyword
    (word : Keyword)
    {after : List Char}
    (hStop : Stop .atom after) :
    rules .primary (word.word.toList ++ after) =
      some (.keyword word, after) := by
  by_cases hStar : word = .exists
  · subst hStar
    change rules .primary ('*' :: after) = _
    rw [reads_primary_of_unmarked (by decide) rfl]
    have hOther :
        (typeofType <|> bigintLiteral <|> numberLiteral).reads
            rules ('*' :: after) = none :=
      reads_eq_none rfl rfl
    simp only [reads_orElse, Option.or_eq_none_iff] at hOther
    simp [hOther, reads_word_cons, isIdentStart,
      Cursor.dropLiteral]
  · have hWord := isWord_keyword word hStar
    have hRead :=
      @reads_generic_bare word.word [] after hWord
        (List.forall_mem_nil _) hStop
    have hReference :
        reference (.ofParts word.word []) none = .keyword word := by
      cases word <;> first | rfl | exact absurd rfl hStar
    have hLiteral : word.word ≠ "true" ∧ word.word ≠ "false" := by
      cases word <;> decide
    rw [render_ofParts, writeEach, hReference] at hRead
    rw [reads_primary_word hWord hStop.apart.of_goesOn
      hStop.avoids_isIdentStart, if_neg hLiteral.1,
      if_neg hLiteral.2, hRead]

theorem reads_primary_typeof
    {head : String}
    {parts : List String}
    {after : List Char}
    (hHead : IsWord head)
    (hParts : ∀ part ∈ parts, IsWord part)
    (hStop : Stop .atom after) :
    rules .primary
        ("typeof".toList ++
          ' ' :: (TypeName.ofParts head parts).render after) =
      some
        (.typeOf (.generic (.ofParts head parts) none), after) := by
  have hName :=
    reads_typeName hHead hParts hStop.apart.of_goesOn
      (hStop.skip_avoids rfl)
  have hSkip :=
    skip_blank (leads_name hHead parts hStop.quiet).spaced
  have hWord :
      word.reads rules
          ("typeof".toList ++
            ' ' :: (TypeName.ofParts head parts).render after) =
        some
          ("typeof",
            ' ' :: (TypeName.ofParts head parts).render after) :=
    reads_word_append rules ⟨_, _, rfl, by decide, by decide⟩
      ((avoids_cons _ _ _).mpr rfl)
  obtain ⟨xs, hText⟩ :
      ∃ xs, "typeof".toList ++
        ' ' :: (TypeName.ofParts head parts).render after =
          't' :: xs :=
    ⟨_, rfl⟩
  rw [hText] at hWord ⊢
  rw [reads_primary_of_isIdentStart (by decide)]
  simp [typeofType, hWord, hSkip, hName]

theorem reads_primary_string
    (value : String)
    (after : List Char) :
    rules .primary (quoted value ++ after) =
      some (.stringLiteral value, after) := by
  have hString := reads_stringLiteral_quoted value after
  have hOther :
      (functionType <|> group <|> objectType <|> tuple <|>
        typeofType).reads rules (quoted value ++ after) = none :=
    reads_eq_none rfl rfl
  simp only [reads_orElse, Option.or_eq_none_iff] at hOther
  rw [rules_primary, primary]
  simp [hOther, hString]

/- A number is read by the rules for numbers. -/
theorem reads_primary_of_number
    {m ds rest : List Char}
    {v : FlowType × List Char}
    (hMinus : IsMinus m)
    (hDigits : IsDigits ds)
    (h :
      (bigintLiteral <|> numberLiteral).reads rules
          (m ++ ds ++ rest) = some v) :
    rules .primary (m ++ ds ++ rest) = some v := by
  have hHead : ∃ x xs, m ++ ds ++ rest = x :: xs ∧
      (Decimal.isDigit x || x = '-') = true := by
    rcases hMinus with rfl | rfl
    · rcases hDigits with ⟨hNil, hAll⟩
      cases ds with
      | nil => exact absurd rfl hNil
      | cons d ds => exact ⟨d, _, rfl, by simp [hAll]⟩
    · exact ⟨'-', _, rfl, rfl⟩
  rcases hHead with ⟨x, xs, hText, hClass⟩
  rw [hText] at h ⊢
  have hWord : isIdentStart x = false := by
    rcases Bool.or_eq_true_iff.mp hClass with hDigit | hMark
    · exact not_isIdentStart_of_isDigit hDigit
    · rw [of_decide_eq_true hMark]
      rfl
  have hTypeof : typeofType.reads rules (x :: xs) = none := by
    simp [typeofType, reads_word_cons, hWord]
  have hMarks :
      ∀ y ∈ ['<', '(', '\x7b', '[', '"', '\''], y ≠ x :=
    ne_of_class (q := fun x => Decimal.isDigit x || x = '-')
      (by decide) hClass
  have hSpacing : spacing x = false :=
    eq_false_of_apart
      (q := fun x => Decimal.isDigit x || x = '-')
      mem_of_spacing (by decide) hClass
  rw [reads_primary_of_unmarked hMarks hSpacing]
  rw [reads_orElse, Option.or_eq_some_iff] at h
  simp only [reads_orElse _ _ typeofType, hTypeof,
    Option.none_or, reads_orElse _ _ bigintLiteral]
  rcases h with hBigint | ⟨hNone, hNumber⟩
  · simp [hBigint]
  · simp [hNone, hNumber]

theorem reads_primary_number
    {cs after : List Char}
    (hNumeral : IsNumeral cs)
    (hStop : Stop .atom after) :
    rules .primary (cs ++ after) =
      some
        (.numberLiteral (Binary64.ofText cs)
          (String.ofList cs), after) := by
  have hBigint :=
    reads_bigintLiteral_of_isNumeral rules hNumeral hStop.apart
  have hNumber :=
    reads_numberLiteral_append rules hNumeral hStop.apart
  rcases hNumeral with
    ⟨m, ds, f, p, hMinus, hDigits, -, -, rfl⟩
  simp only [List.append_assoc] at hBigint hNumber ⊢
  rw [← List.append_assoc] at hBigint hNumber ⊢
  apply reads_primary_of_number hMinus hDigits
  rw [reads_orElse, hBigint, hNumber]
  rfl

theorem reads_primary_bigint
    {cs after : List Char}
    (hBigint : IsBigint cs)
    (hStop : Stop .atom after) :
    rules .primary (cs ++ after) =
      some (.bigintLiteral (String.ofList cs), after) := by
  have hRead :=
    reads_bigintLiteral_append rules hBigint
      hStop.apart.of_goesOn
  rcases hBigint with ⟨m, ds, hMinus, hDigits, rfl⟩
  rw [List.append_assoc (m ++ ds)] at hRead ⊢
  apply reads_primary_of_number hMinus hDigits
  rw [reads_orElse, hRead]
  rfl

end Grammar

end FlowType

end TypeGraft
