import TypeGraft.Proofs.FlowType.Signature

/-
  How printed object types are read.  The members of an
  object are printed as one list of entries: properties,
  indexers, call properties and the mark of an inexact
  object.

  Main declarations:
    * `FlowType.Grammar.writeEntry`
    * `FlowType.Grammar.entriesOf`
    * `FlowType.Grammar.BackEntry`
    * `FlowType.Grammar.BackEntry.reads`
    * `FlowType.Grammar.reads_objectType`
-/

namespace TypeGraft

namespace FlowType

namespace Grammar

open Peg

------------------------------------------------------------
-- Entries as They Are Printed
------------------------------------------------------------

/- The signature of a method or a call property. -/
def writeSignature
    (typeParams : Option (List (TypeParameter FlowType)))
    (params : List (Parameter FlowType))
    (rest : Option (Parameter FlowType))
    (result : FlowType)
    (after : List Char) : List Char :=
  renderTypeParams typeParams
    (writeParameters params rest
      (": ".toList ++ render .whole result after))

/- A member with its key before its type or signature. -/
def writeMember
    (isStatic : Bool)
    (v : Option Variance)
    (key : PropertyKey)
    (rest : List Char) : List Char :=
  staticText isStatic ++
    (FlowType.sign v ++ (keyText key ++ rest))

/- The type of a property behind its key. -/
def writeValue
    (isOptional : Bool)
    (value : FlowType)
    (after : List Char) : List Char :=
  optionalText isOptional ++
    ':' :: ' ' :: render .whole value after

/- An entry as it is printed. -/
def writeEntry : Entry → List Char → List Char
  | .property
      (.entry key (.function typeParams params rest result) _
        true static variance), after =>
      writeMember static variance key
        (writeSignature typeParams params rest result after)
  | .property (.entry key value isOptional _ static variance),
      after =>
      writeMember static variance key
        (writeValue isOptional value after)
  | .property (.spread argument), after =>
      '.' :: '.' :: '.' :: render .whole argument after
  | .indexer i, after =>
      FlowType.sign i.variance ++
        '[' :: (parameterHead i.id false ++
          render .whole i.key
            (']' :: ':' :: ' ' :: render .whole i.value after))
  | .call ⟨.function typeParams params rest result, static⟩,
      after =>
      staticText static ++
        writeSignature typeParams params rest result after
  | .call ⟨value, static⟩, after =>
      staticText static ++ render .whole value after
  | .inexact, after => '.' :: '.' :: '.' :: after

theorem renderProperties_eq_writeEach
    (isFirst : Bool)
    (ps : List (Property FlowType))
    (after : List Char) :
    renderProperties isFirst ps after =
      writeEach [',', ' ']
        (fun p => writeEntry (.property p)) isFirst ps after := by
  induction ps generalizing isFirst with
  | nil => rw [renderProperties, writeEach]
  | cons p ps ih =>
      rw [writeEach, ← ih]
      unfold writeEntry
      split
      · rename_i hEntry
        cases hEntry
        rw [renderProperties]
        simp [FlowType.comma, writeMember, writeSignature,
          writeParameters]
      · rename_i hOther hEntry
        cases hEntry
        rw [renderProperties]
        · simp [FlowType.comma, writeMember, writeValue]
        · rintro typeParams params rest result rfl rfl
          exact hOther typeParams params rest result rfl rfl
      · rename_i hEntry
        cases hEntry
        rw [renderProperties]
        simp [FlowType.comma]
      all_goals
        rename_i hEntry
        cases hEntry

theorem renderIndexers_eq_writeEach
    (isFirst : Bool)
    (is : List (Indexer FlowType))
    (after : List Char) :
    renderIndexers isFirst is after =
      writeEach [',', ' ']
        (fun i => writeEntry (.indexer i)) isFirst is after := by
  induction is generalizing isFirst with
  | nil => rw [renderIndexers, writeEach]
  | cons i is ih =>
      rw [writeEach, ← ih, renderIndexers, writeEntry]
      simp [FlowType.comma]

theorem renderCalls_eq_writeEach
    (isFirst : Bool)
    (cs : List (CallProperty FlowType))
    (after : List Char) :
    renderCalls isFirst cs after =
      writeEach [',', ' ']
        (fun c => writeEntry (.call c)) isFirst cs after := by
  induction cs generalizing isFirst with
  | nil => rw [renderCalls, writeEach]
  | cons c cs ih =>
      rw [writeEach, ← ih]
      rcases c with ⟨value, static⟩
      cases value <;>
        simp [renderCalls, writeEntry, FlowType.comma,
          writeSignature, writeParameters]

theorem writeEach_append
    {α : Type}
    (separator : List Char)
    (write : α → List Char → List Char)
    (isFirst : Bool)
    (as bs : List α)
    (after : List Char) :
    writeEach separator write isFirst (as ++ bs) after =
      writeEach separator write isFirst as
        (writeEach separator write (isFirst && as.isEmpty) bs
          after) := by
  induction as generalizing isFirst with
  | nil => simp [writeEach]
  | cons a as ih => simp [writeEach, ih]

theorem writeEach_map
    {α β : Type}
    (separator : List Char)
    (write : β → List Char → List Char)
    (f : α → β)
    (isFirst : Bool)
    (as : List α)
    (after : List Char) :
    writeEach separator write isFirst (as.map f) after =
      writeEach separator (fun a => write (f a)) isFirst as
        after := by
  induction as generalizing isFirst with
  | nil => rfl
  | cons a as ih => simp [writeEach, ih]

/- The entries that an object is printed as. -/
def entriesOf
    (properties : List (Property FlowType))
    (indexers : List (Indexer FlowType))
    (calls : List (CallProperty FlowType))
    (inexact : Bool) : List Entry :=
  properties.map .property ++
    (indexers.map .indexer ++
      (calls.map .call ++ if inexact then [.inexact] else []))

/- The entries of an object are the object. -/
theorem makeObject_entriesOf
    (properties : List (Property FlowType))
    (indexers : List (Indexer FlowType))
    (calls : List (CallProperty FlowType))
    (exact inexact : Bool) :
    makeObject exact
        (entriesOf properties indexers calls inexact) =
      .object properties indexers calls exact inexact := by
  have hNone :
      ∀ {α β : Type} (as : List α),
        as.filterMap (fun _ => (none : Option β)) = [] :=
    fun as => List.filterMap_eq_nil_iff.mpr (fun _ _ => rfl)
  cases inexact <;>
    simp [makeObject, entriesOf, propertiesOf, indexersOf,
      callsOf, isInexact, List.filterMap_map,
      Function.comp_def, hNone]

/- The text between the braces of an object. -/
theorem renderMembers_eq_writeEach
    (properties : List (Property FlowType))
    (indexers : List (Indexer FlowType))
    (calls : List (CallProperty FlowType))
    (inexact : Bool)
    (close : List Char) :
    renderProperties true properties
        (renderIndexers properties.isEmpty indexers
          (renderCalls
            (properties.isEmpty && indexers.isEmpty) calls
            ((if inexact then
                FlowType.comma
                    (properties.isEmpty && indexers.isEmpty &&
                      calls.isEmpty) ++
                  ['.', '.', '.']
              else []) ++ close))) =
      writeEach [',', ' '] writeEntry true
        (entriesOf properties indexers calls inexact) close := by
  rw [renderProperties_eq_writeEach,
    renderIndexers_eq_writeEach, renderCalls_eq_writeEach,
    entriesOf, writeEach_append, writeEach_append,
    writeEach_append, writeEach_map, writeEach_map,
    writeEach_map]
  cases inexact <;>
    simp [writeEach, writeEntry, FlowType.comma]

------------------------------------------------------------
-- Heads of Members
------------------------------------------------------------

/- The text does not start with the word `static` as a word. -/
def NotStatic
    (text : List Char) : Prop :=
  ∀ us, word.reads rules text = some ("static", us) →
    ∃ x vs, skip us = x :: vs ∧ keyMark.accepts x = true

theorem notStatic_cons
    {x : Char}
    (hx : isIdentStart x = false)
    (xs : List Char) : NotStatic (x :: xs) := by
  intro us hRead
  simp [reads_word_cons, hx] at hRead

/- The word `static` is read where it is printed. -/
theorem reads_static
    (isStatic : Bool)
    {text : List Char}
    (hSpacing : Avoids spacing text)
    (hMark : Avoids keyMark.accepts text)
    (hNot : isStatic = false → NotStatic text) :
    static.reads rules (staticText isStatic ++ text) =
      some (isStatic, text) := by
  cases isStatic with
  | true =>
      have hWord :
          word.reads rules ("static".toList ++ ' ' :: text) =
            some ("static", ' ' :: text) :=
        reads_word_append rules ⟨_, _, rfl, by decide, by decide⟩
          ((avoids_cons _ _ _).mpr rfl)
      have hEnd := reads_char_of_avoids rules hMark
      have hText :
          staticText true ++ text =
            "static".toList ++ ' ' :: text := rfl
      rw [hText]
      generalize "static".toList ++ ' ' :: text = source at hWord ⊢
      simp [static, hWord, skip_blank hSpacing, hEnd]
  | false =>
      have hText : staticText false ++ text = text := rfl
      rw [hText]
      have hNone :
          (keyword "static" <* ws <* absent (char keyMark) :
            Rule Unit).reads rules text = none := by
        cases hWord : word.reads rules text with
        | none => simp [hWord]
        | some v =>
            rcases v with ⟨w, us⟩
            by_cases hw : w = "static"
            · subst hw
              rcases hNot rfl us hWord with
                ⟨x, vs, hSkip, hx⟩
              simp [hWord, hSkip, hx]
            · simp [hWord, hw]
      rw [static, reads_map, reads_optional, hNone]
      rfl

/- A key starts with a letter or a quote. -/
theorem avoids_key
    {key : PropertyKey}
    {q : Char → Bool}
    (cs : List Char)
    (hKey : IsKey key)
    (hMembers : ∀ y, q y = true → y ∈ cs)
    (hApart :
      ∀ y ∈ cs, isIdentStart y = false ∧ y ≠ '"')
    (rest : List Char) : Avoids q (keyText key ++ rest) := by
  cases key with
  | identifier name =>
      exact IsWord.avoids hKey hMembers
        (fun y hy => (hApart y hy).1) rest
  | string value =>
      refine (avoids_cons _ _ _).mpr ?_
      cases hq : q '"' with
      | false => rfl
      | true => exact absurd rfl (hApart _ (hMembers _ hq)).2

/- A member starts with a sign, a letter or a quote. -/
theorem avoids_member
    {key : PropertyKey}
    {q : Char → Bool}
    (cs : List Char)
    (hKey : IsKey key)
    (hMembers : ∀ y, q y = true → y ∈ cs)
    (hApart :
      ∀ y ∈ cs, (isIdentStart y = false ∧ y ≠ '"') ∧
        y ≠ '+' ∧ y ≠ '-')
    (v : Option Variance)
    (rest : List Char) :
    Avoids q (FlowType.sign v ++ (keyText key ++ rest)) := by
  have hNot : ∀ c, (∀ y ∈ cs, y ≠ c) → q c = false := by
    intro c hc
    cases hq : q c with
    | false => rfl
    | true => exact absurd rfl (hc c (hMembers c hq))
  cases v with
  | none =>
      exact avoids_key cs hKey hMembers
        (fun y hy => (hApart y hy).1) rest
  | some v =>
      cases v with
      | plus =>
          exact (avoids_cons _ _ _).mpr
            (hNot '+' (fun y hy => (hApart y hy).2.1))
      | minus =>
          exact (avoids_cons _ _ _).mpr
            (hNot '-' (fun y hy => (hApart y hy).2.2))

theorem reads_propertyKey
    {key : PropertyKey}
    {rest : List Char}
    (hKey : IsKey key)
    (hApart : Avoids isIdentChar rest)
    (hSpacing : Avoids spacing rest) :
    (propertyKey <* ws).reads rules (keyText key ++ rest) =
      some (key, rest) := by
  cases key with
  | identifier name =>
      have hWord : word.reads rules (name.toList ++ rest) = _ :=
        reads_word_append rules hKey hApart
      simp [propertyKey, keyText, hWord, skip_of_avoids hSpacing]
  | string value =>
      have hString := reads_propertyKey_quoted value rest
      simp [hString, skip_of_avoids hSpacing]

/- The head of a member is read back. -/
structure ReadsMember
    (isStatic : Bool)
    (v : Option Variance)
    (key : PropertyKey)
    (rest : List Char) : Prop where
  static :
    static.reads rules (writeMember isStatic v key rest) =
      some (isStatic, FlowType.sign v ++ (keyText key ++ rest))
  sign :
    (Peg.optional variance).reads rules
        (FlowType.sign v ++ (keyText key ++ rest)) =
      some (v, keyText key ++ rest)
  key :
    (propertyKey <* ws).reads rules (keyText key ++ rest) =
      some (key, rest)

theorem readsMember_of_isKey
    {key : PropertyKey}
    {rest : List Char}
    (isStatic : Bool)
    (v : Option Variance)
    (hKey : IsKey key)
    (hApart : Avoids isIdentChar rest)
    (hSpacing : Avoids spacing rest)
    (hNot :
      isStatic = false →
        NotStatic (FlowType.sign v ++ (keyText key ++ rest))) :
    ReadsMember isStatic v key rest where
  static :=
    reads_static isStatic
      (avoids_member _ hKey mem_of_spacing (by decide) v rest)
      (avoids_member _ hKey mem_of_keyMark (by decide) v rest) hNot
  sign :=
    reads_optional_variance v
      (avoids_key _ hKey mem_of_signMark (by decide) rest)
  key := reads_propertyKey hKey hApart hSpacing

/-
  A member is no spread, indexer or call property: its head
  is followed by neither brackets nor parentheses.
-/
theorem reads_entry_member
    {isStatic : Bool}
    {v : Option Variance}
    {key : PropertyKey}
    {rest : List Char}
    (hKey : IsKey key)
    (hMember : ReadsMember isStatic v key rest) :
    entry.reads rules (writeMember isStatic v key rest) =
      (methodEntry <|> fieldEntry).reads rules
        (writeMember isStatic v key rest) := by
  have hStatic := hMember.static
  have hSign := hMember.sign
  have hPoint :
      Cursor.dropLiteral ['.', '.', '.']
        (writeMember isStatic v key rest) = none := by
    cases isStatic with
    | true => rfl
    | false =>
        exact dropLiteral_of_avoids
          (avoids_member ['.'] hKey (by simp) (by decide)
            v rest)
  have hBracket :
      Cursor.dropLiteral ['['] (keyText key ++ rest) = none :=
    dropLiteral_of_avoids
      (avoids_key ['['] hKey (by simp) (by decide) rest)
  have hAngle :
      Cursor.dropLiteral ['<']
        (FlowType.sign v ++ (keyText key ++ rest)) = none :=
    dropLiteral_of_avoids
      (avoids_member ['<'] hKey (by simp) (by decide) v
        rest)
  have hParen :
      Cursor.dropLiteral ['(']
        (FlowType.sign v ++ (keyText key ++ rest)) = none :=
    dropLiteral_of_avoids
      (avoids_member ['('] hKey (by simp) (by decide) v
        rest)
  have hSkip :=
    skip_of_avoids
      (avoids_member _ hKey mem_of_spacing (by decide) v rest)
  generalize writeMember isStatic v key rest = text
    at hStatic hPoint ⊢
  generalize FlowType.sign v ++ (keyText key ++ rest) = signed
    at hStatic hSign hAngle hParen hSkip
  have hIndexer : indexerEntry.reads rules text = none := by
    rw [indexerEntry]
    simp only [reads_apply, reads_map, reads_keepLeft,
      reads_keepRight, hStatic, Option.bind_some, hSign]
    simp [hBracket]
  have hCall : callEntry.reads rules text = none := by
    rw [callEntry]
    simp [hStatic, typeParams, parenthesized, hAngle, hSkip,
      hParen]
  simp [entry, spreadEntry, inexactEntry, hPoint, hIndexer,
    hCall]

------------------------------------------------------------
-- Entries Are Read Back
------------------------------------------------------------

theorem notStatic_member
    {v : Option Variance}
    {key : PropertyKey}
    {rest : List Char}
    (hKey : IsKey key)
    (hApart : Avoids isIdentChar rest)
    (hStatic :
      key = .identifier "static" → v = none →
        ∃ x vs, skip rest = x :: vs ∧
          keyMark.accepts x = true) :
    NotStatic (FlowType.sign v ++ (keyText key ++ rest)) := by
  cases v with
  | some v => cases v <;> exact notStatic_cons rfl _
  | none =>
      cases key with
      | string value => exact notStatic_cons rfl _
      | identifier name =>
          intro us hRead
          have hWord :
              word.reads rules (name.toList ++ rest) =
                some (name, rest) :=
            reads_word_append rules hKey hApart
          have hEq := hWord.symm.trans hRead
          cases hEq
          exact hStatic rfl rfl

/- A property with its type is read back. -/
theorem reads_entry_field
    {key : PropertyKey}
    {value : FlowType}
    {after : List Char}
    (isOptional isStatic : Bool)
    (v : Option Variance)
    (hKey : IsKey key)
    (hBack : Back value)
    (hStop : Stop .whole after) :
    entry.reads rules
        (writeMember isStatic v key
          (writeValue isOptional value after)) =
      some
        (.property
          (.entry key value isOptional false isStatic v),
          after) := by
  obtain ⟨x, vs, hText, hMark⟩ :
      ∃ x vs, writeValue isOptional value after = x :: vs ∧
        keyMark.accepts x = true := by
    cases isOptional <;> exact ⟨_, _, rfl, rfl⟩
  have hMarks :
      ∀ y ∈ [':', '?'],
        isIdentChar y = false ∧ spacing y = false := by
    decide
  have hFacts := hMarks x (mem_of_keyMark x hMark)
  have hApart := (avoids_cons isIdentChar x vs).mpr hFacts.1
  have hSpacing := (avoids_cons spacing x vs).mpr hFacts.2
  have hMember : ReadsMember isStatic v key (x :: vs) :=
    readsMember_of_isKey isStatic v hKey hApart hSpacing
      (fun _ =>
        notStatic_member hKey hApart
          (fun _ _ => ⟨x, vs, skip_of_avoids hSpacing, hMark⟩))
  have hMethod :
      methodEntry.reads rules
        (writeMember isStatic v key (x :: vs)) = none := by
    rw [methodEntry]
    simp only [reads_apply, reads_map, hMember.static,
      hMember.sign, hMember.key, Option.map_some,
      Option.bind_some]
    cases hParams :
        (Peg.optional typeParams <* ws).reads rules (x :: vs) with
    | none => rfl
    | some w =>
        have hNone := reads_parenthesized_of_keyMark hMark hParams
        simp [hNone]
  have hColon :
      (Peg.optional (symbol "?") <* ws <* symbol ":" <* ws :
          Rule (Option Unit)).reads rules (x :: vs) =
        some
          (if isOptional then some () else none,
            render .whole value after) := by
    have hBlank := skip_blank (hBack.spaced hStop)
    rw [← hText]
    cases isOptional <;>
      simp (disch := decide) [writeValue, optionalText,
        Cursor.dropLiteral, hBlank]
  have hValue := hBack.reads after hStop
  rw [hText, reads_entry_member hKey hMember, reads_orElse,
    hMethod, Option.none_or, fieldEntry]
  simp only [reads_apply, reads_map, hMember.static,
    hMember.sign, hMember.key, hColon, type, reads_call, hValue,
    Option.map_some, Option.bind_some]
  cases isOptional <;> rfl

/- A signature starts with a bracket. -/
theorem writeSignature_head
    (typeParams : Option (List (TypeParameter FlowType)))
    (params : List (Parameter FlowType))
    (rest : Option (Parameter FlowType))
    (result : FlowType)
    (after : List Char) :
    ∃ x vs,
      writeSignature typeParams params rest result after =
        x :: vs ∧ x ∈ ['<', '('] := by
  unfold writeSignature
  cases typeParams with
  | none =>
      rw [renderTypeParams]
      exact ⟨'(', _, rfl, by simp⟩
  | some ts =>
      rw [renderTypeParams]
      exact ⟨'<', _, rfl, by simp⟩

/- A signature is read back, and its result is left. -/
theorem BackSignature.reads_signature
    {typeParams : Option (List (TypeParameter FlowType))}
    {params : List (Parameter FlowType)}
    {rest : Option (Parameter FlowType)}
    {result : FlowType}
    {after : List Char}
    (hBack : BackSignature typeParams params rest result)
    (hStop : Stop .whole after) :
    ∃ us,
      (Peg.optional Grammar.typeParams <* ws).reads rules
          (writeSignature typeParams params rest result after) =
        some (typeParams, us) ∧
      (parenthesized <* ws <* symbol ":" <* ws).reads rules us =
        some ((params, rest), render .whole result after) :=
  ⟨_, reads_optional_typeParams hBack.typeParams _,
    hBack.reads_marked hStop (fun _ => skip_cons rfl _)⟩

/- A method is read back. -/
theorem reads_entry_method
    {key : PropertyKey}
    {typeParams : Option (List (TypeParameter FlowType))}
    {params : List (Parameter FlowType)}
    {rest : Option (Parameter FlowType)}
    {result : FlowType}
    {isStatic : Bool}
    {v : Option Variance}
    {after : List Char}
    (hKey : IsKey key)
    (hName :
      ¬ (key = .identifier "static" ∧ isStatic = false ∧
        v = none))
    (hBack : BackSignature typeParams params rest result)
    (hStop : Stop .whole after) :
    entry.reads rules
        (writeMember isStatic v key
          (writeSignature typeParams params rest result
            after)) =
      some
        (.property
          (.entry key
            (.function typeParams params rest result) false true
            isStatic v),
          after) := by
  rcases writeSignature_head typeParams params rest result
    after with ⟨x, vs, hText, hx⟩
  rcases hBack.reads_signature hStop with
    ⟨us, hTypeParams, hParams⟩
  have hMarks :
      ∀ y ∈ ['<', '('],
        isIdentChar y = false ∧ spacing y = false := by
    decide
  have hApart := (avoids_cons isIdentChar x vs).mpr (hMarks x hx).1
  have hSpacing := (avoids_cons spacing x vs).mpr (hMarks x hx).2
  have hMember : ReadsMember isStatic v key (x :: vs) := by
    refine readsMember_of_isKey isStatic v hKey hApart hSpacing ?_
    intro hStatic
    apply notStatic_member hKey hApart
    intro hWord hNone
    exact absurd ⟨hWord, hStatic, hNone⟩ hName
  have hResult := hBack.result.reads after hStop
  rw [hText] at hTypeParams ⊢
  rw [reads_entry_member hKey hMember, reads_orElse,
    methodEntry]
  simp only [reads_apply, reads_map, hMember.static,
    hMember.sign, hMember.key, hTypeParams, hParams, type,
    reads_call, hResult, Option.map_some, Option.bind_some]
  rfl

/- A call property is read back. -/
theorem reads_entry_call
    {typeParams : Option (List (TypeParameter FlowType))}
    {params : List (Parameter FlowType)}
    {rest : Option (Parameter FlowType)}
    {result : FlowType}
    {after : List Char}
    (isStatic : Bool)
    (hBack : BackSignature typeParams params rest result)
    (hStop : Stop .whole after) :
    entry.reads rules
        (staticText isStatic ++
          writeSignature typeParams params rest result after) =
      some
        (.call
          ⟨.function typeParams params rest result, isStatic⟩,
          after) := by
  rcases writeSignature_head typeParams params rest result
    after with ⟨x, vs, hText, hx⟩
  rcases hBack.reads_signature hStop with
    ⟨us, hTypeParams, hParams⟩
  have hResult := hBack.result.reads after hStop
  rw [hText] at hTypeParams ⊢
  have hMarks :
      ∀ y ∈ ['<', '('],
        spacing y = false ∧ keyMark.accepts y = false ∧
          isIdentStart y = false ∧ '.' ≠ y ∧ '+' ≠ y ∧
          '-' ≠ y ∧ '[' ≠ y := by
    decide
  rcases hMarks x hx with
    ⟨hSpacing, hMark, hStart, hPoint, hPlus, hMinus, hBracket⟩
  have hStatic :=
    reads_static isStatic
      ((avoids_cons spacing x vs).mpr hSpacing)
      ((avoids_cons keyMark.accepts x vs).mpr hMark)
      (fun _ => notStatic_cons hStart vs)
  have hDots :
      Cursor.dropLiteral ['.', '.', '.']
        (staticText isStatic ++ x :: vs) = none := by
    cases isStatic with
    | true => rfl
    | false => simp [staticText, Cursor.dropLiteral, hPoint]
  generalize staticText isStatic ++ x :: vs = text
    at hStatic hDots ⊢
  have hIndexer : indexerEntry.reads rules text = none := by
    simp [indexerEntry, hStatic, variance, Cursor.dropLiteral,
      hPlus, hMinus, hBracket]
  have hCall :
      callEntry.reads rules text =
        some
          (.call
            ⟨.function typeParams params rest result, isStatic⟩,
            after) := by
    rw [callEntry]
    simp only [reads_apply, reads_map, hStatic, hTypeParams,
      hParams, type, reads_call, hResult, Option.map_some,
      Option.bind_some]
    rfl
  simp [entry, spreadEntry, inexactEntry, hDots, hIndexer, hCall]

/- The name of an indexer is read back, if it has one. -/
theorem reads_indexer_id
    {id : Option String}
    {text : List Char}
    (hId : ∀ name, id = some name → IsWord name)
    (hLeads : Leads text) :
    (Peg.optional (identifier <* ws <* symbol ":" <* ws) :
        Rule (Option String)).reads rules
        (parameterHead id false ++ text) =
      some (id, text) := by
  cases id with
  | none =>
      simp only [parameterHead, List.nil_append]
      cases hWord : word.reads rules text with
      | none => simp [hWord]
      | some v =>
          have hMark := hLeads.unnamed v.1 v.2 hWord
          have hColon :
              Cursor.dropLiteral [':'] (skip v.2) = none :=
            dropLiteral_of_avoids
              (hMark.mono (fun x hx => by simp_all [keyMark]))
          simp [hWord, hColon]
  | some name =>
      have hWord :
          word.reads rules (name.toList ++ ':' :: ' ' :: text) =
            some (name, ':' :: ' ' :: text) :=
        reads_word_append rules (hId name rfl)
          ((avoids_cons _ _ _).mpr rfl)
      simp (disch := decide) [parameterHead, optionalText, hWord,
        Cursor.dropLiteral, skip_blank hLeads.spaced]

/- An indexer starts with its sign or its bracket. -/
theorem indexer_head
    (v : Option Variance)
    (inner : List Char) :
    ∃ x xs, FlowType.sign v ++ '[' :: inner = x :: xs ∧
      x ∈ ['+', '-', '['] := by
  cases v with
  | none => exact ⟨'[', _, rfl, by simp⟩
  | some v => cases v <;> exact ⟨_, _, rfl, by decide⟩

/- What stands before the name or the key of an indexer. -/
theorem reads_indexer_front
    {inner : List Char}
    (v : Option Variance)
    (hInner : Avoids spacing inner) :
    (static *> Peg.optional variance <* symbol "[" <* ws).reads
        rules (FlowType.sign v ++ '[' :: inner) =
      some (v, inner) := by
  have hSign :
      (Peg.optional variance).reads rules
          (FlowType.sign v ++ '[' :: inner) =
        some (v, '[' :: inner) :=
    reads_optional_variance v ((avoids_cons _ _ _).mpr rfl)
  have hMarks :
      ∀ y ∈ ['+', '-', '['],
        spacing y = false ∧ keyMark.accepts y = false ∧
          isIdentStart y = false := by
    decide
  rcases indexer_head v inner with ⟨x, xs, hText, hx⟩
  rcases hMarks x hx with ⟨hSpacing, hMark, hStart⟩
  rw [hText] at hSign ⊢
  have hStatic :
      static.reads rules (x :: xs) = some (false, x :: xs) :=
    reads_static false ((avoids_cons spacing x xs).mpr hSpacing)
      ((avoids_cons keyMark.accepts x xs).mpr hMark)
      (fun _ => notStatic_cons hStart xs)
  simp only [reads_keepLeft, reads_keepRight, hStatic,
    Option.bind_some, hSign]
  simp [Cursor.dropLiteral, skip_of_avoids hInner]

/- An indexer is read back. -/
theorem reads_entry_indexer
    {i : Indexer FlowType}
    {after : List Char}
    (hId : ∀ id, i.id = some id → IsWord id)
    (hKey : Back i.key)
    (hValue : Back i.value)
    (hStop : Stop .whole after) :
    entry.reads rules (writeEntry (.indexer i) after) =
      some (.indexer i, after) := by
  have hClose :
      Stop .whole
        (']' :: ':' :: ' ' :: render .whole i.value after) :=
    .mark (by simp) .whole _
  have hLeads :=
    leads_render hKey.shaped .whole hClose.quiet
  have hName := reads_indexer_id hId hLeads
  have hInner :
      Avoids spacing
        (parameterHead i.id false ++
          render .whole i.key
            (']' :: ':' :: ' ' :: render .whole i.value after)) := by
    cases hSome : i.id with
    | none => exact hLeads.spaced
    | some name =>
        simp only [parameterHead, List.append_assoc]
        exact (hId name hSome).avoids mem_of_spacing (by decide) _
  have hFront := reads_indexer_front i.variance hInner
  have hMiddle :
      (type <* ws <* symbol "]" <* ws <* symbol ":" <* ws).reads
          rules
          (render .whole i.key
            (']' :: ':' :: ' ' :: render .whole i.value after)) =
        some (i.key, render .whole i.value after) := by
    simp (disch := decide) [type, hKey.reads _ hClose,
      Cursor.dropLiteral, skip_blank (hValue.spaced hStop)]
  rw [writeEntry]
  generalize parameterHead i.id false ++
    render .whole i.key
      (']' :: ':' :: ' ' :: render .whole i.value after) = inner
    at hName hFront ⊢
  have hIndexer :
      indexerEntry.reads rules
          (FlowType.sign i.variance ++ '[' :: inner) =
        some (.indexer i, after) := by
    rw [indexerEntry]
    simp only [reads_apply, reads_map, hFront, hName, hMiddle,
      Option.map_some, Option.bind_some]
    simp [type, hValue.reads after hStop]
  rcases indexer_head i.variance inner with ⟨x, xs, hText, hx⟩
  have hPoint : '.' ≠ x := by
    rintro rfl
    exact absurd hx (by decide)
  rw [hText] at hIndexer ⊢
  simp [entry, spreadEntry, inexactEntry, Cursor.dropLiteral,
    hPoint, hIndexer]

------------------------------------------------------------
-- Objects Are Read Back
------------------------------------------------------------

/- The parts of an entry are read back. -/
def BackEntry : Entry → Prop
  | .property (.entry key value isOptional method isStatic v) =>
      IsKey key ∧
        (method = false → Back value) ∧
        (method = true →
          isOptional = false ∧
            ¬ (key = .identifier "static" ∧ isStatic = false ∧
              v = none) ∧
            ∃ typeParams params rest result,
              value = .function typeParams params rest result ∧
                BackSignature typeParams params rest result)
  | .property (.spread argument) => Back argument
  | .indexer i =>
      (∀ id, i.id = some id → IsWord id) ∧ Back i.key ∧
        Back i.value
  | .call c =>
      ∃ typeParams params rest result,
        c.value = .function typeParams params rest result ∧
          BackSignature typeParams params rest result
  | .inexact => True

/- The text ends an entry of an object. -/
structure EndsEntry
    (text : List Char) : Prop where
  stop : Stop .whole text
  typeless : rules .type (skip text) = none

theorem BackEntry.reads
    {e : Entry}
    {after : List Char}
    (hBack : BackEntry e)
    (hEnds : EndsEntry after) :
    entry.reads rules (writeEntry e after) =
      some (e, after) := by
  have hStop := hEnds.stop
  cases e with
  | property p =>
      cases p with
      | entry key value isOptional method isStatic v =>
          rcases hBack with ⟨hKey, hField, hMethod⟩
          cases method with
          | false =>
              have hText :
                  writeEntry
                      (.property
                        (.entry key value isOptional false
                          isStatic v)) after =
                    writeMember isStatic v key
                      (writeValue isOptional value after) := by
                simp [writeEntry]
              rw [hText]
              exact reads_entry_field isOptional isStatic v hKey
                (hField rfl) hStop
          | true =>
              rcases hMethod rfl with
                ⟨rfl, hName, typeParams, params, rest, result,
                  rfl, hSignature⟩
              rw [writeEntry]
              exact reads_entry_method hKey hName hSignature hStop
      | spread argument =>
          have hArgument : Back argument := hBack
          have hRead := hArgument.reads after hStop
          have hSkip := skip_of_avoids (hArgument.spaced hStop)
          rw [writeEntry]
          simp [entry, spreadEntry, Cursor.dropLiteral, hSkip,
            type, hRead]
  | indexer i =>
      rcases hBack with ⟨hId, hKey, hValue⟩
      exact reads_entry_indexer hId hKey hValue hStop
  | call c =>
      rcases c with ⟨value, isStatic⟩
      rcases hBack with
        ⟨typeParams, params, rest, result, hValue, hSignature⟩
      cases hValue
      rw [writeEntry]
      exact reads_entry_call isStatic hSignature hStop
  | inexact =>
      -- No type follows, so the dots are not a spread.
      have hNone := hEnds.typeless
      rw [writeEntry]
      simp [entry, spreadEntry, inexactEntry, Cursor.dropLiteral,
        type, hNone]

theorem BackEntry.spaced
    {e : Entry}
    (hBack : BackEntry e)
    (after : List Char) :
    Avoids spacing (writeEntry e after) := by
  have hMember :
      ∀ {key : PropertyKey} (isStatic : Bool)
        (v : Option Variance) (rest : List Char), IsKey key →
        Avoids spacing (writeMember isStatic v key rest) := by
    intro key isStatic v rest hKey
    cases isStatic with
    | true => exact (avoids_cons _ _ _).mpr rfl
    | false =>
        exact avoids_member _ hKey mem_of_spacing (by decide) v
          rest
  cases e with
  | property p =>
      cases p with
      | entry key value isOptional method isStatic v =>
          unfold writeEntry
          split <;> rename_i hEq <;> cases hEq <;>
            exact hMember _ _ _ hBack.1
      | spread argument => exact (avoids_cons _ _ _).mpr rfl
  | indexer i =>
      rw [writeEntry]
      cases i.variance with
      | none => exact (avoids_cons _ _ _).mpr rfl
      | some v => cases v <;> exact (avoids_cons _ _ _).mpr rfl
  | call c =>
      rcases c with ⟨value, isStatic⟩
      rcases hBack with
        ⟨typeParams, params, rest, result, hValue, -⟩
      cases hValue
      rw [writeEntry]
      cases isStatic with
      | true => exact (avoids_cons _ _ _).mpr rfl
      | false =>
          rcases writeSignature_head typeParams params rest
            result after with ⟨x, vs, hText, hx⟩
          have hMarks : ∀ y ∈ ['<', '('], spacing y = false := by
            decide
          rw [hText]
          exact (avoids_cons _ _ _).mpr (hMarks x hx)
  | inexact => exact (avoids_cons _ _ _).mpr rfl

theorem endsEntry_of_endOrMore
    {close text : List Char}
    (hClose : EndsEntry close)
    (hText : EndOrMore [',', ' '] close text) : EndsEntry text := by
  rcases hText with rfl | ⟨more, rfl⟩
  · exact hClose
  · refine ⟨.mark (by simp) .whole _, ?_⟩
    exact callsStart.2 _ _ _ rfl

/- The entries of an object are read back. -/
theorem reads_entries
    {es : List Entry}
    {close : List Char}
    (hBack : ∀ e ∈ es, BackEntry e)
    (hEnds : es ≠ [] → EndsEntry close)
    (hEmpty : es = [] → entry.reads rules close = none)
    (hMark :
      Avoids memberMark.accepts (skip close)) :
    entries.reads rules
        (writeEach [',', ' '] writeEntry true es close) =
      some (es, close) := by
  have hNoMark := reads_char_of_avoids rules hMark
  have hList :
      (sepBy entry (ws *> char memberMark *> ws)).reads rules
          (writeEach [',', ' '] writeEntry true es close) =
        some (es, close) := by
    refine reads_sepBy_writeEach rfl ?_ ?_ ?_ hEmpty ?_
    · exact fun e he rest _ => (hBack e he).spaced rest
    · intro rest hRest
      simp (disch := decide) [memberMark, skip_blank hRest]
    · intro e he rest hRest
      exact (hBack e he).reads
        (endsEntry_of_endOrMore (hEnds (List.ne_nil_of_mem he))
          hRest)
    · simp [hNoMark]
  simp [entries, hList, hNoMark]

/- An object as it is printed. -/
def writeObject
    (exact : Bool)
    (es : List Entry)
    (after : List Char) : List Char :=
  let blank := if es.isEmpty then [] else [' ']
  let opening := if exact then ['\x7b', '|'] else ['\x7b']
  let closing := if exact then ['|', '\x7d'] else ['\x7d']
  opening ++ blank ++
    writeEach [',', ' '] writeEntry true es
      (blank ++ closing ++ after)

theorem render_object
    (l : Level)
    (properties : List (Property FlowType))
    (indexers : List (Indexer FlowType))
    (calls : List (CallProperty FlowType))
    (exact inexact : Bool)
    (after : List Char) :
    render l (.object properties indexers calls exact inexact)
        after =
      writeObject exact
        (entriesOf properties indexers calls inexact) after := by
  have hEmpty :
      (entriesOf properties indexers calls inexact).isEmpty =
        (properties.isEmpty && indexers.isEmpty &&
          calls.isEmpty && !inexact) := by
    cases properties <;> cases indexers <;> cases calls <;>
      cases inexact <;> rfl
  rw [render, writeObject, hEmpty, ← renderMembers_eq_writeEach]
  cases exact <;> simp

theorem endsEntry_brace
    (after : List Char) :
    EndsEntry (' ' :: '\x7d' :: after) where
  stop := .brace .whole after
  typeless := by
    rw [skip_blank_cons rfl]
    exact callsStart.2 _ _ _ rfl

theorem endsEntry_barBrace
    (after : List Char) :
    EndsEntry (' ' :: '|' :: '\x7d' :: after) where
  stop := .barBrace .whole after
  typeless := by
    have hNone :
        intersection.reads rules ('\x7d' :: after) = none :=
      reads_eq_none rfl rfl
    rw [skip_blank_cons rfl, rules_type, union, joinedBy]
    simp (disch := decide) [Cursor.dropLiteral, hNone]

/- An object is read back. -/
theorem reads_objectType
    {es : List Entry}
    (exact : Bool)
    (hBack : ∀ e ∈ es, BackEntry e)
    (after : List Char) :
    objectType.reads rules (writeObject exact es after) =
      some (makeObject exact es, after) := by
  cases es with
  | nil =>
      cases exact with
      | true =>
          have hEntries :
              entries.reads rules ('|' :: '\x7d' :: after) =
                some ([], '|' :: '\x7d' :: after) :=
            reads_entries hBack (fun hNil => absurd rfl hNil)
              (fun _ => reads_eq_none rfl rfl)
              (by simp (disch := decide) [memberMark])
          simp (disch := decide) [writeObject, writeEach,
            objectType, Cursor.dropLiteral, hEntries]
      | false =>
          have hEntries :
              entries.reads rules ('\x7d' :: after) =
                some ([], '\x7d' :: after) :=
            reads_entries hBack (fun hNil => absurd rfl hNil)
              (fun _ => reads_eq_none rfl rfl)
              (by simp (disch := decide) [memberMark])
          simp (disch := decide) [writeObject, writeEach,
            objectType, Cursor.dropLiteral, hEntries]
  | cons e es =>
      have hSpaced :
          ∀ close,
            skip
                (' ' :: writeEach [',', ' '] writeEntry true
                  (e :: es) close) =
              writeEach [',', ' '] writeEntry true (e :: es)
                close :=
        fun close => skip_blank ((hBack e (by simp)).spaced _)
      cases exact with
      | true =>
          have hEntries :=
            reads_entries hBack
              (fun _ => endsEntry_barBrace after)
              (fun hNil => absurd hNil (List.cons_ne_nil e es))
              (by simp (disch := decide) [memberMark])
          simp (disch := decide) [writeObject, objectType,
            Cursor.dropLiteral, hSpaced, hEntries]
      | false =>
          have hEntries :=
            reads_entries hBack (fun _ => endsEntry_brace after)
              (fun hNil => absurd hNil (List.cons_ne_nil e es))
              (by simp (disch := decide) [memberMark])
          simp (disch := decide) [writeObject, objectType,
            Cursor.dropLiteral, hSpaced, hEntries]

end Grammar

end FlowType

end TypeGraft
