import TypeGraft.Proofs.FlowType.Primary

/-
  How printed signatures are read: type parameters, parameters
  and results, and the brackets that hold lists of types.  The
  types inside them are assumed to be read back.

  Main declarations:
    * `FlowType.Grammar.Back`
    * `FlowType.Grammar.BackSignature`
    * `FlowType.Grammar.reads_functionType`
    * `FlowType.Grammar.reads_primary_group`
-/

namespace TypeGraft

namespace FlowType

namespace Grammar

open Peg

------------------------------------------------------------
-- Parameters
------------------------------------------------------------

/- A type that is no name is a parameter without a name. -/
theorem reads_parameter_unnamed
    {t : FlowType}
    {text rest : List Char}
    (hLeads : Leads text)
    (h : rules .type text = some (t, rest)) :
    parameter.reads rules text = some (⟨none, false, t⟩, rest) := by
  have hNamed :
      ((fun name optional type =>
          Parameter.mk (some name) (Option.isSome optional)
            type) <$>
        (identifier <* ws) <*>
        (Peg.optional (symbol "?") <* ws <* symbol ":" <* ws) <*>
        type : Rule (Parameter FlowType)).reads rules text =
        none := by
    cases hWord : word.reads rules text with
    | none => simp [hWord]
    | some v =>
        have hMark := hLeads.unnamed v.1 v.2 hWord
        have hQuestion :
            Cursor.dropLiteral ['?'] (skip v.2) = none :=
          dropLiteral_of_avoids
            (hMark.mono (fun x hx => by simp_all [keyMark]))
        have hColon :
            Cursor.dropLiteral [':'] (skip v.2) = none :=
          dropLiteral_of_avoids
            (hMark.mono (fun x hx => by simp_all [keyMark]))
        simp [hWord, hQuestion, hColon]
  rw [parameter, reads_orElse, hNamed]
  simp [type, h]

/- A parameter with its name. -/
theorem reads_parameter_named
    {name : String}
    {isOptional : Bool}
    {t : FlowType}
    {text rest : List Char}
    (hName : IsWord name)
    (hText : Avoids spacing text)
    (h : rules .type text = some (t, rest)) :
    parameter.reads rules
        (parameterHead (some name) isOptional ++ text) =
      some (⟨some name, isOptional, t⟩, rest) := by
  have hBlank := skip_blank hText
  cases isOptional with
  | false =>
      have hWord :
          word.reads rules (name.toList ++ ':' :: ' ' :: text) =
            some (name, ':' :: ' ' :: text) :=
        reads_word_append rules hName
          ((avoids_cons _ _ _).mpr rfl)
      simp (disch := decide) [parameter, parameterHead,
        optionalText, hWord, Cursor.dropLiteral, hBlank, type, h]
  | true =>
      have hWord :
          word.reads rules
              (name.toList ++ '?' :: ':' :: ' ' :: text) =
            some (name, '?' :: ':' :: ' ' :: text) :=
        reads_word_append rules hName
          ((avoids_cons _ _ _).mpr rfl)
      simp (disch := decide) [parameter, parameterHead,
        optionalText, hWord, Cursor.dropLiteral, hBlank, type, h]

/- The type is read back where it stands on its own. -/
structure Back
    (t : FlowType) : Prop where
  shaped : Shaped t
  reads :
    ∀ after, Stop .whole after →
      rules .type (render .whole t after) = some (t, after)

theorem Back.spaced
    {t : FlowType}
    (hBack : Back t)
    {l : Level}
    {after : List Char}
    (hStop : Stop l after) :
    Avoids spacing (render .whole t after) :=
  (leads_render hBack.shaped .whole hStop.quiet).spaced

/- A parameter that is read back. -/
structure BackParameter
    (p : Parameter FlowType) : Prop where
  name : NamesParameter p
  type : Back p.type

/- A parameter as it is printed. -/
def writeParameter
    (p : Parameter FlowType)
    (after : List Char) : List Char :=
  parameterHead p.name p.optional ++ render .whole p.type after

theorem renderParams_eq_writeEach
    (isFirst : Bool)
    (ps : List (Parameter FlowType))
    (after : List Char) :
    renderParams isFirst ps after =
      writeEach [',', ' '] writeParameter isFirst ps after := by
  induction ps generalizing isFirst with
  | nil => rw [renderParams, writeEach]
  | cons p ps ih =>
      rw [renderParams, writeEach, ih, writeParameter,
        FlowType.comma, List.append_assoc]

theorem BackParameter.spaced
    {p : Parameter FlowType}
    (hBack : BackParameter p)
    {after : List Char}
    (hStop : Stop .whole after) :
    Avoids spacing (writeParameter p after) := by
  have hName := hBack.name
  unfold NamesParameter at hName
  unfold writeParameter parameterHead
  split
  · rename_i name hSome
    rw [hSome] at hName
    simp only [List.append_assoc]
    exact hName.avoids mem_of_spacing (by decide) _
  · exact hBack.type.spaced hStop

theorem BackParameter.reads
    {p : Parameter FlowType}
    (hBack : BackParameter p)
    {after : List Char}
    (hStop : Stop .whole after) :
    parameter.reads rules (writeParameter p after) =
      some (p, after) := by
  have hType := hBack.type.reads after hStop
  have hLeads :=
    leads_render hBack.type.shaped .whole hStop.quiet
  have hName := hBack.name
  rcases p with ⟨name, isOptional, t⟩
  cases name with
  | none =>
      have hRequired : isOptional = false := hName
      subst hRequired
      exact reads_parameter_unnamed hLeads hType
  | some name =>
      exact reads_parameter_named hName hLeads.spaced hType

theorem EndOrMore.stop
    {l : Level}
    {close text : List Char}
    (hClose : Stop l close)
    (h : EndOrMore [',', ' '] close text) : Stop l text := by
  rcases h with rfl | ⟨more, rfl⟩
  · exact hClose
  · exact .mark (by simp) l _

theorem reads_comma
    {text : List Char}
    (hText : Avoids spacing text) :
    comma.reads rules (',' :: ' ' :: text) = some ((), text) := by
  simp (disch := decide) [comma, Cursor.dropLiteral,
    skip_blank hText]

/- Parameters with commas between them. -/
theorem reads_sepBy_parameter
    {ps : List (Parameter FlowType)}
    {close : List Char}
    (hBack : ∀ p ∈ ps, BackParameter p)
    (hStop : ps ≠ [] → Stop .whole close)
    (hEmpty : ps = [] → parameter.reads rules close = none)
    (hClose : (comma *> parameter).reads rules close = none) :
    (sepBy parameter comma).reads rules
        (renderParams true ps close) =
      some (ps, close) := by
  rw [renderParams_eq_writeEach]
  refine reads_sepBy_writeEach rfl ?_ (fun _ => reads_comma) ?_
    hEmpty hClose
  · intro p hp rest hRest
    have hSome := List.ne_nil_of_mem hp
    exact (hBack p hp).spaced (hRest.stop (hStop hSome))
  · intro p hp rest hRest
    have hSome := List.ne_nil_of_mem hp
    exact (hBack p hp).reads (hRest.stop (hStop hSome))

/- What stands in the parentheses of a function. -/
def writeParameters
    (ps : List (Parameter FlowType))
    (r : Option (Parameter FlowType))
    (after : List Char) : List Char :=
  '(' :: renderParams true ps
    (renderRest ps.isEmpty r (')' :: after))

theorem spaced_renderParams
    {ps : List (Parameter FlowType)}
    {close : List Char}
    (hBack : ∀ p ∈ ps, BackParameter p)
    (hStop : ps ≠ [] → Stop .whole close)
    (hEmpty : ps = [] → Avoids spacing close) :
    Avoids spacing (renderParams true ps close) := by
  rw [renderParams_eq_writeEach]
  cases ps with
  | nil => exact hEmpty rfl
  | cons p ps =>
      have hRest :=
        endOrMore_writeEach [',', ' '] writeParameter ps close
      exact (hBack p (by simp)).spaced
        (hRest.stop (hStop (List.cons_ne_nil p ps)))

/-
  The parameters are read before what closes them, and the
  rest parameter is read from that.
-/
theorem reads_parenthesized_of_rest
    {ps : List (Parameter FlowType)}
    {r : Option (Parameter FlowType)}
    {close after : List Char}
    (hBack : ∀ p ∈ ps, BackParameter p)
    (hStop : ps ≠ [] → Stop .whole close)
    (hHead : ps = [] → Avoids spacing close)
    (hEmpty : ps = [] → parameter.reads rules close = none)
    (hClose : (comma *> parameter).reads rules close = none)
    (hRest :
      (Peg.optional (lastComma *> restParameter)).reads rules
          close = some (r, ')' :: after)) :
    parenthesized.reads rules
        ('(' :: renderParams true ps close) =
      some ((ps, r), after) := by
  have hSkip :=
    skip_of_avoids (spaced_renderParams hBack hStop hHead)
  have hParams := reads_sepBy_parameter hBack hStop hEmpty hClose
  have hBoth :
      parameters.reads rules (renderParams true ps close) =
        some ((ps, r), ')' :: after) := by
    rw [parameters]
    simp only [reads_apply, reads_map, hParams, reads_keepLeft,
      Option.map_some, Option.bind_some, hRest]
    simp (disch := decide) [Cursor.dropLiteral]
  simp (disch := decide) [parenthesized, Cursor.dropLiteral,
    hSkip, hBoth]

theorem renderRest_some
    (isFirst : Bool)
    (p : Parameter FlowType)
    (after : List Char) :
    renderRest isFirst (some p) after =
      between [',', ' '] isFirst ++
        '.' :: '.' :: '.' :: writeParameter p after := by
  rw [renderRest]
  simp [writeParameter, FlowType.comma]

/- The parameters of a function are read back. -/
theorem reads_parenthesized
    {ps : List (Parameter FlowType)}
    {r : Option (Parameter FlowType)}
    (hBack : ∀ p ∈ ps, BackParameter p)
    (hRest : ∀ p, r = some p → BackParameter p)
    (after : List Char) :
    parenthesized.reads rules (writeParameters ps r after) =
      some ((ps, r), after) := by
  unfold writeParameters
  cases r with
  | none =>
      rw [renderRest]
      refine reads_parenthesized_of_rest hBack ?_ ?_ ?_ ?_ ?_
      · exact fun _ => .mark (by simp) .whole after
      · exact fun _ => (avoids_cons _ _ _).mpr rfl
      · exact fun _ => reads_eq_none rfl rfl
      · simp (disch := decide) [comma, Cursor.dropLiteral]
      · simp (disch := decide) [lastComma, restParameter,
          Cursor.dropLiteral]
  | some p =>
      have hParameter := (hRest p rfl).reads
        (Stop.mark (x := ')') (by simp) .whole after)
      have hSkip := skip_of_avoids ((hRest p rfl).spaced
        (Stop.mark (x := ')') (by simp) .whole after))
      have hPoint :
          ∀ rest, parameter.reads rules ('.' :: rest) = none :=
        fun rest => reads_eq_none rfl rfl
      rw [renderRest_some]
      cases ps with
      | nil =>
          refine reads_parenthesized_of_rest hBack ?_ ?_ ?_ ?_ ?_
          · exact fun hNil => absurd rfl hNil
          · exact fun _ => (avoids_cons _ _ _).mpr rfl
          · exact fun _ => hPoint _
          · simp (disch := decide) [between, comma,
              Cursor.dropLiteral]
          · simp (disch := decide) [between, lastComma,
              restParameter, Cursor.dropLiteral, hSkip,
              hParameter]
      | cons q qs =>
          refine reads_parenthesized_of_rest hBack ?_ ?_ ?_ ?_ ?_
          · exact fun _ => .mark (x := ',') (by simp) .whole _
          · exact fun hNil => absurd hNil (List.cons_ne_nil q qs)
          · exact fun hNil => absurd hNil (List.cons_ne_nil q qs)
          · simp (disch := decide) [between, comma,
              Cursor.dropLiteral, hPoint]
          · simp (disch := decide) [between, lastComma,
              restParameter, Cursor.dropLiteral, hSkip,
              hParameter]

------------------------------------------------------------
-- Type Parameters
------------------------------------------------------------

/- A declared type parameter that is read back. -/
structure BackTypeParameter
    (p : TypeParameter FlowType) : Prop where
  name : IsWord p.name
  bound : ∀ t, p.bound = some t → Back t
  default : ∀ t, p.default = some t → Back t

/- A declared type parameter as it is printed. -/
def writeTypeParam
    (p : TypeParameter FlowType)
    (after : List Char) : List Char :=
  FlowType.sign p.variance ++ p.name.toList ++
    renderAfter ": ".toList p.bound
      (renderAfter " = ".toList p.default after)

theorem renderTypeParamList_eq_writeEach
    (isFirst : Bool)
    (ps : List (TypeParameter FlowType))
    (after : List Char) :
    renderTypeParamList isFirst ps after =
      writeEach [',', ' '] writeTypeParam isFirst ps after := by
  induction ps generalizing isFirst with
  | nil => rw [renderTypeParamList, writeEach]
  | cons p ps ih =>
      rw [renderTypeParamList, writeEach, ih, writeTypeParam]
      simp [FlowType.comma]

/- A sign of variance, or none. -/
theorem reads_optional_variance
    (v : Option Variance)
    {rest : List Char}
    (hRest : Avoids signMark.accepts rest) :
    (Peg.optional variance).reads rules
        (FlowType.sign v ++ rest) =
      some (v, rest) := by
  cases v with
  | none =>
      have hPlus : Cursor.dropLiteral ['+'] rest = none :=
        dropLiteral_of_avoids
          (hRest.mono (fun x hx => by simp_all [signMark]))
      have hMinus : Cursor.dropLiteral ['-'] rest = none :=
        dropLiteral_of_avoids
          (hRest.mono (fun x hx => by simp_all [signMark]))
      simp [FlowType.sign, variance, hPlus, hMinus]
  | some v =>
      cases v <;>
        simp [FlowType.sign, Variance.sign, variance,
          Cursor.dropLiteral]

/- A type behind a mark, or none. -/
theorem reads_optional_typeAfter
    {mark : String}
    {m : Char}
    {head after : List Char}
    {o : Option FlowType}
    (hMark : mark.toList = [m])
    (hHead : ∀ text, skip (head ++ text) = m :: ' ' :: text)
    (hBack : ∀ t, o = some t → Back t)
    (hStop : Stop .whole after)
    (hAfter : Avoids (fun x => x = m) (skip after)) :
    (Peg.optional (typeAfter mark)).reads rules
        (renderAfter head o after) =
      some (o, after) := by
  cases o with
  | none =>
      rw [renderAfter]
      simp [typeAfter, hMark, dropLiteral_of_avoids hAfter]
  | some t =>
      have hRead := (hBack t rfl).reads after hStop
      have hSkip := skip_blank ((hBack t rfl).spaced hStop)
      rw [renderAfter]
      simp [typeAfter, hMark, hHead, Cursor.dropLiteral, hSkip,
        type, hRead]

theorem BackTypeParameter.spaced
    {p : TypeParameter FlowType}
    (hBack : BackTypeParameter p)
    (after : List Char) :
    Avoids spacing (writeTypeParam p after) := by
  unfold writeTypeParam
  cases p.variance with
  | none =>
      simp only [FlowType.sign, List.nil_append]
      exact hBack.name.avoids mem_of_spacing (by decide) _
  | some v => cases v <;> exact (avoids_cons _ _ _).mpr rfl

theorem BackTypeParameter.reads
    {p : TypeParameter FlowType}
    (hBack : BackTypeParameter p)
    {after : List Char}
    (hStop : Stop .whole after)
    (hAfter : Avoids (fun x => x = '=') (skip after)) :
    typeParam.reads rules (writeTypeParam p after) =
      some (p, after) := by
  have hDefault :
      (Peg.optional (typeAfter "=")).reads rules
          (renderAfter " = ".toList p.default after) =
        some (p.default, after) :=
    reads_optional_typeAfter rfl
      (fun _ => skip_blank_cons rfl _) hBack.default hStop hAfter
  have hMiddle :
      Stop .whole (renderAfter " = ".toList p.default after) := by
    cases p.default with
    | none =>
        rw [renderAfter]
        exact hStop
    | some t =>
        rw [renderAfter]
        exact .equals .whole _
  have hBound :
      (Peg.optional (typeAfter ":")).reads rules
          (renderAfter ": ".toList p.bound
            (renderAfter " = ".toList p.default after)) =
        some
          (p.bound, renderAfter " = ".toList p.default after) :=
    reads_optional_typeAfter rfl (fun _ => skip_cons rfl _)
      hBack.bound hMiddle (hMiddle.skip_avoids rfl)
  have hApart :
      Avoids isIdentChar
        (renderAfter ": ".toList p.bound
          (renderAfter " = ".toList p.default after)) := by
    cases p.bound with
    | none =>
        rw [renderAfter]
        exact hMiddle.apart.of_goesOn
    | some t =>
        rw [renderAfter]
        exact (avoids_cons _ _ _).mpr rfl
  have hName := reads_word_append rules hBack.name hApart
  have hSign :=
    fun rest =>
      reads_optional_variance p.variance
        (hBack.name.avoids mem_of_signMark (by decide) rest)
  rw [writeTypeParam, typeParam, List.append_assoc]
  simp only [reads_apply, reads_map, hSign, reads_identifier,
    hName, hBound, hDefault, Option.map_some, Option.bind_some]

/- Declared type parameters are read back. -/
theorem reads_typeParams
    {ps : List (TypeParameter FlowType)}
    (hSome : ps ≠ [])
    (hBack : ∀ p ∈ ps, BackTypeParameter p)
    (after : List Char) :
    typeParams.reads rules
        ('<' :: renderTypeParamList true ps ('>' :: after)) =
      some (ps, after) := by
  have hEnd :
      ∀ rest, EndOrMore [',', ' '] ('>' :: after) rest →
        Avoids (fun x => x = '=') (skip rest) := by
    rintro rest (rfl | ⟨more, rfl⟩) <;> simp (disch := decide)
  have hStop : Stop .whole ('>' :: after) :=
    .mark (by simp) .whole after
  have hList :
      (sepBy1 typeParam comma).reads rules
          (renderTypeParamList true ps ('>' :: after)) =
        some (ps, '>' :: after) := by
    rw [renderTypeParamList_eq_writeEach]
    refine reads_sepBy1_writeEach hSome rfl ?_
      (fun _ => reads_comma) ?_ ?_
    · exact fun p hp rest _ => (hBack p hp).spaced rest
    · intro p hp rest hRest
      exact (hBack p hp).reads (hRest.stop hStop)
        (hEnd rest hRest)
    · simp (disch := decide) [comma, Cursor.dropLiteral]
  have hSkip :
      skip (renderTypeParamList true ps ('>' :: after)) =
        renderTypeParamList true ps ('>' :: after) := by
    rw [renderTypeParamList_eq_writeEach]
    cases ps with
    | nil => exact absurd rfl hSome
    | cons p ps =>
        exact skip_of_avoids ((hBack p (by simp)).spaced _)
  simp (disch := decide) [typeParams, Cursor.dropLiteral, hSkip,
    hList, lastComma]

------------------------------------------------------------
-- Functions and Groups
------------------------------------------------------------

/- The parts of a function are read back. -/
structure BackSignature
    (typeParams : Option (List (TypeParameter FlowType)))
    (params : List (Parameter FlowType))
    (rest : Option (Parameter FlowType))
    (result : FlowType) : Prop where
  typeParams :
    ∀ ts, typeParams = some ts →
      ts ≠ [] ∧ ∀ p ∈ ts, BackTypeParameter p
  params : ∀ p ∈ params, BackParameter p
  rest : ∀ p, rest = some p → BackParameter p
  result : Back result

theorem reads_optional_typeParams
    {typeParams : Option (List (TypeParameter FlowType))}
    (hBack :
      ∀ ts, typeParams = some ts →
        ts ≠ [] ∧ ∀ p ∈ ts, BackTypeParameter p)
    (more : List Char) :
    (Peg.optional Grammar.typeParams <* ws).reads rules
        (renderTypeParams typeParams ('(' :: more)) =
      some (typeParams, '(' :: more) := by
  cases typeParams with
  | none =>
      rw [renderTypeParams]
      simp (disch := decide) [Grammar.typeParams,
        Cursor.dropLiteral]
  | some ts =>
      have hRead :=
        reads_typeParams (hBack ts rfl).1 (hBack ts rfl).2
          ('(' :: more)
      rw [renderTypeParams]
      simp (disch := decide) [hRead]

/- Parameters, a mark and a result are read back. -/
theorem BackSignature.reads_marked
    {typeParams : Option (List (TypeParameter FlowType))}
    {params : List (Parameter FlowType)}
    {rest : Option (Parameter FlowType)}
    {result : FlowType}
    {mark : String}
    {head after : List Char}
    (hBack : BackSignature typeParams params rest result)
    (hStop : Stop .whole after)
    (hMark :
      ∀ text, skip (head ++ text) = mark.toList ++ ' ' :: text) :
    (parenthesized <* ws <* symbol mark <* ws).reads rules
        (writeParameters params rest
          (head ++ render .whole result after)) =
      some ((params, rest), render .whole result after) := by
  have hParams :=
    reads_parenthesized hBack.params hBack.rest
      (head ++ render .whole result after)
  have hDrop :
      Cursor.dropLiteral mark.toList
          (mark.toList ++ ' ' :: render .whole result after) =
        some (' ' :: render .whole result after) :=
    (Cursor.dropLiteral_eq_some_iff _ _ _).mpr rfl
  have hSkip := skip_blank (hBack.result.spaced hStop)
  simp [hParams, hMark, hDrop, hSkip]

/- A function is read back. -/
theorem reads_functionType
    {typeParams : Option (List (TypeParameter FlowType))}
    {params : List (Parameter FlowType)}
    {rest : Option (Parameter FlowType)}
    {result : FlowType}
    {after : List Char}
    (hBack : BackSignature typeParams params rest result)
    (hStop : Stop .whole after) :
    functionType.reads rules
        (renderTypeParams typeParams
          (writeParameters params rest
            (" => ".toList ++ render .whole result after))) =
      some (.function typeParams params rest result, after) := by
  have hTypeParams :
      (Peg.optional Grammar.typeParams <* ws).reads rules
          (renderTypeParams typeParams
            (writeParameters params rest
              (" => ".toList ++ render .whole result after))) =
        some
          (typeParams,
            writeParameters params rest
              (" => ".toList ++ render .whole result after)) :=
    reads_optional_typeParams hBack.typeParams _
  have hParams :
      (parenthesized <* ws <* symbol "=>" <* ws).reads rules
          (writeParameters params rest
            (" => ".toList ++ render .whole result after)) =
        some ((params, rest), render .whole result after) :=
    hBack.reads_marked hStop (fun _ => skip_blank_cons rfl _)
  have hResult := hBack.result.reads after hStop
  simp only [functionType, reads_apply, reads_map, hTypeParams,
    Option.map_some, Option.bind_some, hParams, type, reads_call,
    hResult]
  rfl

/-
  A type in parentheses is read back.  It is tried as the
  parameters of a function first, but no arrow follows.
-/
theorem reads_primary_group
    {t : FlowType}
    {after : List Char}
    (hBack : Back t)
    (hStop : Stop .atom after) :
    rules .primary ('(' :: render .whole t (')' :: after)) =
      some (t, after) := by
  have hClose : Stop .whole (')' :: after) :=
    .mark (by simp) .whole after
  have hType := hBack.reads _ hClose
  have hSkip := skip_of_avoids (hBack.spaced hClose)
  have hParams :
      parenthesized.reads rules
          ('(' :: render .whole t (')' :: after)) =
        some (([⟨none, false, t⟩], none), after) := by
    have hRead :=
      @reads_parenthesized [⟨none, false, t⟩] none
        (by simpa using ⟨rfl, hBack⟩) (by simp) after
    rw [writeParameters, renderRest, renderParams,
      renderParams] at hRead
    exact hRead
  have hArrow :
      Cursor.dropLiteral ['=', '>'] (skip after) = none :=
    hStop.arrow
  have hFunction :
      functionType.reads rules
          ('(' :: render .whole t (')' :: after)) = none := by
    rw [functionType]
    simp (disch := decide) [typeParams, Cursor.dropLiteral,
      hParams, hArrow]
  have hGroup :
      group.reads rules ('(' :: render .whole t (')' :: after)) =
        some (t, after) := by
    simp (disch := decide) [group, Cursor.dropLiteral, hSkip, type,
      hType]
  rw [rules_primary, primary, reads_orElse, hFunction,
    reads_orElse, hGroup]
  rfl

------------------------------------------------------------
-- Lists of Types
------------------------------------------------------------

/- Types with commas between them are read back. -/
theorem reads_sepBy_type
    {ts : List FlowType}
    {close : List Char}
    (hBack : ∀ t ∈ ts, Back t)
    (hStop : Stop .whole close)
    (hEnd : rules .type close = none)
    (hComma : comma.reads rules close = none) :
    (sepBy type comma).reads rules
        (renderEach [',', ' '] .whole true ts close) =
      some (ts, close) := by
  rw [renderEach_eq_writeEach]
  refine reads_sepBy_writeEach rfl ?_ (fun _ => reads_comma) ?_
    (fun _ => hEnd) (by simp [hComma])
  · intro t ht rest hRest
    exact (hBack t ht).spaced (hRest.stop hStop)
  · intro t ht rest hRest
    exact (hBack t ht).reads rest (hRest.stop hStop)

theorem spaced_renderEach
    {ts : List FlowType}
    {close : List Char}
    (hBack : ∀ t ∈ ts, Back t)
    (hStop : Stop .whole close)
    (hClose : Avoids spacing close) :
    Avoids spacing
      (renderEach [',', ' '] .whole true ts close) := by
  rw [renderEach_eq_writeEach]
  cases ts with
  | nil => exact hClose
  | cons t ts =>
      have hRest :=
        endOrMore_writeEach [',', ' '] (render .whole) ts close
      exact (hBack t (by simp)).spaced (hRest.stop hStop)

theorem reads_typeArgs
    {ts : List FlowType}
    (hBack : ∀ t ∈ ts, Back t)
    (after : List Char) :
    typeArgs.reads rules
        ('<' :: renderEach [',', ' '] .whole true ts
          ('>' :: after)) =
      some (ts, after) := by
  have hStop : Stop .whole ('>' :: after) :=
    .mark (by simp) .whole after
  have hList :=
    reads_sepBy_type hBack hStop (callsStart.2 _ _ _ rfl)
      (by simp (disch := decide) [comma, Cursor.dropLiteral])
  have hSkip :=
    skip_of_avoids
      (spaced_renderEach hBack hStop ((avoids_cons _ _ _).mpr rfl))
  simp (disch := decide) [typeArgs, Cursor.dropLiteral, hSkip,
    hList, lastComma]

theorem reads_tuple
    {ts : List FlowType}
    (hBack : ∀ t ∈ ts, Back t)
    (after : List Char) :
    tuple.reads rules
        ('[' :: renderEach [',', ' '] .whole true ts
          (']' :: after)) =
      some (.tuple ts, after) := by
  have hStop : Stop .whole (']' :: after) :=
    .mark (by simp) .whole after
  have hList :=
    reads_sepBy_type hBack hStop (callsStart.2 _ _ _ rfl)
      (by simp (disch := decide) [comma, Cursor.dropLiteral])
  have hSkip :=
    skip_of_avoids
      (spaced_renderEach hBack hStop ((avoids_cons _ _ _).mpr rfl))
  simp (disch := decide) [tuple, Cursor.dropLiteral, hSkip,
    hList, lastComma]

end Grammar

end FlowType

end TypeGraft
