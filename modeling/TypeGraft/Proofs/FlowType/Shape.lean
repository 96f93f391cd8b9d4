import TypeGraft.Proofs.FlowType.Lexical

/-
  The shape of types that were read from text.

  Not every value of `FlowType` is the reading of a text: a
  union has at least two members, a name is a word, and the
  word `true` names no type.  `Shaped` says what holds of
  types that were read, at every depth.

  Main declarations:
    * `FlowType.Shaped`
    * `FlowType.Grammar.ShapedEntry`
    * `FlowType.Grammar.shaped_of_reads`
    * `FlowType.shaped_of_parse`
-/

namespace TypeGraft

open FlowType.Grammar

namespace FlowType

------------------------------------------------------------
-- Shapes
------------------------------------------------------------

/- Is the type a function? -/
def IsFunction
    (t : FlowType) : Prop :=
  ∃ typeParams params rest result,
    t = .function typeParams params rest result

/- A parameter has a word for its name, or is not optional. -/
def NamesParameter
    (p : Parameter FlowType) : Prop :=
  match p.name with
  | some name => IsWord name
  | none => p.optional = false

/- A key is a word or a string. -/
def IsKey : PropertyKey → Prop
  | .identifier name => IsWord name
  | .string _ => True

/- The type in a property. -/
def propertyType : Property FlowType → FlowType
  | .entry _ value _ _ _ _ => value
  | .spread argument => argument

/-
  A property has a key.  A method is a function that is not
  optional, and its key is not the bare word `static`.
-/
def NamesProperty : Property FlowType → Prop
  | .entry key value optional method static variance =>
      IsKey key ∧
        (method = true →
          optional = false ∧ IsFunction value ∧
            ¬ (key = .identifier "static" ∧ static = false ∧
              variance = none))
  | .spread _ => True

/- What holds of the types that are read from texts. -/
inductive Shaped : FlowType → Prop where
  | keyword (word : Keyword) : Shaped (.keyword word)
  | stringLiteral (value : String) :
      Shaped (.stringLiteral value)
  | numberLiteral {cs : List Char}
      (hNumeral : IsNumeral cs) :
      Shaped
        (.numberLiteral (Binary64.ofText cs)
          (String.ofList cs))
  | bigintLiteral {cs : List Char}
      (hBigint : IsBigint cs) :
      Shaped (.bigintLiteral (String.ofList cs))
  | booleanLiteral (value : Bool) :
      Shaped (.booleanLiteral value)
  /- A name is no literal and, on its own, no keyword. -/
  | generic {head : String} {parts : List String}
      {args : Option (List FlowType)}
      (hHead : IsWord head)
      (hParts : ∀ part ∈ parts, IsWord part)
      (hLiteral : head ≠ "true" ∧ head ≠ "false")
      (hKeyword :
        args = none → parts = [] → keywordOf? head = none)
      (hArgs :
        ∀ ts, args = some ts → ∀ t ∈ ts, Shaped t) :
      Shaped (.generic (.ofParts head parts) args)
  /- The name of a value may be any word. -/
  | typeOf {head : String} {parts : List String}
      (hHead : IsWord head)
      (hParts : ∀ part ∈ parts, IsWord part) :
      Shaped (.typeOf (.generic (.ofParts head parts) none))
  | nullable {t : FlowType}
      (hInner : Shaped t) : Shaped (.nullable t)
  | array {t : FlowType}
      (hElement : Shaped t) : Shaped (.array t)
  | union {ts : List FlowType}
      (hTwo : 2 ≤ ts.length)
      (hMembers : ∀ t ∈ ts, Shaped t) : Shaped (.union ts)
  | intersection {ts : List FlowType}
      (hTwo : 2 ≤ ts.length)
      (hMembers : ∀ t ∈ ts, Shaped t) :
      Shaped (.intersection ts)
  | tuple {ts : List FlowType}
      (hMembers : ∀ t ∈ ts, Shaped t) : Shaped (.tuple ts)
  | function
      {typeParams : Option (List (TypeParameter FlowType))}
      {params : List (Parameter FlowType)}
      {rest : Option (Parameter FlowType)}
      {result : FlowType}
      (hDeclared :
        ∀ ts, typeParams = some ts →
          ts ≠ [] ∧ ∀ p ∈ ts, IsWord p.name)
      (hBounds :
        ∀ ts, typeParams = some ts →
          ∀ p ∈ ts, ∀ t, p.bound = some t → Shaped t)
      (hDefaults :
        ∀ ts, typeParams = some ts →
          ∀ p ∈ ts, ∀ t, p.default = some t → Shaped t)
      (hNames : ∀ p ∈ params, NamesParameter p)
      (hTypes : ∀ p ∈ params, Shaped p.type)
      (hRestName : ∀ p, rest = some p → NamesParameter p)
      (hRestType : ∀ p, rest = some p → Shaped p.type)
      (hResult : Shaped result) :
      Shaped (.function typeParams params rest result)
  | object
      {properties : List (Property FlowType)}
      {indexers : List (Indexer FlowType)}
      {calls : List (CallProperty FlowType)}
      {exact inexact : Bool}
      (hNames : ∀ p ∈ properties, NamesProperty p)
      (hTypes : ∀ p ∈ properties, Shaped (propertyType p))
      (hIds : ∀ i ∈ indexers, ∀ id, i.id = some id → IsWord id)
      (hKeys : ∀ i ∈ indexers, Shaped i.key)
      (hValues : ∀ i ∈ indexers, Shaped i.value)
      (hFunctions : ∀ c ∈ calls, IsFunction c.value)
      (hCalls : ∀ c ∈ calls, Shaped c.value) :
      Shaped (.object properties indexers calls exact inexact)

namespace Grammar

open Peg

------------------------------------------------------------
-- Parts of Types
------------------------------------------------------------

/- A type parameter that was read. -/
structure ShapedTypeParameter
    (p : TypeParameter FlowType) : Prop where
  name : IsWord p.name
  bound : ∀ t, p.bound = some t → Shaped t
  default : ∀ t, p.default = some t → Shaped t

/- Type parameters that were read, if there are any. -/
def ShapedTypeParams
    (typeParams : Option (List (TypeParameter FlowType))) :
    Prop :=
  ∀ ts, typeParams = some ts →
    ts ≠ [] ∧ ∀ p ∈ ts, ShapedTypeParameter p

/- A parameter that was read. -/
structure ShapedParameter
    (p : Parameter FlowType) : Prop where
  name : NamesParameter p
  type : Shaped p.type

/- The parameters of a function that were read. -/
structure ShapedParameters
    (params :
      List (Parameter FlowType) ×
        Option (Parameter FlowType)) : Prop where
  listed : ∀ p ∈ params.1, ShapedParameter p
  rest : ∀ p, params.2 = some p → ShapedParameter p

/- An entry of an object that was read. -/
def ShapedEntry : Entry → Prop
  | .property p => NamesProperty p ∧ Shaped (propertyType p)
  | .indexer i =>
      (∀ id, i.id = some id → IsWord id) ∧ Shaped i.key ∧
        Shaped i.value
  | .call c => IsFunction c.value ∧ Shaped c.value
  | .inexact => True

theorem shaped_makeFunction
    {typeParams : Option (List (TypeParameter FlowType))}
    {params :
      List (Parameter FlowType) × Option (Parameter FlowType)}
    {result : FlowType}
    (hTypeParams : ShapedTypeParams typeParams)
    (hParams : ShapedParameters params)
    (hResult : Shaped result) :
    Shaped (makeFunction typeParams params result) :=
  .function
    (fun ts hSome =>
      ⟨(hTypeParams ts hSome).1,
        fun p hp => ((hTypeParams ts hSome).2 p hp).name⟩)
    (fun ts hSome p hp =>
      ((hTypeParams ts hSome).2 p hp).bound)
    (fun ts hSome p hp =>
      ((hTypeParams ts hSome).2 p hp).default)
    (fun p hp => (hParams.listed p hp).name)
    (fun p hp => (hParams.listed p hp).type)
    (fun p hp => (hParams.rest p hp).name)
    (fun p hp => (hParams.rest p hp).type)
    hResult

theorem isFunction_makeFunction
    (typeParams : Option (List (TypeParameter FlowType)))
    (params :
      List (Parameter FlowType) × Option (Parameter FlowType))
    (result : FlowType) :
    IsFunction (makeFunction typeParams params result) :=
  ⟨typeParams, params.1, params.2, result, rfl⟩

theorem shaped_makeObject
    {exact : Bool}
    {entries : List Entry}
    (hEntries : ∀ e ∈ entries, ShapedEntry e) :
    Shaped (makeObject exact entries) := by
  have hProperty :
      ∀ p ∈ propertiesOf entries, ShapedEntry (.property p) := by
    intro p hp
    rcases List.mem_filterMap.mp hp with ⟨e, he, hSome⟩
    cases e <;> simp at hSome
    subst hSome
    exact hEntries _ he
  have hIndexer :
      ∀ i ∈ indexersOf entries, ShapedEntry (.indexer i) := by
    intro i hi
    rcases List.mem_filterMap.mp hi with ⟨e, he, hSome⟩
    cases e <;> simp at hSome
    subst hSome
    exact hEntries _ he
  have hCall :
      ∀ c ∈ callsOf entries, ShapedEntry (.call c) := by
    intro c hc
    rcases List.mem_filterMap.mp hc with ⟨e, he, hSome⟩
    cases e <;> simp at hSome
    subst hSome
    exact hEntries _ he
  exact .object
    (fun p hp => (hProperty p hp).1)
    (fun p hp => (hProperty p hp).2)
    (fun i hi => (hIndexer i hi).1)
    (fun i hi => (hIndexer i hi).2.1)
    (fun i hi => (hIndexer i hi).2.2)
    (fun c hc => (hCall c hc).1)
    (fun c hc => (hCall c hc).2)

------------------------------------------------------------
-- Readings Have Shapes
------------------------------------------------------------

section Readings

variable {call : RuleName → List Char → Option (FlowType × List Char)}
variable (hCalls :
  ∀ n xs t ys, call n xs = some (t, ys) → Shaped t)

theorem yields_identifier :
    Yields call identifier IsWord := by
  intro xs w ys h
  rw [reads_identifier] at h
  exact isWord_of_reads call h

/- A name is words, the first of which the text starts with. -/
theorem typeName_of_reads
    {xs ys : List Char}
    {name : TypeName}
    (h : typeName.reads call xs = some (name, ys)) :
    ∃ head parts us, word.reads call xs = some (head, us) ∧
      (∀ part ∈ parts, IsWord part) ∧
      name = .ofParts head parts := by
  rw [typeName, reads_check] at h
  rcases Option.bind_eq_some_iff.mp h with
    ⟨⟨words, us⟩, hWords, hName⟩
  rw [reads_sepBy1] at hWords
  rcases Option.bind_eq_some_iff.mp hWords with
    ⟨v, hHead, hRest⟩
  rcases Option.map_eq_some_iff.mp hRest with ⟨w, hParts, hEq⟩
  cases hEq
  rw [reads_identifier] at hHead
  refine ⟨v.1, w.1, v.2, hHead, ?_, ?_⟩
  · exact (yields_identifier.keepRight _).many v.2 w.1 w.2 hParts
  · simp only [Option.some.injEq, Prod.mk.injEq] at hName
    exact hName.1.symm

theorem yields_typeofType :
    Yields call typeofType Shaped := by
  have hName :
      Yields call typeName
        (fun name => Shaped (.typeOf (.generic name none))) := by
    intro xs name ys h
    rcases typeName_of_reads h with
      ⟨head, parts, us, hHead, hParts, rfl⟩
    exact .typeOf (isWord_of_reads call hHead) hParts
  exact (hName.keepRight _).map (fun _ h => h)

theorem yields_joinedBy
    {mark : String}
    {join : List FlowType → FlowType}
    {item : Rule FlowType}
    (hJoin :
      ∀ ts, 2 ≤ ts.length → (∀ t ∈ ts, Shaped t) →
        Shaped (join ts))
    (hItem : Yields call item Shaped) :
    Yields call (joinedBy mark join item) Shaped := by
  refine Yields.apply
    (Yields.map (hItem.keepRight _) ?_)
    (hItem.keepRight _).many
  intro first hFirst others hOthers
  unfold joined
  cases others with
  | nil => exact hFirst
  | cons second others =>
      refine hJoin _ (by simp) ?_
      intro t hMem
      rcases List.mem_cons.mp hMem with rfl | hOther
      · exact hFirst
      · exact hOthers t hOther

theorem yields_propertyKey :
    Yields call propertyKey IsKey := by
  refine Yields.orElse (yields_identifier.map ?_)
    (Yields.map (.any stringLiteral) ?_)
  · exact fun _ hName => hName
  · exact fun _ _ => trivial

/- Where the word `static` is a key, a colon or `?` follows. -/
theorem keyMark_of_reads_static
    {xs us vs : List Char}
    (hStatic : static.reads call xs = some (false, xs))
    (hWord : word.reads call xs = some ("static", us))
    (hBlank : ws.reads call us = some ((), vs)) :
    ∃ x rest, vs = x :: rest ∧ keyMark.accepts x = true := by
  rw [static] at hStatic
  rcases (reads_map_eq_some_iff _ _ _ _ _ _).mp hStatic with
    ⟨o, hOptional, hNone⟩
  rcases (reads_optional_eq_some_iff _ _ _ _ _).mp hOptional with
    ⟨_, rfl, -⟩ | ⟨-, -, hMissing⟩
  · simp at hNone
  · cases vs with
    | nil =>
        simp [hWord, hBlank] at hMissing
    | cons x rest =>
        refine ⟨x, rest, rfl, ?_⟩
        simpa [hWord, hBlank] using hMissing

/- Behind a key mark there are no parameters. -/
theorem reads_parenthesized_of_keyMark
    {x : Char}
    {rest ys : List Char}
    {o : Option (List (TypeParameter FlowType))}
    (hMark : keyMark.accepts x = true)
    (hParams :
      (Peg.optional typeParams <* ws).reads call (x :: rest) =
        some (o, ys)) :
    parenthesized.reads call ys = none := by
  have hChar : x = ':' ∨ x = '?' := by
    simpa [keyMark] using hMark
  have hSame : x :: rest = ys := by
    have hAngle : x ≠ '<' := by
      rcases hChar with rfl | rfl <;> decide
    have hSpacing : Avoids spacing (x :: rest) := by
      rcases hChar with rfl | rfl <;> rw [avoids_cons] <;> rfl
    have hBlank :
        ws.reads call (x :: rest) = some ((), x :: rest) :=
      reads_ws_of_avoids hSpacing
    have hEq : none = o ∧ x :: rest = ys := by
      simpa [typeParams, Cursor.dropLiteral, Ne.symm hAngle,
        hBlank] using hParams
    exact hEq.2
  have hOpen : x ≠ '(' := by
    rcases hChar with rfl | rfl <;> decide
  simp [parenthesized, ← hSame, Cursor.dropLiteral,
    Ne.symm hOpen]

/- A method is not named by the bare word `static`. -/
theorem not_static_of_reads
    {xs us vs zs ps qs : List Char}
    {key : PropertyKey}
    {static' : Bool}
    {sign : Option Variance}
    {o : Option (List (TypeParameter FlowType))}
    {params :
      List (Parameter FlowType) × Option (Parameter FlowType)}
    (hStatic : static.reads call xs = some (static', us))
    (hSign :
      (Peg.optional variance).reads call us = some (sign, vs))
    (hKey :
      (propertyKey <* ws).reads call vs = some (key, zs))
    (hTypeParams :
      (Peg.optional typeParams <* ws).reads call zs =
        some (o, ps))
    (hParams : parenthesized.reads call ps = some (params, qs)) :
    ¬ (key = .identifier "static" ∧ static' = false ∧
      sign = none) := by
  rintro ⟨rfl, rfl, rfl⟩
  have hXs : us = xs := by
    rcases (reads_map_eq_some_iff _ _ _ _ _ _).mp hStatic with
      ⟨o, hOptional, hNone⟩
    rcases (reads_optional_eq_some_iff _ _ _ _ _).mp
      hOptional with ⟨_, rfl, -⟩ | ⟨-, hSame, -⟩
    · simp at hNone
    · exact hSame
  subst hXs
  have hUs : vs = us := by
    rcases (reads_optional_eq_some_iff _ _ _ _ _).mp hSign with
      ⟨_, hSome, -⟩ | ⟨-, hSame, -⟩
    · simp at hSome
    · exact hSame
  subst hUs
  rcases (reads_keepLeft_eq_some_iff _ _ _ _ _ _).mp hKey with
    ⟨ws', ⟨⟩, hName, hBlank⟩
  have hWord : word.reads call vs = some ("static", ws') := by
    rcases (reads_orElse_eq_some_iff _ _ _ _ _).mp hName with
      hFirst | ⟨-, hSecond⟩
    · rcases (reads_map_eq_some_iff _ _ _ _ _ _).mp hFirst with
        ⟨name, hRead, hEq⟩
      cases hEq
      rw [reads_identifier] at hRead
      exact hRead
    · rcases (reads_map_eq_some_iff _ _ _ _ _ _).mp hSecond with
        ⟨_, -, hEq⟩
      cases hEq
  rcases keyMark_of_reads_static hStatic hWord hBlank with
    ⟨x, rest, rfl, hMark⟩
  rw [reads_parenthesized_of_keyMark hMark hTypeParams] at hParams
  simp at hParams

include hCalls

theorem yields_type : Yields call type Shaped :=
  hCalls .type

theorem yields_typeArgs :
    Yields call typeArgs (fun ts => ∀ t ∈ ts, Shaped t) :=
  ((((yields_type hCalls).sepBy comma).keepRight _).keepLeft
    lastComma).keepLeft (symbol ">")

/-
  A reference is shaped if its first word is neither `true`
  nor `false`.
-/
theorem shaped_of_reads_generic
    {xs ys : List Char}
    {t : FlowType}
    (hTrue : (keyword "true").reads call xs = none)
    (hFalse : (keyword "false").reads call xs = none)
    (h : generic.reads call xs = some (t, ys)) : Shaped t := by
  rw [generic] at h
  rcases (reads_apply_eq_some_iff _ _ _ _ _ _).mp h with
    ⟨_, vs, args, hName, hArgs, rfl⟩
  rcases (reads_map_eq_some_iff _ _ _ _ _ _).mp hName with
    ⟨name, hRead, rfl⟩
  rcases typeName_of_reads hRead with
    ⟨head, parts, us, hHead, hParts, rfl⟩
  have hLiteral : head ≠ "true" ∧ head ≠ "false" := by
    simp only [reads_keyword, hHead, Option.bind_some] at hTrue hFalse
    exact ⟨by simpa using hTrue, by simpa using hFalse⟩
  have hShapedArgs :=
    ((yields_typeArgs hCalls).keepRight ws).optional vs args ys
      hArgs
  have hWord := isWord_of_reads call hHead
  unfold reference
  split
  · exact .keyword _
  · rename_i hOther
    refine .generic hWord hParts hLiteral ?_ hShapedArgs
    rintro rfl rfl
    rw [Option.eq_none_iff_forall_ne_some]
    intro word hWord
    exact hOther word rfl hWord

theorem yields_tuple : Yields call tuple Shaped :=
  Yields.map
    (((((yields_type hCalls).sepBy comma).keepRight _).keepLeft
      lastComma).keepLeft (symbol "]"))
    (fun _ hMembers => .tuple hMembers)

theorem yields_typeAfter
    (mark : String) : Yields call (typeAfter mark) Shaped :=
  (yields_type hCalls).keepRight _

theorem yields_typeParams :
    Yields call (Peg.optional typeParams) ShapedTypeParams := by
  have hParam : Yields call typeParam ShapedTypeParameter := by
    refine Yields.apply
      (Yields.apply
        (Yields.apply
          (Yields.map (.any (Peg.optional variance)) ?_)
          yields_identifier)
        (yields_typeAfter hCalls ":").optional)
      (yields_typeAfter hCalls "=").optional
    intro v _ name hName bound hBound default hDefault
    exact ⟨hName, hBound, hDefault⟩
  exact ((((hParam.sepBy1 comma).keepRight _).keepLeft
    lastComma).keepLeft (symbol ">")).optional

theorem yields_parameter :
    Yields call parameter ShapedParameter := by
  refine Yields.orElse
    (Yields.apply
      (Yields.apply
        (Yields.map (yields_identifier.keepLeft ws) ?_)
        (.any _))
      (yields_type hCalls))
    (Yields.map (yields_type hCalls) ?_)
  · intro name hName optional _ type hType
    exact ⟨hName, hType⟩
  · intro type hType
    exact ⟨rfl, hType⟩

theorem yields_parenthesized :
    Yields call parenthesized ShapedParameters := by
  have hRest : Yields call restParameter ShapedParameter :=
    (yields_parameter hCalls).keepRight _
  have hParams : Yields call parameters ShapedParameters := by
    refine Yields.apply
      (Yields.map ((yields_parameter hCalls).sepBy comma) ?_)
      (((hRest.keepRight lastComma).optional.keepLeft
        ws).keepLeft _)
    intro listed hListed rest hRest
    exact ⟨hListed, hRest⟩
  exact ((hParams.keepRight _).keepLeft ws).keepLeft (symbol ")")

theorem yields_functionType :
    Yields call functionType Shaped := by
  refine Yields.apply
    (Yields.apply
      (Yields.map ((yields_typeParams hCalls).keepLeft ws) ?_)
      ((((yields_parenthesized hCalls).keepLeft ws).keepLeft
        (symbol "=>")).keepLeft ws))
    (yields_type hCalls)
  intro typeParams hTypeParams params hParams result hResult
  exact shaped_makeFunction hTypeParams hParams hResult

theorem yields_indexerEntry :
    Yields call indexerEntry ShapedEntry := by
  refine Yields.apply
    (Yields.apply
      (Yields.apply
        (Yields.map (.any _) ?_)
        (((yields_identifier.keepLeft ws).keepLeft
          (symbol ":")).keepLeft ws).optional)
      (((((yields_type hCalls).keepLeft ws).keepLeft
        (symbol "]")).keepLeft ws).keepLeft
        (symbol ":") |>.keepLeft ws))
    (yields_type hCalls)
  intro sign _ id hId key hKey value hValue
  exact ⟨hId, hKey, hValue⟩

theorem yields_callEntry :
    Yields call callEntry ShapedEntry := by
  refine Yields.apply
    (Yields.apply
      (Yields.apply
        (Yields.map (.any static) ?_)
        ((yields_typeParams hCalls).keepLeft ws))
      ((((yields_parenthesized hCalls).keepLeft ws).keepLeft
        (symbol ":")).keepLeft ws))
    (yields_type hCalls)
  intro s _ typeParams hTypeParams params hParams result hResult
  exact ⟨isFunction_makeFunction _ _ _,
    shaped_makeFunction hTypeParams hParams hResult⟩

/-
  A method is inverted part by part, because its key depends
  on what `static` and the sign were read as.
-/
theorem yields_methodEntry :
    Yields call methodEntry ShapedEntry := by
  intro xs e ys h
  rcases (reads_apply_eq_some_iff _ _ _ _ _ _).mp h with
    ⟨_, _, result, hToParams, hResult, rfl⟩
  rcases (reads_apply_eq_some_iff _ _ _ _ _ _).mp hToParams with
    ⟨_, _, params, hToTypeParams, hParams, rfl⟩
  rcases (reads_apply_eq_some_iff _ _ _ _ _ _).mp
    hToTypeParams with ⟨_, _, typeParams, hToKey, hTypeParams, rfl⟩
  rcases (reads_apply_eq_some_iff _ _ _ _ _ _).mp hToKey with
    ⟨_, _, key, hToSign, hKey, rfl⟩
  rcases (reads_apply_eq_some_iff _ _ _ _ _ _).mp hToSign with
    ⟨_, _, sign, hToStatic, hSign, rfl⟩
  rcases (reads_map_eq_some_iff _ _ _ _ _ _).mp hToStatic with
    ⟨isStatic, hStatic, rfl⟩
  simp only [reads_keepLeft_eq_some_iff] at hParams
  rcases hParams with ⟨_, _, ⟨_, _, ⟨_, _, hListed, -⟩, -⟩, -⟩
  refine ⟨⟨?_, ?_⟩, ?_⟩
  · exact (yields_propertyKey.keepLeft ws) _ _ _ hKey
  · intro _
    exact ⟨rfl, isFunction_makeFunction _ _ _,
      not_static_of_reads hStatic hSign hKey hTypeParams
        hListed⟩
  · exact shaped_makeFunction
      (((yields_typeParams hCalls).keepLeft ws) _ _ _
        hTypeParams)
      (yields_parenthesized hCalls _ _ _ hListed)
      (hCalls _ _ _ _ hResult)

theorem yields_fieldEntry :
    Yields call fieldEntry ShapedEntry := by
  refine Yields.apply
    (Yields.apply
      (Yields.apply
        (Yields.apply
          (Yields.map (.any static) ?_)
          (.any (Peg.optional variance)))
        (yields_propertyKey.keepLeft ws))
      (.any _))
    (yields_type hCalls)
  intro s _ sign _ key hKey optional _ value hValue
  exact ⟨⟨hKey, by simp⟩, hValue⟩

theorem yields_entries :
    Yields call entries (fun es => ∀ e ∈ es, ShapedEntry e) := by
  have hSpread : Yields call spreadEntry ShapedEntry :=
    Yields.map ((yields_type hCalls).keepRight _)
      (fun _ hType => ⟨trivial, hType⟩)
  have hInexact : Yields call inexactEntry ShapedEntry :=
    Yields.map (.any _) (fun _ _ => trivial)
  have hEntry : Yields call entry ShapedEntry :=
    hSpread.orElse
      (hInexact.orElse
        ((yields_indexerEntry hCalls).orElse
          ((yields_callEntry hCalls).orElse
            ((yields_methodEntry hCalls).orElse
              (yields_fieldEntry hCalls)))))
  exact (hEntry.sepBy _).keepLeft _

theorem yields_objectType :
    Yields call objectType Shaped :=
  Yields.orElse
    (Yields.map
      ((((yields_entries hCalls).keepRight _).keepLeft
        ws).keepLeft _)
      (fun _ => shaped_makeObject))
    (Yields.map
      ((((yields_entries hCalls).keepRight _).keepLeft
        ws).keepLeft _)
      (fun _ => shaped_makeObject))

theorem yields_primary : Yields call primary Shaped := by
  intro xs t ys h
  simp only [primary, reads_orElse_eq_some_iff] at h
  rcases h with hFunction | ⟨-, hGroup | ⟨-, hObject | ⟨-,
    hTuple | ⟨-, hTypeof | ⟨-, hString | ⟨-, hBigint | ⟨-,
    hNumber | ⟨-, hTrue | ⟨hNotTrue, hFalse | ⟨hNotFalse,
    hStar | ⟨-, hGeneric⟩⟩⟩⟩⟩⟩⟩⟩⟩⟩⟩
  · exact yields_functionType hCalls _ _ _ hFunction
  · exact ((((yields_type hCalls).keepRight _).keepLeft
      ws).keepLeft (symbol ")")) _ _ _ hGroup
  · exact yields_objectType hCalls _ _ _ hObject
  · exact yields_tuple hCalls _ _ _ hTuple
  · exact yields_typeofType _ _ _ hTypeof
  · rcases (reads_map_eq_some_iff _ _ _ _ _ _).mp hString with
      ⟨value, -, rfl⟩
    exact .stringLiteral value
  · rcases isBigint_of_reads call hBigint with
      ⟨cs, hSpelled, rfl⟩
    exact .bigintLiteral hSpelled
  · rcases isNumeral_of_reads call hNumber with
      ⟨cs, hSpelled, rfl⟩
    exact .numberLiteral hSpelled
  · rcases (reads_map_eq_some_iff _ _ _ _ _ _).mp hTrue with
      ⟨_, -, rfl⟩
    exact .booleanLiteral true
  · rcases (reads_map_eq_some_iff _ _ _ _ _ _).mp hFalse with
      ⟨_, -, rfl⟩
    exact .booleanLiteral false
  · rcases (reads_map_eq_some_iff _ _ _ _ _ _).mp hStar with
      ⟨_, -, rfl⟩
    exact .keyword .exists
  · refine shaped_of_reads_generic hCalls ?_ ?_ hGeneric
    · simpa only [reads_map, Option.map_eq_none_iff] using hNotTrue
    · simpa only [reads_map, Option.map_eq_none_iff] using hNotFalse

theorem yields_prefixed : Yields call prefixed Shaped := by
  have hBrackets :
      ∀ (brackets : List Unit) (t : FlowType), Shaped t →
        Shaped (brackets.foldl (fun t _ => .array t) t) := by
    intro brackets
    induction brackets with
    | nil => exact fun _ hType => hType
    | cons _ brackets ih => exact fun t hType => ih _ (.array hType)
  refine Yields.orElse
    (Yields.map (Yields.keepRight _ (hCalls .prefixed)) ?_)
    (Yields.apply (Yields.map (hCalls .primary) ?_) (.any _))
  · exact fun _ hInner => .nullable hInner
  · exact fun t hType brackets _ => hBrackets brackets t hType

end Readings

/- Everything that the rules read is shaped. -/
theorem shaped_of_reads
    {n : RuleName}
    {xs ys : List Char}
    {t : FlowType}
    (h : rules n xs = some (t, ys)) : Shaped t := by
  refine FlowType.grammar.reads_invariant
    (P := fun _ => Shaped) ?_ n xs t ys h
  intro call hCalls n
  cases n with
  | primary => exact yields_primary hCalls
  | prefixed => exact yields_prefixed hCalls
  | type =>
      exact yields_joinedBy (fun _ => .union)
        (yields_joinedBy (fun _ => .intersection)
          (hCalls .prefixed))

end Grammar

/- A type that a text is read as is shaped. -/
theorem shaped_of_parse
    {dialect : Dialect}
    {text : String}
    {t : FlowType}
    (h : FlowType.parse dialect text = .ok t) : Shaped t := by
  rcases (parse_eq_ok_iff_reads dialect text t).mp h with
    ⟨-, declared, hReads, rfl⟩
  rcases (Peg.reads_apply_eq_some_iff _ _ _ _ _ _).mp hReads with
    ⟨_, _, right, hLeft, hRight, rfl⟩
  rcases (Peg.reads_apply_eq_some_iff _ _ _ _ _ _).mp hLeft with
    ⟨_, _, _, hName, -, rfl⟩
  rcases (Peg.reads_map_eq_some_iff _ _ _ _ _ _).mp hName with
    ⟨_, -, rfl⟩
  rcases (Peg.reads_keepLeft_eq_some_iff _ _ _ _ _ _).mp
    hRight with ⟨_, _, hType, -⟩
  exact shaped_of_reads hType

end FlowType

end TypeGraft
