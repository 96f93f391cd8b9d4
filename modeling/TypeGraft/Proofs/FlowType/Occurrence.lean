import TypeGraft.Proofs.FlowType.Shape

/-
  Where types stand in types, and what holds there.

  A type that was read from text is made of types that were
  read, down to its names and literals.  `Lawful` says of one
  place what it may hold, without looking further into it.
  It holds at all places of a type that was read.

  Key definitions include:
    * `TypeName.words`
    * `Role`
    * `FlowType.typesIn`
    * `FlowType.Occurs`
    * `FlowType.Lawful`

  Main declarations:
    * `FlowType.shaped_of_mem_typesIn`
    * `FlowType.Occurs.shapedAs`
    * `FlowType.lawful_of_shapedAs`
    * `FlowType.lawful_of_parse`
-/

namespace TypeGraft

open FlowType.Grammar

------------------------------------------------------------
-- Names
------------------------------------------------------------

namespace TypeName

/- The words of a name, the outermost qualifier first. -/
def words : TypeName → List String
  | .simple name => [name]
  | .qualified qualifier name => qualifier.words ++ [name]

theorem words_foldl
    (name : TypeName)
    (parts : List String) :
    (parts.foldl qualified name).words =
      name.words ++ parts := by
  induction parts generalizing name with
  | nil => simp
  | cons part parts ih => simp [ih, words]

@[simp]
theorem words_ofParts
    (head : String)
    (parts : List String) :
    (ofParts head parts).words = head :: parts :=
  words_foldl (.simple head) parts

end TypeName

/- How a type stands in another one. -/
inductive Role where
  /- As a type. -/
  | type
  /- As the name of a value, behind `typeof`. -/
  | value
deriving DecidableEq, Repr

namespace FlowType

------------------------------------------------------------
-- Occurrences
------------------------------------------------------------

/- The types that stand directly in a type, as types. -/
def typesIn : FlowType → List FlowType
  | .generic _ args => args.getD []
  | .nullable inner => [inner]
  | .array element => [element]
  | .union members => members
  | .intersection members => members
  | .tuple members => members
  | .function typeParams params rest result =>
      (typeParams.getD []).flatMap
          (fun p => p.bound.toList ++ p.default.toList) ++
        (params ++ rest.toList).map Parameter.type ++ [result]
  | .object properties indexers calls _ _ =>
      properties.map propertyType ++
        indexers.flatMap (fun i => [i.key, i.value]) ++
        calls.map CallProperty.value
  | _ => []

/- A type stands in another one, at any depth. -/
inductive Occurs
    (t : FlowType) : Role → FlowType → Prop where
  | whole : Occurs t .type t
  | inside
      {role : Role}
      {u v : FlowType}
      (hOuter : Occurs t role u)
      (hIn : v ∈ u.typesIn) : Occurs t .type v
  | argument
      {role : Role}
      {v : FlowType}
      (hOuter : Occurs t role (.typeOf v)) : Occurs t .value v

------------------------------------------------------------
-- What Holds at one Place
------------------------------------------------------------

/- The words that are keyword types on their own. -/
def builtinWords : List String :=
  ["any", "mixed", "empty", "void", "null", "number", "string",
    "boolean", "bool", "symbol", "bigint"]

/-
  What a place of a type may hold.  Only the name of a value
  may be a keyword or start with `true` or `false`.
-/
def Lawful : Role → FlowType → Prop
  | .value, t =>
      ∃ name, t = .generic name none ∧
        ∀ word ∈ name.words, IsWord word
  | .type, .numberLiteral _ raw => raw ≠ ""
  | .type, .generic name args =>
      (∀ word ∈ name.words, IsWord word) ∧
        (∀ word ∈ name.words.head?,
          word ≠ "true" ∧ word ≠ "false") ∧
        (args = none →
          ∀ word, name = .simple word → word ∉ builtinWords)
  | .type, .union members => 2 ≤ members.length
  | .type, .intersection members => 2 ≤ members.length
  | .type, .function typeParams params rest _ =>
      (∀ ts, typeParams = some ts →
          ts ≠ [] ∧ ∀ p ∈ ts, IsWord p.name) ∧
        ∀ p ∈ params ++ rest.toList, NamesParameter p
  | .type, .object properties indexers calls _ _ =>
      (∀ p ∈ properties, NamesProperty p) ∧
        (∀ i ∈ indexers, ∀ id, i.id = some id → IsWord id) ∧
        ∀ c ∈ calls, IsFunction c.value
  | .type, _ => True

/- Keyword types are told from references by these words. -/
theorem not_mem_builtinWords
    {word : String}
    (h : keywordOf? word = none) : word ∉ builtinWords := by
  intro hMem
  simp only [builtinWords, List.mem_cons, List.not_mem_nil,
    or_false] at hMem
  rcases hMem with rfl | rfl | rfl | rfl | rfl | rfl | rfl | rfl |
    rfl | rfl | rfl <;> cases h

------------------------------------------------------------
-- Shapes at all Places
------------------------------------------------------------

/- A type that was read, or the name of a value. -/
def ShapedAs : Role → FlowType → Prop
  | .type, t => Shaped t
  | .value, t =>
      ∃ head parts, IsWord head ∧
        (∀ part ∈ parts, IsWord part) ∧
        t = .generic (.ofParts head parts) none

/- What stands in a shaped type is shaped. -/
theorem shaped_of_mem_typesIn
    {u v : FlowType}
    (hShaped : Shaped u)
    (hIn : v ∈ u.typesIn) : Shaped v := by
  cases hShaped with
  | @generic _ _ args _ _ _ _ hArgs =>
      cases args with
      | none => simp [typesIn] at hIn
      | some ts => exact hArgs ts rfl v hIn
  | nullable hInner =>
      rw [List.mem_singleton.1 hIn]
      exact hInner
  | array hElement =>
      rw [List.mem_singleton.1 hIn]
      exact hElement
  | union _ hMembers => exact hMembers v hIn
  | intersection _ hMembers => exact hMembers v hIn
  | tuple hMembers => exact hMembers v hIn
  | @function typeParams _ _ _ _ hBounds hDefaults _ hTypes _
      hRestType hResult =>
      simp only [typesIn, List.mem_append, List.mem_flatMap,
        List.mem_map, Option.mem_toList,
        List.mem_singleton] at hIn
      rcases hIn with (⟨p, hp, hBound | hDefault⟩ |
        ⟨p, hListed | hRest, rfl⟩) | rfl
      · cases typeParams with
        | none => simp at hp
        | some ts => exact hBounds ts rfl p hp v hBound
      · cases typeParams with
        | none => simp at hp
        | some ts => exact hDefaults ts rfl p hp v hDefault
      · exact hTypes p hListed
      · exact hRestType p hRest
      · exact hResult
  | object _ hTypes _ hKeys hValues _ hCalls =>
      simp only [typesIn, List.mem_append, List.mem_flatMap,
        List.mem_map, List.mem_cons, List.not_mem_nil,
        or_false] at hIn
      rcases hIn with (⟨p, hp, rfl⟩ | ⟨i, hi, rfl | rfl⟩) |
        ⟨c, hc, rfl⟩
      · exact hTypes p hp
      · exact hKeys i hi
      · exact hValues i hi
      · exact hCalls c hc
  | _ => simp [typesIn] at hIn

/-
  So is what stands in it at any depth.  The name of a value
  has no arguments, so nothing stands in it.
-/
theorem Occurs.shapedAs
    {t u : FlowType}
    {role : Role}
    (hOccurs : t.Occurs role u)
    (hShaped : Shaped t) : ShapedAs role u := by
  induction hOccurs with
  | whole => exact hShaped
  | @inside role u v _ hIn ih =>
      cases role with
      | type => exact shaped_of_mem_typesIn ih hIn
      | value =>
          rcases ih with ⟨head, parts, -, -, rfl⟩
          simp [typesIn] at hIn
  | @argument role v _ ih =>
      cases role with
      | type =>
          cases ih with
          | typeOf hHead hParts => exact ⟨_, _, hHead, hParts, rfl⟩
      | value =>
          rcases ih with ⟨head, parts, -, -, hEq⟩
          cases hEq

/- What is shaped at a place is what the place may hold. -/
theorem lawful_of_shapedAs
    {role : Role}
    {u : FlowType}
    (h : ShapedAs role u) : Lawful role u := by
  have hWords :
      ∀ head parts, IsWord head → (∀ part ∈ parts, IsWord part) →
        ∀ word ∈ (TypeName.ofParts head parts).words,
          IsWord word := by
    intro head parts hHead hParts
    rw [TypeName.words_ofParts, List.forall_mem_cons]
    exact ⟨hHead, hParts⟩
  cases role with
  | value =>
      rcases h with ⟨head, parts, hHead, hParts, rfl⟩
      exact ⟨_, rfl, hWords head parts hHead hParts⟩
  | type =>
      cases h with
      | @numberLiteral cs hNumeral =>
          rcases hNumeral with ⟨m, ds, f, p, -, hDigits, -, -, rfl⟩
          simp [Lawful, hDigits.1]
      | @generic head parts args hHead hParts hLiteral hKeyword _ =>
          refine ⟨hWords head parts hHead hParts, ?_, ?_⟩
          · simpa using hLiteral
          · intro hNone word hSimple
            have hSame := congrArg TypeName.words hSimple
            rw [TypeName.words_ofParts] at hSame
            cases hSame
            exact not_mem_builtinWords (hKeyword hNone rfl)
      | union hTwo _ => exact hTwo
      | intersection hTwo _ => exact hTwo
      | function hDeclared _ _ hNames _ hRestName _ _ =>
          refine ⟨hDeclared, ?_⟩
          intro p hp
          rcases List.mem_append.1 hp with hListed | hRest
          · exact hNames p hListed
          · exact hRestName p (Option.mem_toList.1 hRest)
      | object hNames _ hIds _ _ hFunctions _ =>
          exact ⟨hNames, hIds, hFunctions⟩
      | _ => trivial

/-
  Every place of a type that a text is read as holds what it
  may hold.
-/
theorem lawful_of_parse
    {dialect : Dialect}
    {text : String}
    {t u : FlowType}
    {role : Role}
    (hParse : FlowType.parse dialect text = .ok t)
    (hOccurs : t.Occurs role u) : Lawful role u :=
  lawful_of_shapedAs (hOccurs.shapedAs (shaped_of_parse hParse))

/-
  The name behind `typeof` in the parameter of a function, and
  the default in the type parameter of a method of its result.
-/
def nestedPlaces? : FlowType → Option (FlowType × FlowType)
  | .function _ [⟨_, _, .typeOf u⟩] _
      (.object
        [.entry _ (.function (some [⟨_, _, _, some v⟩]) _ _ _)
          _ _ _ _] _ _ _ _) =>
      some (u, v)
  | _ => none

theorem occurs_of_nestedPlaces?
    {t u v : FlowType}
    (h : nestedPlaces? t = some (u, v)) :
    t.Occurs .value u ∧ t.Occurs .type v := by
  unfold nestedPlaces? at h
  split at h
  · cases h
    constructor
    · refine @Occurs.argument _ .type _ (.inside .whole ?_)
      simp [typesIn]
    · refine .inside (.inside (.inside .whole
        (List.mem_append_right _ (List.mem_singleton_self _)))
        List.mem_cons_self) ?_
      simp [typesIn, propertyType]
  · cases h

/-
  The name behind `typeof` starts with `true`, and the default
  is a tuple.
-/
theorem lawful_of_parse_nested :
    ∃ t u v,
      FlowType.parse {}
          "(x?: typeof true.any) => \x7b| m<T: ?B = [c.d]>(): 1 |\x7d" =
        .ok t ∧
      t.Occurs .value u ∧ u.text = "true.any" ∧
      t.Occurs .type v ∧ v.text = "[c.d]" ∧
      Lawful .value u ∧ Lawful .type v := by
  have hRead :
      ((FlowType.parse {}
          "(x?: typeof true.any) => \x7b| m<T: ?B = [c.d]>(): 1 |\x7d").toOption.bind
        (fun t => (nestedPlaces? t).map
          (fun places => (places.1.text, places.2.text)))) =
        some ("true.any", "[c.d]") := by
    decide +kernel
  rcases Option.bind_eq_some_iff.1 hRead with ⟨t, hOk, hTexts⟩
  rcases Option.map_eq_some_iff.1 hTexts with
    ⟨⟨u, v⟩, hPlaces, hTexts⟩
  rcases occurs_of_nestedPlaces? hPlaces with ⟨hValue, hType⟩
  rcases Prod.mk.inj hTexts with ⟨hName, hTuple⟩
  have hParse := eq_ok_of_toOption hOk
  exact ⟨t, u, v, hParse, hValue, hName, hType, hTuple,
    lawful_of_parse hParse hValue, lawful_of_parse hParse hType⟩

end FlowType

end TypeGraft
