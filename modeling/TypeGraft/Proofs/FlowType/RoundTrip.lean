import TypeGraft.Proofs.FlowType.Object
import TypeGraft.Proofs.FlowType.Spacing

/-
  A type that was read from a text is read again from the
  text that it is printed as.

  The proof goes by induction on the shape of the type.  A
  type has a level of its own: in tighter contexts it is
  printed as a group, and in looser ones what reads it also
  reads it there.

  Main declarations:
    * `FlowType.Readable`
    * `FlowType.readable_of_shaped`
    * `FlowType.render_append`
    * `FlowType.parse_text_of_parse`
-/

namespace TypeGraft

open FlowType.Grammar

namespace FlowType

------------------------------------------------------------
-- Levels
------------------------------------------------------------

/- What reads a type at a level. -/
def readsAt :
    Level → List Char → Option (FlowType × List Char)
  | .whole => rules .type
  | .union => rules .type
  | .intersection => Grammar.intersection.reads rules
  | .unary => rules .prefixed
  | .atom => rules .primary

theorem reads_prefixed_of_primary
    {text after : List Char}
    {t : FlowType}
    (h : rules .primary text = some (t, after))
    (hStop : Stop .unary after) :
    rules .prefixed text = some (t, after) :=
  reads_prefixed_of_arrayed
    (reads_arrayed_of_primary (k := 0) h hStop)

/- What is read at a level is read at all looser levels. -/
theorem readsAt_of_le
    {own l : Level}
    {text after : List Char}
    {t : FlowType}
    (h : readsAt own text = some (t, after))
    (hStop : Stop l after)
    (hRank : l.rank ≤ own.rank) :
    readsAt l text = some (t, after) := by
  have hUnary :
      3 ≤ own.rank → l.rank ≤ 3 →
        readsAt .unary text = some (t, after) := by
    intro hOwn hl
    cases own with
    | unary => exact h
    | atom => exact reads_prefixed_of_primary h (hStop.mono hl)
    | _ => simp [Level.rank] at hOwn
  have hIntersection :
      2 ≤ own.rank → l.rank ≤ 2 →
        readsAt .intersection text = some (t, after) := by
    intro hOwn hl
    by_cases hTight : 3 ≤ own.rank
    · exact reads_intersection_of_prefixed
        (hUnary hTight (by omega)) (hStop.mono hl)
    · cases own with
      | intersection => exact h
      | _ => simp [Level.rank] at hOwn hTight
  have hType :
      l.rank ≤ 1 → readsAt .whole text = some (t, after) := by
    intro hl
    by_cases hTight : 2 ≤ own.rank
    · exact reads_type_of_intersection
        (hIntersection hTight (by omega)) (hStop.mono hl)
    · cases own with
      | whole => exact h
      | union => exact h
      | _ => simp [Level.rank] at hTight
  cases l with
  | whole => exact hType (by decide)
  | union => exact hType (by decide)
  | intersection => exact hIntersection hRank (by decide)
  | unary => exact hUnary hRank (by decide)
  | atom =>
      cases own with
      | atom => exact h
      | _ => simp [Level.rank] at hRank

/-
  The type is read back in every context.  As an atom it may
  have brackets behind it, which make arrays of it.
-/
structure Readable
    (t : FlowType) : Prop where
  loose :
    ∀ l after, l.rank ≤ 3 → Stop l after →
      readsAt l (render l t after) = some (t, after)
  atom :
    ∀ k after, Stop .unary after →
      arrayed.reads rules
          (render .atom t (bracketed k after)) =
        some (arrays k t, after)

theorem Readable.back
    {t : FlowType}
    (h : Readable t)
    (hShaped : Shaped t) : Back t :=
  ⟨hShaped, fun after hStop => h.loose .whole after (by decide) hStop⟩

/-
  A type is read back everywhere if it is read back at its
  own level: in tighter contexts it is a group.
-/
theorem readable_of_own
    {own : Level}
    {t : FlowType}
    {body : List Char → List Char}
    (hShaped : Shaped t)
    (hRender :
      ∀ l after, render l t after = enclose own l body after)
    (hOwn :
      ∀ after, Stop own after →
        readsAt own (body after) = some (t, after)) :
    Readable t := by
  have hWhole : ∀ after, render .whole t after = body after := by
    intro after
    rw [hRender, enclose]
    exact if_neg (Nat.not_lt_zero _)
  have hBack : Back t := by
    refine ⟨hShaped, fun after hStop => ?_⟩
    rw [hWhole]
    exact readsAt_of_le
      (hOwn after (hStop.mono (Nat.zero_le _))) hStop
      (Nat.zero_le _)
  have hAll :
      ∀ l after, Stop l after →
        readsAt l (render l t after) = some (t, after) := by
    intro l after hStop
    rw [hRender, enclose]
    split
    · have hAtom : l.rank ≤ Level.atom.rank := by
        cases l <;> decide
      have hGroup :
          readsAt .atom ('(' :: body (')' :: after)) =
            some (t, after) := by
        rw [← hWhole]
        exact reads_primary_group hBack (hStop.mono hAtom)
      exact readsAt_of_le hGroup hStop hAtom
    · rename_i hTight
      have hRank := Nat.le_of_not_lt hTight
      exact readsAt_of_le (hOwn after (hStop.mono hRank)) hStop
        hRank
  refine ⟨fun l after _ => hAll l after, ?_⟩
  intro k after hStop
  exact reads_arrayed_of_primary
    (hAll .atom _ (stop_bracketed hStop k)) hStop

/- The same for types that never need parentheses. -/
theorem readable_of_primary
    {t : FlowType}
    {body : List Char → List Char}
    (hShaped : Shaped t)
    (hRender : ∀ l after, render l t after = body after)
    (hPrimary :
      ∀ after, Stop .atom after →
        rules .primary (body after) = some (t, after)) :
    Readable t := by
  refine @readable_of_own .atom t body hShaped ?_ hPrimary
  intro l after
  rw [hRender, enclose, if_neg]
  cases l <;> decide

theorem readable_array
    {t : FlowType}
    (h : Readable t) : Readable (.array t) where
  loose := by
    intro l after hl hStop
    rw [render]
    have hArray := h.atom 1 after (hStop.mono hl)
    have hUnary : readsAt .unary _ = some (.array t, after) :=
      reads_prefixed_of_arrayed hArray
    exact readsAt_of_le hUnary hStop hl
  atom := by
    intro k after hStop
    rw [render]
    exact h.atom (k + 1) after hStop

------------------------------------------------------------
-- Joined Types
------------------------------------------------------------

/- Types that are joined by a mark are read back. -/
theorem reads_joinedBy_renderEach
    {mark : String}
    {m : Char}
    {join : List FlowType → FlowType}
    {item : Grammar.Rule FlowType}
    {inner : Level}
    {ts : List FlowType}
    {after : List Char}
    (hMark : mark.toList = [m])
    (hSpacing : spacing m = false)
    (hReads : item.nullable = false)
    (hStarts : item.starts first m = false)
    (hItem : item.reads rules = readsAt inner)
    (hInner : inner.rank ≤ 3)
    (hMore : ∀ more, Stop inner (' ' :: m :: ' ' :: more))
    (hTwo : 2 ≤ ts.length)
    (hShaped : ∀ t ∈ ts, Shaped t)
    (hMembers : ∀ t ∈ ts, Readable t)
    (hStop : Stop inner after)
    (hEnd :
      (ws *> Peg.symbol mark *> ws *> item).reads rules after =
        none) :
    (joinedBy mark join item).reads rules
        (renderEach [' ', m, ' '] inner true ts after) =
      some (join ts, after) := by
  have hRest :
      ∀ rest, EndOrMore [' ', m, ' '] after rest →
        Stop inner rest := by
    rintro rest (rfl | ⟨more, rfl⟩)
    · exact hStop
    · exact hMore more
  have hBack :
      ∀ t ∈ ts, ∀ rest, EndOrMore [' ', m, ' '] after rest →
        item.reads rules (render inner t rest) =
          some (t, rest) := by
    intro t ht rest hEnds
    rw [hItem]
    exact (hMembers t ht).loose inner rest hInner
      (hRest rest hEnds)
  rw [renderEach_eq_writeEach]
  match ts, hTwo with
  | t :: u :: us, _ =>
      refine reads_joinedBy (render inner) (u :: us) hMark
        hSpacing hReads hStarts ?_ ?_ ?_ hEnd
      · exact hBack t (by simp) _
          (endOrMore_writeEach _ (render inner) (u :: us) after)
      · intro v hv rest hEnds
        exact (leads_render
          (hShaped v (List.mem_cons_of_mem t hv)) inner
          (hRest rest hEnds).quiet).spaced
      · exact fun v hv => hBack v (List.mem_cons_of_mem t hv)

theorem readable_union
    {ts : List FlowType}
    (hTwo : 2 ≤ ts.length)
    (hShaped : ∀ t ∈ ts, Shaped t)
    (hMembers : ∀ t ∈ ts, Readable t) :
    Readable (.union ts) := by
  refine readable_of_own (.union hTwo hShaped)
    (fun l after => by rw [render]) ?_
  intro after hStop
  change rules .type _ = _
  rw [rules_type]
  exact reads_joinedBy_renderEach rfl rfl rfl rfl rfl (by decide)
    (fun more => .bar (by decide) more) hTwo hShaped hMembers
    (hStop.mono (by decide)) (hStop.reads_bar (by decide))

theorem readable_intersection
    {ts : List FlowType}
    (hTwo : 2 ≤ ts.length)
    (hShaped : ∀ t ∈ ts, Shaped t)
    (hMembers : ∀ t ∈ ts, Readable t) :
    Readable (.intersection ts) := by
  refine readable_of_own (.intersection hTwo hShaped)
    (fun l after => by rw [render]) ?_
  intro after hStop
  exact reads_joinedBy_renderEach rfl rfl rfl rfl rfl (by decide)
    (fun more => .ampersand (by decide) more) hTwo hShaped
    hMembers (hStop.mono (by decide))
    (hStop.reads_ampersand (by decide))

theorem readable_nullable
    {t : FlowType}
    (hShaped : Shaped t)
    (h : Readable t) : Readable (.nullable t) := by
  refine @readable_of_own .unary _ _ (.nullable hShaped)
    (fun l after => by rw [render]) ?_
  intro after hStop
  have hInner := h.loose .unary after (by decide) hStop
  have hSkip :=
    skip_of_avoids (leads_render hShaped .unary hStop.quiet).spaced
  change rules .prefixed _ = _ at hInner ⊢
  rw [rules_prefixed]
  simp [prefixed, Cursor.dropLiteral, hSkip, hInner]

theorem readable_function
    {typeParams : Option (List (TypeParameter FlowType))}
    {params : List (Parameter FlowType)}
    {rest : Option (Parameter FlowType)}
    {result : FlowType}
    (hShaped : Shaped (.function typeParams params rest result))
    (hBack : BackSignature typeParams params rest result) :
    Readable (.function typeParams params rest result) := by
  refine @readable_of_own .whole _ _ hShaped
    (fun l after => by rw [render]) ?_
  intro after hStop
  have hFunction := reads_functionType hBack hStop
  have hPrimary :
      readsAt .atom
          (renderTypeParams typeParams
            (writeParameters params rest
              (" => ".toList ++ render .whole result after))) =
        some (.function typeParams params rest result, after) := by
    change rules .primary _ = _
    rw [rules_primary, primary, Peg.reads_orElse, hFunction]
    rfl
  exact readsAt_of_le hPrimary hStop (Nat.zero_le _)

theorem readable_object
    {properties : List (Property FlowType)}
    {indexers : List (Indexer FlowType)}
    {calls : List (CallProperty FlowType)}
    {exact inexact : Bool}
    (hShaped :
      Shaped
        (.object properties indexers calls exact inexact))
    (hBack :
      ∀ e ∈ entriesOf properties indexers calls inexact,
        BackEntry e) :
    Readable
      (.object properties indexers calls exact inexact) := by
  refine readable_of_primary hShaped
    (fun l => render_object l _ _ _ _ _) ?_
  intro after _
  have hObject := reads_objectType exact hBack after
  rw [makeObject_entriesOf] at hObject
  obtain ⟨xs, hText⟩ :
      ∃ xs,
        writeObject exact
            (entriesOf properties indexers calls inexact) after =
          '\x7b' :: xs := by
    cases exact <;> exact ⟨_, rfl⟩
  rw [hText] at hObject ⊢
  have hOther :
      (functionType <|> group).reads rules ('\x7b' :: xs) =
        none :=
    reads_eq_none rfl rfl
  rw [Peg.reads_orElse, Option.or_eq_none_iff] at hOther
  rw [rules_primary, primary]
  simp [hOther, hObject]

theorem readable_tuple
    {ts : List FlowType}
    (hShaped : ∀ t ∈ ts, Shaped t)
    (hMembers : ∀ t ∈ ts, Readable t) :
    Readable (.tuple ts) := by
  refine readable_of_primary (.tuple hShaped)
    (fun l after => by rw [render]) ?_
  intro after _
  have hTuple :=
    reads_tuple
      (fun t ht => (hMembers t ht).back (hShaped t ht)) after
  generalize
    renderEach [',', ' '] .whole true ts (']' :: after) = xs
    at hTuple ⊢
  have hOther :
      (functionType <|> group <|> objectType).reads rules
        ('[' :: xs) = none :=
    reads_eq_none rfl rfl
  simp only [Peg.reads_orElse, Option.or_eq_none_iff] at hOther
  rw [rules_primary, primary]
  simp [hOther, hTuple]

theorem readable_generic
    {head : String}
    {parts : List String}
    {args : Option (List FlowType)}
    (hShaped : Shaped (.generic (.ofParts head parts) args))
    (hHead : IsWord head)
    (hParts : ∀ part ∈ parts, IsWord part)
    (hLiteral : head ≠ "true" ∧ head ≠ "false")
    (hKeyword :
      args = none → parts = [] → keywordOf? head = none)
    (hArgs : ∀ ts, args = some ts → ∀ t ∈ ts, Back t) :
    Readable (.generic (.ofParts head parts) args) := by
  cases args with
  | none =>
      refine readable_of_primary hShaped
        (fun l after => by rw [render]) ?_
      intro after hStop
      rw [reads_primary_name hHead hLiteral
          hStop.apart.of_goesOn hStop.avoids_isIdentStart,
        reads_generic_bare hHead hParts hStop,
        reference_ofParts (hKeyword rfl)]
  | some ts =>
      refine readable_of_primary hShaped
        (fun l after => by rw [render]) ?_
      intro after _
      have hRead := reads_typeArgs (hArgs ts rfl) after
      rw [reads_primary_name hHead hLiteral
          ((avoids_cons _ _ _).mpr rfl),
        reads_generic_applied hHead hParts hRead]
      rw [skip_cons rfl]
      exact (avoids_cons _ _ _).mpr rfl

theorem readable_boolean
    (value : Bool) : Readable (.booleanLiteral value) := by
  have hWord :
      ∀ w, IsWord w → w = "true" ∨ w = "false" →
        ∀ after, Stop .atom after →
          rules .primary (w.toList ++ after) =
            some (.booleanLiteral (w = "true"), after) := by
    intro w hWord hLiteral after hStop
    rw [reads_primary_word hWord hStop.apart.of_goesOn
      hStop.avoids_isIdentStart]
    rcases hLiteral with rfl | rfl <;> rfl
  cases value with
  | true =>
      exact readable_of_primary (.booleanLiteral true)
        (fun l after => by rw [render])
        (hWord "true" ⟨_, _, rfl, by decide, by decide⟩
          (.inl rfl))
  | false =>
      exact readable_of_primary (.booleanLiteral false)
        (fun l after => by rw [render])
        (hWord "false" ⟨_, _, rfl, by decide, by decide⟩
          (.inr rfl))

theorem readable_typeOf
    {head : String}
    {parts : List String}
    (hHead : IsWord head)
    (hParts : ∀ part ∈ parts, IsWord part) :
    Readable (.typeOf (.generic (.ofParts head parts) none)) := by
  refine @readable_of_own .unary _ _ (.typeOf hHead hParts)
    (fun l => render_typeOf l _) ?_
  intro after hStop
  have hPrimary :=
    reads_primary_typeof hHead hParts (hStop.mono (by decide))
  exact reads_prefixed_of_primary hPrimary hStop

theorem readable_number
    {cs : List Char}
    (hNumeral : IsNumeral cs) :
    Readable
      (.numberLiteral (Binary64.ofText cs) (String.ofList cs)) := by
  have hNil : cs ≠ [] := by
    rcases hNumeral with ⟨m, ds, f, p, -, hDigits, -, -, rfl⟩
    simp [hDigits.1]
  exact readable_of_primary (.numberLiteral hNumeral)
    (fun l after => render_numeral hNil)
    (fun after => reads_primary_number hNumeral)

theorem readable_bigint
    {cs : List Char}
    (hBigint : IsBigint cs) :
    Readable (.bigintLiteral (String.ofList cs)) := by
  refine @readable_of_primary _ (fun after => cs ++ after)
    (.bigintLiteral hBigint) ?_
    (fun after => reads_primary_bigint hBigint)
  intro l after
  rw [render, String.toList_ofList]

/-
  The signature of a function is read back.  Methods and call
  properties show it with a colon, so it is needed apart from
  the type.
-/
def SignatureBack : FlowType → Prop
  | .function typeParams params rest result =>
      BackSignature typeParams params rest result
  | _ => True

/- The members of an object are read back. -/
theorem backEntry_of_mem
    {properties : List (Property FlowType)}
    {indexers : List (Indexer FlowType)}
    {calls : List (CallProperty FlowType)}
    {inexact : Bool}
    (hNames : ∀ p ∈ properties, NamesProperty p)
    (hTypes : ∀ p ∈ properties, Back (propertyType p))
    (hMethods : ∀ p ∈ properties, SignatureBack (propertyType p))
    (hIds : ∀ i ∈ indexers, ∀ id, i.id = some id → IsWord id)
    (hKeys : ∀ i ∈ indexers, Back i.key)
    (hValues : ∀ i ∈ indexers, Back i.value)
    (hFunctions : ∀ c ∈ calls, IsFunction c.value)
    (hCalls : ∀ c ∈ calls, SignatureBack c.value) :
    ∀ e ∈ entriesOf properties indexers calls inexact,
      BackEntry e := by
  intro e he
  simp only [entriesOf, List.mem_append, List.mem_map] at he
  rcases he with ⟨p, hp, rfl⟩ | ⟨i, hi, rfl⟩ | ⟨c, hc, rfl⟩ | he
  · have hBack := hTypes p hp
    cases p with
    | spread argument => exact hBack
    | entry key value isOptional method isStatic v =>
        have hNamed := hNames _ hp
        refine ⟨hNamed.1, fun _ => hBack, ?_⟩
        intro hMethod
        rcases hNamed.2 hMethod with
          ⟨hRequired, ⟨typeParams, params, rest, result, rfl⟩,
            hStatic⟩
        exact ⟨hRequired, hStatic, typeParams, params, rest,
          result, rfl, hMethods _ hp⟩
  · exact ⟨hIds i hi, hKeys i hi, hValues i hi⟩
  · rcases hFunctions c hc with
      ⟨typeParams, params, rest, result, hValue⟩
    have hBack := hCalls c hc
    rw [hValue] at hBack
    exact ⟨typeParams, params, rest, result, hValue, hBack⟩
  · cases inexact with
    | false => simp at he
    | true =>
        have hEq : e = .inexact := by simpa using he
        rw [hEq]
        trivial

------------------------------------------------------------
-- All Shaped Types
------------------------------------------------------------

/- Every shaped type is read back, and so is its signature. -/
theorem readable_of_shaped
    {t : FlowType}
    (hShaped : Shaped t) :
    Readable t ∧ SignatureBack t := by
  induction hShaped with
  | keyword word =>
      exact ⟨readable_of_primary (.keyword word)
        (fun l after => by rw [render])
        (fun after => reads_primary_keyword word), trivial⟩
  | stringLiteral value =>
      exact ⟨readable_of_primary (.stringLiteral value)
        (fun l after => by rw [render])
        (fun after _ => reads_primary_string value after), trivial⟩
  | numberLiteral hNumeral =>
      exact ⟨readable_number hNumeral, trivial⟩
  | bigintLiteral hBigint =>
      exact ⟨readable_bigint hBigint, trivial⟩
  | booleanLiteral value => exact ⟨readable_boolean value, trivial⟩
  | generic hHead hParts hLiteral hKeyword hArgs ih =>
      refine ⟨?_, trivial⟩
      refine readable_generic
        (.generic hHead hParts hLiteral hKeyword hArgs) hHead
        hParts hLiteral hKeyword ?_
      intro ts hSome t ht
      exact (ih ts hSome t ht).1.back (hArgs ts hSome t ht)
  | typeOf hHead hParts =>
      exact ⟨readable_typeOf hHead hParts, trivial⟩
  | nullable hInner ih =>
      exact ⟨readable_nullable hInner ih.1, trivial⟩
  | array hElement ih => exact ⟨readable_array ih.1, trivial⟩
  | union hTwo hMembers ih =>
      exact ⟨readable_union hTwo hMembers
        (fun t ht => (ih t ht).1), trivial⟩
  | intersection hTwo hMembers ih =>
      exact ⟨readable_intersection hTwo hMembers
        (fun t ht => (ih t ht).1), trivial⟩
  | tuple hMembers ih =>
      exact ⟨readable_tuple hMembers
        (fun t ht => (ih t ht).1), trivial⟩
  | function hDeclared hBounds hDefaults hNames hTypes hRestName
      hRestType hResult ihBounds ihDefaults ihTypes ihRest
      ihResult =>
      have hBack : BackSignature _ _ _ _ := {
        typeParams := fun ts hSome =>
          ⟨(hDeclared ts hSome).1, fun p hp =>
            { name := (hDeclared ts hSome).2 p hp
              bound := fun t ht =>
                (ihBounds ts hSome p hp t ht).1.back
                  (hBounds ts hSome p hp t ht)
              default := fun t ht =>
                (ihDefaults ts hSome p hp t ht).1.back
                  (hDefaults ts hSome p hp t ht) }⟩
        params := fun p hp =>
          ⟨hNames p hp, (ihTypes p hp).1.back (hTypes p hp)⟩
        rest := fun p hp =>
          ⟨hRestName p hp, (ihRest p hp).1.back (hRestType p hp)⟩
        result := ihResult.1.back hResult }
      refine ⟨readable_function ?_ hBack, hBack⟩
      exact .function hDeclared hBounds hDefaults hNames hTypes
        hRestName hRestType hResult
  | object hNames hTypes hIds hKeys hValues hFunctions hCalls
      ihTypes ihKeys ihValues ihCalls =>
      refine ⟨readable_object ?_ ?_, trivial⟩
      · exact .object hNames hTypes hIds hKeys hValues hFunctions
          hCalls
      · exact backEntry_of_mem hNames
          (fun p hp => (ihTypes p hp).1.back (hTypes p hp))
          (fun p hp => (ihTypes p hp).2) hIds
          (fun i hi => (ihKeys i hi).1.back (hKeys i hi))
          (fun i hi => (ihValues i hi).1.back (hValues i hi))
          hFunctions (fun c hc => (ihCalls c hc).2)

theorem back_of_shaped
    {t : FlowType}
    (hShaped : Shaped t) : Back t :=
  (readable_of_shaped hShaped).1.back hShaped

------------------------------------------------------------
-- Texts
------------------------------------------------------------

theorem renderName_append
    (name : TypeName)
    (after more : List Char) :
    name.render (after ++ more) = name.render after ++ more := by
  induction name generalizing after with
  | simple name => simp [TypeName.render]
  | qualified qualifier name ih =>
      rw [TypeName.render, TypeName.render, ← ih]
      simp

theorem enclose_append
    {own context : Level}
    {body : List Char → List Char}
    (hBody :
      ∀ after more, body (after ++ more) = body after ++ more)
    (after more : List Char) :
    enclose own context body (after ++ more) =
      enclose own context body after ++ more := by
  unfold enclose
  split
  · rw [← List.cons_append, hBody, List.cons_append]
  · exact hBody after more

mutual

/- What stands behind a type is not changed by printing. -/
theorem render_append
    (l : Level)
    (t : FlowType)
    (after more : List Char) :
    render l t (after ++ more) = render l t after ++ more := by
  match t with
  | .keyword word => simp [render]
  | .stringLiteral value => simp [render]
  | .numberLiteral value raw =>
      simp only [render]
      split <;> simp
  | .bigintLiteral text => simp [render]
  | .booleanLiteral true => simp [render]
  | .booleanLiteral false => simp [render]
  | .generic name none => simp [render, renderName_append]
  | .generic name (some args) =>
      simp only [render, ← renderName_append]
      rw [← List.cons_append, renderEach_append]
      simp
  | .typeOf argument =>
      simp only [render]
      apply enclose_append
      intro after more
      rw [render_append .atom argument]
      simp
  | .nullable inner =>
      simp only [render]
      apply enclose_append
      intro after more
      rw [render_append .unary inner]
      simp
  | .array element =>
      simp only [render]
      rw [← List.cons_append, ← List.cons_append,
        render_append .atom element]
  | .union members =>
      simp only [render]
      exact enclose_append (renderEach_append _ _ _ members)
        after more
  | .intersection members =>
      simp only [render]
      exact enclose_append (renderEach_append _ _ _ members)
        after more
  | .tuple members =>
      simp only [render]
      rw [← List.cons_append, renderEach_append]
      simp
  | .function typeParams params rest result =>
      simp only [render]
      apply enclose_append
      intro after more
      rw [render_append .whole result, ← List.append_assoc,
        renderRest_append _ rest, renderParams_append _ params,
        ← List.cons_append, renderTypeParams_append typeParams]
  | .object properties indexers calls exact inexact =>
      simp only [render]
      rw [← List.append_assoc (_ ++ _) after more,
        renderCalls_append _ calls,
        renderIndexers_append _ indexers,
        renderProperties_append _ properties]
      simp

theorem renderEach_append
    (separator : List Char)
    (l : Level)
    (isFirst : Bool)
    (ts : List FlowType)
    (after more : List Char) :
    renderEach separator l isFirst ts (after ++ more) =
      renderEach separator l isFirst ts after ++ more := by
  match ts with
  | [] => simp [renderEach]
  | t :: ts =>
      simp only [renderEach]
      rw [renderEach_append separator l false ts,
        render_append l t]
      simp

theorem renderTypeParams_append
    (typeParams : Option (List (TypeParameter FlowType)))
    (after more : List Char) :
    renderTypeParams typeParams (after ++ more) =
      renderTypeParams typeParams after ++ more := by
  match typeParams with
  | none => simp [renderTypeParams]
  | some ts =>
      simp only [renderTypeParams]
      rw [← List.cons_append, renderTypeParamList_append true ts]
      simp

theorem renderTypeParamList_append
    (isFirst : Bool)
    (ts : List (TypeParameter FlowType))
    (after more : List Char) :
    renderTypeParamList isFirst ts (after ++ more) =
      renderTypeParamList isFirst ts after ++ more := by
  match ts with
  | [] => simp [renderTypeParamList]
  | ⟨name, variance, bound, default⟩ :: ts =>
      simp only [renderTypeParamList]
      rw [renderTypeParamList_append false ts,
        renderAfter_append _ default, renderAfter_append _ bound]
      simp

theorem renderAfter_append
    (head : List Char)
    (o : Option FlowType)
    (after more : List Char) :
    renderAfter head o (after ++ more) =
      renderAfter head o after ++ more := by
  match o with
  | none => simp [renderAfter]
  | some t =>
      simp only [renderAfter]
      rw [render_append .whole t]
      simp

theorem renderParams_append
    (isFirst : Bool)
    (ps : List (Parameter FlowType))
    (after more : List Char) :
    renderParams isFirst ps (after ++ more) =
      renderParams isFirst ps after ++ more := by
  match ps with
  | [] => simp [renderParams]
  | ⟨name, isOptional, type⟩ :: ps =>
      simp only [renderParams]
      rw [renderParams_append false ps, render_append .whole type]
      simp

theorem renderRest_append
    (isFirst : Bool)
    (r : Option (Parameter FlowType))
    (after more : List Char) :
    renderRest isFirst r (after ++ more) =
      renderRest isFirst r after ++ more := by
  match r with
  | none => simp [renderRest]
  | some ⟨name, isOptional, type⟩ =>
      simp only [renderRest]
      rw [render_append .whole type]
      simp

theorem renderProperties_append
    (isFirst : Bool)
    (ps : List (Property FlowType))
    (after more : List Char) :
    renderProperties isFirst ps (after ++ more) =
      renderProperties isFirst ps after ++ more := by
  match ps with
  | [] => simp [renderProperties]
  | .spread argument :: ps =>
      simp only [renderProperties]
      rw [renderProperties_append false ps,
        render_append .whole argument]
      simp
  | .entry key value isOptional false isStatic v :: ps =>
      simp only [renderProperties]
      rw [renderProperties_append false ps,
        render_append .whole value]
      simp
  | .entry key value isOptional true isStatic v :: ps =>
      have hRest := renderProperties_append false ps
      have hValue := render_append .whole value
      cases value with
      | function typeParams params rest result =>
          simp only [renderProperties]
          rw [hRest, render_append .whole result,
            ← List.append_assoc, renderRest_append _ rest,
            renderParams_append _ params, ← List.cons_append,
            renderTypeParams_append typeParams]
          simp
      | _ =>
          simp only [renderProperties]
          rw [hRest, hValue]
          simp

theorem renderIndexers_append
    (isFirst : Bool)
    (is : List (Indexer FlowType))
    (after more : List Char) :
    renderIndexers isFirst is (after ++ more) =
      renderIndexers isFirst is after ++ more := by
  match is with
  | [] => simp [renderIndexers]
  | ⟨id, key, value, variance⟩ :: is =>
      simp only [renderIndexers]
      rw [renderIndexers_append false is,
        render_append .whole value, ← List.append_assoc,
        render_append .whole key]
      simp

theorem renderCalls_append
    (isFirst : Bool)
    (cs : List (CallProperty FlowType))
    (after more : List Char) :
    renderCalls isFirst cs (after ++ more) =
      renderCalls isFirst cs after ++ more := by
  match cs with
  | [] => simp [renderCalls]
  | ⟨value, isStatic⟩ :: cs =>
      have hRest := renderCalls_append false cs
      have hValue := render_append .whole value
      cases value with
      | function typeParams params rest result =>
          simp only [renderCalls]
          rw [hRest, render_append .whole result,
            ← List.append_assoc, renderRest_append _ rest,
            renderParams_append _ params, ← List.cons_append,
            renderTypeParams_append typeParams]
          simp
      | _ =>
          simp only [renderCalls]
          rw [hRest, hValue]
          simp

end

------------------------------------------------------------
-- The Round Trip
------------------------------------------------------------

/- What stands before the type of an alias. -/
def aliasHead : Rule (FlowType → Alias) :=
  Alias.mk <$>
    (ws *> Grammar.keyword "type" *> ws *> identifier <* ws) <*>
    (Peg.optional typeParams <* ws <* Peg.symbol "=" <* ws)

theorem typeAlias_eq :
    typeAlias = aliasHead <*> (Grammar.type <* ending) := rfl

/- What is put before a text is the head of an alias. -/
theorem reads_aliasHead
    (rest : List Char) :
    aliasHead.reads rules (fragmentHead ++ rest) =
      some (Alias.mk "S" none, skip rest) := by
  have hText :
      fragmentHead ++ rest =
        "type".toList ++
          ' ' :: ("S".toList ++ ' ' :: '=' :: ' ' :: rest) :=
    rfl
  have hType : IsWord "type" :=
    ⟨_, _, rfl, by decide, by decide⟩
  have hName : IsWord "S" := ⟨_, _, rfl, by decide, by decide⟩
  have hHead :
      (ws *> Grammar.keyword "type" *> ws *> identifier <*
          ws).reads rules (fragmentHead ++ rest) =
        some ("S", '=' :: ' ' :: rest) := by
    have hFirst :
        ∀ rest,
          word.reads rules ("type".toList ++ ' ' :: rest) =
            some ("type", ' ' :: rest) :=
      fun rest =>
        reads_word_append rules hType ((avoids_cons _ _ _).mpr rfl)
    have hSecond :
        ∀ rest,
          word.reads rules ("S".toList ++ ' ' :: rest) =
            some ("S", ' ' :: rest) :=
      fun rest =>
        reads_word_append rules hName ((avoids_cons _ _ _).mpr rfl)
    have hSkip :=
      fun rest =>
        skip_of_avoids
          (hType.avoids mem_of_spacing (by decide) rest)
    have hSkip' :=
      fun rest =>
        skip_blank (hName.avoids mem_of_spacing (by decide) rest)
    rw [hText]
    simp only [Peg.reads_keepLeft, Peg.reads_keepRight, reads_ws,
      reads_keyword, reads_identifier, hSkip, hFirst, hSkip',
      hSecond, Option.bind_some, if_true, Option.map_some]
    rw [skip_blank_cons rfl]
  have hBlank : skip (' ' :: rest) = skip rest :=
    skip_space (.blank rfl) rest
  have hMark :
      (Peg.optional typeParams <* ws <* Peg.symbol "=" <*
          ws).reads rules ('=' :: ' ' :: rest) =
        some (none, skip rest) := by
    simp (disch := decide) [typeParams, Cursor.dropLiteral,
      hBlank]
  simp only [aliasHead, Peg.reads_apply, Peg.reads_map, hHead,
    hMark, Option.map_some, Option.bind_some]

/- The declaration around a text is read for the text. -/
theorem reads_typeAlias_fragment
    (rest : List Char) :
    typeAlias.reads rules (fragmentHead ++ rest) =
      ((Grammar.type <* ending).reads rules (skip rest)).map
        (fun v => (⟨"S", none, v.1⟩, v.2)) := by
  rw [typeAlias_eq, Peg.reads_apply, reads_aliasHead,
    Option.bind_some]

/- A printed type is read back as the right side of an alias. -/
theorem reads_fragmentSource
    {t : FlowType}
    (hBack : Back t) :
    typeAlias.reads rules (fragmentSource t.text) =
      some (⟨"S", none, t⟩, []) := by
  have hStop : Stop .whole [';'] := .mark (by simp) .whole []
  have hText :
      fragmentSource t.text =
        fragmentHead ++ render .whole t [';'] := by
    rw [fragmentSource, FlowType.text, String.toList_ofList,
      List.append_assoc, ← render_append, List.nil_append]
  have hRead := hBack.reads [';'] hStop
  have hRight :
      (Grammar.type <* ending).reads rules
          (render .whole t [';']) =
        some (t, []) := by
    simp (disch := decide) [Grammar.type, hRead, ending,
      Cursor.dropLiteral]
  rw [hText, reads_typeAlias_fragment,
    skip_of_avoids (hBack.spaced hStop), hRight,
    Option.map_some]

/- A type that text can stand for is read from its text. -/
theorem parse_text_of_shaped
    {dialect : Dialect}
    {t : FlowType}
    (hTypes : dialect.supportsTypes = true)
    (hShaped : Shaped t) :
    FlowType.parse dialect t.text = .ok t :=
  (parse_eq_ok_iff_reads dialect t.text t).2
    ⟨hTypes, _, reads_fragmentSource (back_of_shaped hShaped),
      rfl⟩

/- A type that was read is read again from its own text. -/
theorem parse_text_of_parse
    {dialect : Dialect}
    {text : String}
    {t : FlowType}
    (h : FlowType.parse dialect text = .ok t) :
    FlowType.parse dialect t.text = .ok t := by
  have hShaped := shaped_of_parse h
  have hBack := (readable_of_shaped hShaped).1.back hShaped
  rcases (parse_eq_ok_iff_reads dialect text t).mp h with
    ⟨hTypes, -⟩
  exact (parse_eq_ok_iff_reads dialect t.text t).mpr
    ⟨hTypes, _, reads_fragmentSource hBack, rfl⟩

/- A text with a leading bar, groups, `static` as a key. -/
theorem parse_text_of_parse_nested :
    ∃ t,
      FlowType.parse {}
          "| (static?:(A)[]) => \x7bstatic:?('x'|1), +m<T>():B,\x7d" =
        .ok t ∧
      t.text =
        "(static?: A[]) => \x7b static: ?(\"x\" | 1), +m<T>(): B \x7d" ∧
      FlowType.parse {} t.text = .ok t := by
  have hText :
      (FlowType.parse {}
          "| (static?:(A)[]) => \x7bstatic:?('x'|1), +m<T>():B,\x7d").toOption.map
          FlowType.text =
        some
          "(static?: A[]) => \x7b static: ?(\"x\" | 1), +m<T>(): B \x7d" := by
    decide +kernel
  rcases Option.map_eq_some_iff.mp hText with
    ⟨t, hRead, hPrinted⟩
  have hOk :
      FlowType.parse {}
          "| (static?:(A)[]) => \x7bstatic:?('x'|1), +m<T>():B,\x7d" =
        .ok t := by
    generalize FlowType.parse {} _ = outcome at hRead ⊢
    cases outcome with
    | error e => simp [Except.toOption] at hRead
    | ok u => simpa [Except.toOption] using hRead
  exact ⟨t, hOk, hPrinted, parse_text_of_parse hOk⟩

end FlowType

end TypeGraft
