import TypeGraft.Proofs.FlowType.Fragment
import TypeGraft.Proofs.FlowType.Occurrence

/-
  Class declarations, of which the name is kept.

  A class is declared with a name, and perhaps with type
  parameters, a parent and interfaces.  The words before these
  are no keywords elsewhere, so that they may name the class
  and its parent as well.  A declaration is read whatever the
  names are, if its parts are printed types that were read.

  Key definitions include:
    * `FlowType.Grammar.classFront`
    * `FlowType.Grammar.BackReference`
    * `ClassDeclaration`
    * `ClassDeclaration.text`
    * `ClassDeclaration.WellFormed`

  Main declarations:
    * `FlowType.Grammar.reads_classFront`
    * `FlowType.Grammar.BackReference.reads`
    * `FlowType.Grammar.reads_extends`
    * `FlowType.Grammar.reads_implements`
    * `parseClassName_eq_ok_iff_reads`
    * `parseClassName_of_wellFormed`
-/

namespace TypeGraft

namespace FlowType

namespace Grammar

open Peg

------------------------------------------------------------
-- The Name of a Class
------------------------------------------------------------

/- A class declaration up to its name. -/
def classFront : Rule String :=
  ws *> Peg.optional (keyword "declare" *> ws) *>
    keyword "class" *> ws *> identifier

/- The name in front is the one that is kept. -/
theorem reads_classFront_of_classHeader
    {xs ys : List Char}
    {name : String}
    (h : classHeader.reads rules xs = some (name, ys)) :
    ∃ us, classFront.reads rules xs = some (name, us) := by
  rw [classHeader] at h
  simp only [reads_keepLeft_eq_some_iff] at h
  rcases h with ⟨_, _, ⟨_, _, ⟨_, _, ⟨_, _, ⟨_, _, ⟨_, _,
    ⟨us, _, hFront, -⟩, -⟩, -⟩, -⟩, -⟩, -⟩, -⟩
  exact ⟨us, hFront⟩

/- What may stand before the word `class`. -/
def declareText
    (declared : Bool) : List Char :=
  if declared then "declare ".toList else []

/- The name is the word behind `class`, blanks and comments. -/
theorem reads_classFront
    (declared : Bool)
    {rest : List Char}
    (hRest : Avoids isIdentChar rest) :
    classFront.reads rules
        (declareText declared ++ ("class".toList ++ rest)) =
      word.reads rules (skip rest) := by
  have hClass : IsWord "class" := ⟨_, _, rfl, by decide, by decide⟩
  have hDeclare : IsWord "declare" :=
    ⟨_, _, rfl, by decide, by decide⟩
  have hWord := reads_word_append rules hClass hRest
  have hHead := hClass.avoids mem_of_spacing (by decide) rest
  generalize "class".toList ++ rest = text at hWord hHead ⊢
  cases declared with
  | false =>
      simp [classFront, declareText, skip_of_avoids hHead, hWord]
  | true =>
      have hFirst :
          word.reads rules ("declare".toList ++ ' ' :: text) =
            some ("declare", ' ' :: text) :=
        reads_word_append rules hDeclare
          ((avoids_cons _ _ _).mpr rfl)
      have hStart :=
        skip_of_avoids
          (hDeclare.avoids mem_of_spacing (by decide)
            (' ' :: text))
      have hText :
          declareText true ++ text =
            "declare".toList ++ ' ' :: text := rfl
      rw [hText]
      simp only [classFront, reads_keepRight, reads_ws, hStart,
        Option.bind_some, reads_optional, reads_keyword, hFirst,
        if_true, skip_blank hHead, hWord, reads_identifier]

/-
  The text starts with `class` and goes on with a name behind
  blanks and comments, and the name goes as far as it can.
-/
def NamesClass
    (text : List Char)
    (name : String) : Prop :=
  ∃ gap rest,
    text = "class".toList ++ (gap ++ (name.toList ++ rest)) ∧
      Spacing gap ∧ IsWord name ∧ Avoids isIdentChar rest

/- There is one such name, which is the word that is read. -/
theorem namesClass_iff_reads
    {name : String}
    {rest : List Char} :
    NamesClass ("class".toList ++ rest) name ↔
      ∃ us, word.reads rules (skip rest) = some (name, us) := by
  constructor
  · rintro ⟨gap, us, hText, hGap, hName, hApart⟩
    rw [List.append_cancel_left hText, skip_spacing hGap,
      skip_of_avoids (hName.avoids mem_of_spacing (by decide) us)]
    exact ⟨us, reads_word_append rules hName hApart⟩
  · rintro ⟨us, hRead⟩
    rcases append_of_reads_word rules hRead with ⟨hText, hApart⟩
    have hSome : skip rest ≠ [] := by
      intro hNil
      simp [hNil] at hRead
    rcases exists_spacing hSome with ⟨gap, hGap, hRest⟩
    refine ⟨gap, us, ?_, hGap, isWord_of_reads rules hRead,
      hApart⟩
    rw [← hText, ← hRest]

------------------------------------------------------------
-- References
------------------------------------------------------------

/- What ends a reference in a class declaration. -/
structure EndsReference
    (after : List Char) : Prop where
  apart : Avoids isIdentChar after
  next : Avoids (fun x => x = '.' || x = '<') (skip after)

/- A reference whose arguments are read back. -/
inductive BackReference : FlowType → Prop where
  | intro
      {head : String}
      {parts : List String}
      {args : Option (List FlowType)}
      (hHead : IsWord head)
      (hParts : ∀ part ∈ parts, IsWord part)
      (hArgs : ∀ ts, args = some ts → ∀ t ∈ ts, Back t) :
      BackReference (.generic (.ofParts head parts) args)

/- What the text of a reference is read as. -/
def asReference : FlowType → FlowType
  | .generic name args => reference name args
  | t => t

/- References that were read have arguments that are read back. -/
theorem backReference_of_shapedAs
    {role : Role}
    {name : TypeName}
    {args : Option (List FlowType)}
    (h : ShapedAs role (.generic name args)) :
    BackReference (.generic name args) := by
  cases role with
  | type =>
      cases h with
      | generic hHead hParts _ _ hArgs =>
          exact .intro hHead hParts (fun ts hSome t ht =>
            back_of_shaped (hArgs ts hSome t ht))
  | value =>
      rcases h with ⟨head, parts, hHead, hParts, hEq⟩
      cases hEq
      exact .intro hHead hParts (by simp)

theorem BackReference.spaced
    {t : FlowType}
    (hBack : BackReference t)
    (after : List Char) :
    Avoids spacing (render .whole t after) := by
  cases hBack with
  | @intro head parts args hHead _ _ =>
      cases args with
      | none =>
          rw [render, render_ofParts]
          exact hHead.avoids mem_of_spacing (by decide) _
      | some ts =>
          rw [render, render_ofParts]
          exact hHead.avoids mem_of_spacing (by decide) _

/- A printed reference is read, if only as a keyword. -/
theorem BackReference.reads
    {t : FlowType}
    {after : List Char}
    (hBack : BackReference t)
    (hEnds : EndsReference after) :
    generic.reads rules (render .whole t after) =
      some (asReference t, after) := by
  cases hBack with
  | @intro head parts args hHead hParts hArgs =>
      cases args with
      | none =>
          rw [render]
          exact reads_generic_named hHead hParts hEnds.apart
            (hEnds.next.mono (fun x hx => by simp_all))
            (hEnds.next.mono (fun x hx => by simp_all))
      | some ts =>
          rw [render]
          exact reads_generic_applied hHead hParts
            (reads_typeArgs (hArgs ts rfl) after)

------------------------------------------------------------
-- Clauses
------------------------------------------------------------

/- Type parameters may stand behind the name of a class. -/
theorem reads_declaredTypeParams
    {typeParams : Option (List (TypeParameter FlowType))}
    {after : List Char}
    (hBack :
      ∀ ts, typeParams = some ts →
        ts ≠ [] ∧ ∀ p ∈ ts, BackTypeParameter p)
    (hAfter : Avoids (fun x => x = '<') (skip after)) :
    ∃ ys,
      (Peg.optional Grammar.typeParams).reads rules
          (skip (renderTypeParams typeParams after)) =
        some (typeParams, ys) ∧
      skip ys = skip after := by
  cases typeParams with
  | none =>
      refine ⟨skip after, ?_, skip_skip after⟩
      have hNone : Cursor.dropLiteral ['<'] (skip after) = none :=
        dropLiteral_of_avoids hAfter
      simp [renderTypeParams, Grammar.typeParams, hNone]
  | some ts =>
      refine ⟨after, ?_, rfl⟩
      have hRead :=
        reads_typeParams (hBack ts rfl).1 (hBack ts rfl).2 after
      rw [renderTypeParams, skip_cons rfl]
      simp [hRead]

/- What a word leads in is read with the word. -/
theorem reads_clause
    {α : Type}
    {w : String}
    {p : Rule α}
    {text after : List Char}
    {a : α}
    (hWord : IsWord w)
    (hHead : Avoids spacing text)
    (hRead : p.reads rules text = some (a, after)) :
    (Peg.optional (keyword w *> ws *> p *> ws)).reads rules
        (skip (' ' :: (w.toList ++ ' ' :: text))) =
      some (some (), skip after) := by
  have hFirst :
      word.reads rules (w.toList ++ ' ' :: text) =
        some (w, ' ' :: text) :=
    reads_word_append rules hWord ((avoids_cons _ _ _).mpr rfl)
  rw [skip_blank (hWord.avoids mem_of_spacing (by decide) _)]
  simp only [reads_optional, reads_keepRight, reads_keyword,
    hFirst, Option.bind_some, if_true, reads_ws,
    skip_blank hHead, hRead]

/- Without the word nothing is read. -/
theorem reads_no_clause
    {α : Type}
    {w : String}
    {p : Rule α}
    {after : List Char}
    (hOther : (keyword w).reads rules (skip after) = none) :
    (Peg.optional (keyword w *> ws *> p *> ws)).reads rules
        (skip after) =
      some (none, skip after) := by
  simp only [reads_optional, reads_keepRight, hOther,
    Option.bind_none]

/- So may the parent of the class. -/
theorem reads_extends
    {parent : Option FlowType}
    {after : List Char}
    (hBack : ∀ t, parent = some t → BackReference t)
    (hEnds : EndsReference after)
    (hOther : (keyword "extends").reads rules (skip after) = none) :
    ∃ o,
      (Peg.optional
          (keyword "extends" *> ws *> generic *> ws)).reads rules
          (skip (renderAfter " extends ".toList parent after)) =
        some (o, skip after) := by
  cases parent with
  | none =>
      rw [renderAfter]
      exact ⟨none, reads_no_clause hOther⟩
  | some t =>
      rw [renderAfter]
      exact ⟨some (), reads_clause
        ⟨_, _, rfl, by decide, by decide⟩
        ((hBack t rfl).spaced after) ((hBack t rfl).reads hEnds)⟩

/- Interfaces as they are printed, if there are any. -/
def writeInterfaces
    (ts : List FlowType)
    (after : List Char) : List Char :=
  if ts.isEmpty then after
  else
    " implements ".toList ++
      renderEach [',', ' '] .whole true ts after

/- So may its interfaces, with commas between them. -/
theorem reads_implements
    {ts : List FlowType}
    {after : List Char}
    (hBack : ∀ t ∈ ts, BackReference t)
    (hEnds : EndsReference after)
    (hComma : Avoids (fun x => x = ',') (skip after))
    (hOther :
      (keyword "implements").reads rules (skip after) = none) :
    ∃ o,
      (Peg.optional
          (keyword "implements" *> ws *> sepBy1 generic comma *>
            ws)).reads rules (skip (writeInterfaces ts after)) =
        some (o, skip after) := by
  cases ts with
  | nil => exact ⟨none, reads_no_clause hOther⟩
  | cons t ts =>
      have hEach :
          ∀ rest, EndOrMore [',', ' '] after rest →
            EndsReference rest := by
        rintro rest (rfl | ⟨more, rfl⟩)
        · exact hEnds
        · constructor
          · exact (avoids_cons _ _ _).mpr rfl
          · rw [List.cons_append, skip_cons rfl]
            exact (avoids_cons _ _ _).mpr rfl
      have hList :
          (sepBy1 generic comma).reads rules
              (renderEach [',', ' '] .whole true (t :: ts)
                after) =
            some ((t :: ts).map asReference, after) := by
        rw [renderEach_eq_writeEach]
        refine reads_sepBy1_writeEach_map asReference
          (List.cons_ne_nil t ts) rfl ?_ (fun _ => reads_comma)
          ?_ ?_
        · exact fun u hu rest _ => (hBack u hu).spaced rest
        · exact fun u hu rest hRest =>
            (hBack u hu).reads (hEach rest hRest)
        · simp [comma, dropLiteral_of_avoids hComma]
      have hHead :
          Avoids spacing
            (renderEach [',', ' '] .whole true (t :: ts)
              after) := by
        rw [renderEach_eq_writeEach]
        exact (hBack t (by simp)).spaced _
      exact ⟨some (), reads_clause
        ⟨_, _, rfl, by decide, by decide⟩ hHead hList⟩

/- What may follow a reference or the name of a class. -/
def OpensClause
    (text : List Char) : Prop :=
  ∃ x xs, text = ' ' :: x :: xs ∧ x ∈ ['e', 'i', '\x7b']

theorem OpensClause.ends
    {text : List Char}
    (h : OpensClause text) : EndsReference text := by
  rcases h with ⟨x, xs, rfl, hx⟩
  simp only [List.mem_cons, List.not_mem_nil, or_false] at hx
  constructor
  · exact (avoids_cons _ _ _).mpr rfl
  · rcases hx with rfl | rfl | rfl <;> rw [skip_blank_cons rfl] <;>
      exact (avoids_cons _ _ _).mpr rfl

theorem opensClause_interfaces
    (ts : List FlowType)
    {after : List Char}
    (hAfter : OpensClause after) :
    OpensClause (writeInterfaces ts after) := by
  unfold writeInterfaces
  split
  · exact hAfter
  · exact ⟨'i', _, rfl, by simp⟩

theorem opensClause_extends
    (parent : Option FlowType)
    {after : List Char}
    (hAfter : OpensClause after) :
    OpensClause
      (renderAfter " extends ".toList parent after) := by
  cases parent with
  | none =>
      rw [renderAfter]
      exact hAfter
  | some t =>
      rw [renderAfter]
      exact ⟨'e', _, rfl, by simp⟩

/- A class without a parent goes on with no `extends`. -/
theorem reads_keyword_interfaces
    (ts : List FlowType)
    {xs : List Char} :
    (keyword "extends").reads rules
        (skip (writeInterfaces ts (' ' :: '\x7b' :: xs))) =
      none := by
  unfold writeInterfaces
  split
  · rw [skip_blank_cons rfl, reads_keyword, reads_word_cons]
    rfl
  · generalize renderEach [',', ' '] .whole true ts _ = text
    have hWord :
        word.reads rules ("implements".toList ++ ' ' :: text) =
          some ("implements", ' ' :: text) :=
      reads_word_append rules ⟨_, _, rfl, by decide, by decide⟩
        ((avoids_cons _ _ _).mpr rfl)
    have hSkip :
        skip (" implements ".toList ++ text) =
          "implements".toList ++ ' ' :: text :=
      skip_blank_cons rfl _
    rw [hSkip, reads_keyword, hWord]
    rfl

/-
  A class declaration is read clause by clause, each from where
  the one before it ended.
-/
theorem reads_classHeader
    (declared : Bool)
    {name : String}
    {typeParams : Option (List (TypeParameter FlowType))}
    {parent : Option FlowType}
    {interfaces : List FlowType}
    {body : FlowType}
    {xs close : List Char}
    (hName : IsWord name)
    (hTypeParams :
      ∀ ts, typeParams = some ts →
        ts ≠ [] ∧ ∀ p ∈ ts, BackTypeParameter p)
    (hParent : ∀ t, parent = some t → BackReference t)
    (hInterfaces : ∀ t ∈ interfaces, BackReference t)
    (hBody :
      objectType.reads rules ('\x7b' :: xs) = some (body, close))
    (hEnd : ending.reads rules close = some ((), [])) :
    classHeader.reads rules
        (declareText declared ++
          ("class".toList ++
            ' ' :: (name.toList ++
              renderTypeParams typeParams
                (renderAfter " extends ".toList parent
                  (writeInterfaces interfaces
                    (' ' :: '\x7b' :: xs)))))) =
      some (name, []) := by
  have hOpens : OpensClause (' ' :: '\x7b' :: xs) :=
    ⟨_, _, rfl, by simp⟩
  have hBrace : skip (' ' :: '\x7b' :: xs) = '\x7b' :: xs :=
    skip_blank_cons rfl xs
  have hLast := opensClause_interfaces interfaces hOpens
  have hMiddle := opensClause_extends parent hLast
  obtain ⟨i, hImplements⟩ :=
    reads_implements hInterfaces hOpens.ends
      (by rw [hBrace]; exact (avoids_cons _ _ _).mpr rfl)
      (by rw [hBrace, reads_keyword, reads_word_cons]; rfl)
  obtain ⟨e, hExtends⟩ :=
    reads_extends hParent hLast.ends
      (reads_keyword_interfaces interfaces)
  obtain ⟨ys, hDeclared, hSkip⟩ :=
    reads_declaredTypeParams hTypeParams
      (hMiddle.ends.next.mono (fun x hx => by simp_all))
  have hApart :
      Avoids isIdentChar
        (renderTypeParams typeParams
          (renderAfter " extends ".toList parent
            (writeInterfaces interfaces
              (' ' :: '\x7b' :: xs)))) := by
    cases typeParams with
    | none =>
        rw [renderTypeParams]
        exact hMiddle.ends.apart
    | some ts =>
        rw [renderTypeParams]
        exact (avoids_cons _ _ _).mpr rfl
  have hFront :
      ∀ rest, Avoids isIdentChar rest →
        classFront.reads rules
            (declareText declared ++
              ("class".toList ++ ' ' :: (name.toList ++ rest))) =
          some (name, rest) := by
    intro rest hRest
    rw [reads_classFront declared ((avoids_cons _ _ _).mpr rfl),
      skip_blank (hName.avoids mem_of_spacing (by decide) rest)]
    exact reads_word_append rules hName hRest
  have hHeader :
      classHeader =
        classFront <* ws <* Peg.optional Grammar.typeParams <*
          ws <*
          Peg.optional
            (keyword "extends" *> ws *> generic *> ws) <*
          Peg.optional
            (keyword "implements" *> ws *>
              sepBy1 generic comma *> ws) <*
          objectType <* ending := rfl
  rw [hHeader]
  simp only [reads_keepLeft, hFront _ hApart, Option.bind_some,
    reads_ws, Option.map_some, hDeclared, hSkip, hExtends,
    hImplements, hBrace, hBody, hEnd]

/- The body of a class is read back. -/
theorem reads_body
    {properties : List (Property FlowType)}
    {indexers : List (Indexer FlowType)}
    {calls : List (CallProperty FlowType)}
    {exact inexact : Bool}
    (hShaped :
      Shaped (.object properties indexers calls exact inexact))
    (after : List Char) :
    objectType.reads rules
        (render .whole
          (.object properties indexers calls exact inexact)
          after) =
      some
        (.object properties indexers calls exact inexact,
          after) := by
  cases hShaped with
  | object hNames hTypes hIds hKeys hValues hFunctions hCalls =>
      rw [render_object, reads_objectType exact ?_ after,
        makeObject_entriesOf]
      exact backEntry_of_mem hNames
        (fun p hp => back_of_shaped (hTypes p hp))
        (fun p hp => (readable_of_shaped (hTypes p hp)).2) hIds
        (fun i hi => back_of_shaped (hKeys i hi))
        (fun i hi => back_of_shaped (hValues i hi)) hFunctions
        (fun c hc => (readable_of_shaped (hCalls c hc)).2)

end Grammar

end FlowType

------------------------------------------------------------
-- Declarations
------------------------------------------------------------

open FlowType.Grammar

/-
  A text is read as a class declaration if the dialect has
  types and the declaration reaches to the end of the text.
-/
theorem parseClassName_eq_ok_iff_reads
    (dialect : Dialect)
    (text : String)
    (name : String) :
    parseClassName dialect text = .ok name ↔
      dialect.supportsTypes = true ∧
        classHeader.reads rules text.toList = some (name, []) := by
  rw [← FlowType.grammar.parse_eq_ok_iff_reads classHeader rfl]
  unfold parseClassName readWith
  cases dialect.supportsTypes with
  | false => simp
  | true =>
      cases FlowType.grammar.parse classHeader text.toList <;>
        simp

namespace FlowType

theorem toList_text_append
    (t : FlowType)
    (after : List Char) :
    t.text.toList ++ after = render .whole t after := by
  rw [text, String.toList_ofList, ← render_append,
    List.nil_append]

/- Is the type a reference? -/
def IsGeneric
    (t : FlowType) : Prop :=
  ∃ name args, t = .generic name args

/- Is the type an object? -/
def IsObject
    (t : FlowType) : Prop :=
  ∃ properties indexers calls exact inexact,
    t = .object properties indexers calls exact inexact

/- The type stands in a type that some text is read as. -/
def OccursInText
    (t : FlowType) : Prop :=
  ∃ dialect text whole role,
    FlowType.parse dialect text = .ok whole ∧
      whole.Occurs role t

/- Then it is shaped as its place asks. -/
theorem OccursInText.shapedAs
    {t : FlowType}
    (h : t.OccursInText) : ∃ role, ShapedAs role t := by
  rcases h with ⟨_, _, _, role, hParse, hOccurs⟩
  exact ⟨role, hOccurs.shapedAs (shaped_of_parse hParse)⟩

/- The signature of a function there is read back. -/
theorem OccursInText.backSignature
    {typeParams : Option (List (TypeParameter FlowType))}
    {params : List (Parameter FlowType)}
    {rest : Option (Parameter FlowType)}
    {result : FlowType}
    (h :
      (FlowType.function typeParams params rest
        result).OccursInText) :
    BackSignature typeParams params rest result := by
  rcases h.shapedAs with ⟨role, hShaped⟩
  cases role with
  | type => exact (readable_of_shaped hShaped).2
  | value =>
      rcases hShaped with ⟨_, _, -, -, hEq⟩
      cases hEq

end FlowType

/- A class declaration, by its parts. -/
structure ClassDeclaration where
  declared : Bool
  name : String
  typeParams : Option (List (TypeParameter FlowType))
  parent : Option FlowType
  interfaces : List FlowType
  body : FlowType
  ended : Bool

namespace ClassDeclaration

/- A class declaration as it is written. -/
def text
    (c : ClassDeclaration) : String :=
  (if c.declared then "declare " else "") ++
    "class " ++ c.name ++
    c.typeParams.elim "" FlowType.typeParamsText ++
    c.parent.elim "" (fun t => " extends " ++ t.text) ++
    (if c.interfaces.isEmpty then ""
      else
        " implements " ++
          ", ".intercalate (c.interfaces.map FlowType.text)) ++
    " " ++ c.body.text ++ (if c.ended then ";" else "")

/-
  The name is a word, and the other parts stand in types that
  texts are read as.  Only the body has to be such a type
  itself.
-/
structure WellFormed
    (c : ClassDeclaration) : Prop where
  name : IsWord c.name
  typeParams :
    ∀ ts, c.typeParams = some ts →
      ∃ params rest result,
        (FlowType.function (some ts) params rest
          result).OccursInText
  parent :
    ∀ t, c.parent = some t → t.IsGeneric ∧ t.OccursInText
  interfaces :
    ∀ t ∈ c.interfaces, t.IsGeneric ∧ t.OccursInText
  body :
    c.body.IsObject ∧
      ∃ dialect text, FlowType.parse dialect text = .ok c.body

/- Interfaces are written with commas between them. -/
theorem toList_interfaces
    (ts : List FlowType)
    (after : List Char) :
    (", ".intercalate (ts.map FlowType.text)).toList ++ after =
      FlowType.renderEach [',', ' '] .whole true ts after := by
  induction ts with
  | nil => simp [FlowType.renderEach]
  | cons t ts ih =>
      cases ts with
      | nil =>
          rw [FlowType.renderEach, FlowType.renderEach,
            ← FlowType.toList_text_append]
          simp [FlowType.between]
      | cons u us =>
          rw [List.map_cons, List.map_cons,
            String.intercalate_cons_cons, ← List.map_cons,
            String.toList_append, String.toList_append,
            List.append_assoc, ih, List.append_assoc,
            FlowType.toList_text_append]
          simp [FlowType.renderEach, FlowType.between]

theorem toList_text
    (c : ClassDeclaration) :
    c.text.toList =
      declareText c.declared ++
        ("class".toList ++
          ' ' :: (c.name.toList ++
            FlowType.renderTypeParams c.typeParams
              (FlowType.renderAfter " extends ".toList c.parent
                (writeInterfaces c.interfaces
                  (' ' :: FlowType.render .whole c.body
                    (if c.ended then [';'] else [])))))) := by
  have hDeclared :
      (if c.declared then "declare " else "").toList =
        declareText c.declared := by
    cases c.declared <;> rfl
  have hTypeParams :
      ∀ after,
        (c.typeParams.elim "" FlowType.typeParamsText).toList ++
            after =
          FlowType.renderTypeParams c.typeParams after := by
    intro after
    cases c.typeParams with
    | none => simp [FlowType.renderTypeParams]
    | some ts =>
        rw [Option.elim_some, FlowType.typeParamsText,
          String.toList_ofList,
          ← FlowType.renderTypeParams_append, List.nil_append]
  have hParent :
      ∀ after,
        (c.parent.elim "" (fun t => " extends " ++ t.text)).toList ++
            after =
          FlowType.renderAfter " extends ".toList c.parent
            after := by
    intro after
    cases c.parent with
    | none => simp [FlowType.renderAfter]
    | some t =>
        rw [Option.elim_some, String.toList_append,
          List.append_assoc, FlowType.toList_text_append,
          FlowType.renderAfter]
  have hInterfaces :
      ∀ after,
        (if c.interfaces.isEmpty then ""
            else
              " implements " ++
                ", ".intercalate
                  (c.interfaces.map FlowType.text)).toList ++
            after =
          writeInterfaces c.interfaces after := by
    intro after
    unfold writeInterfaces
    split
    · simp
    · rw [String.toList_append, List.append_assoc,
        toList_interfaces]
  have hEnded :
      (if c.ended then ";" else "").toList =
        if c.ended then [';'] else [] := by
    cases c.ended <;> rfl
  simp only [text, String.toList_append, List.append_assoc]
  rw [hDeclared, hEnded, FlowType.toList_text_append,
    hInterfaces, hParent, hTypeParams]
  rfl

end ClassDeclaration

/- A class declaration is read, and its name is kept. -/
theorem parseClassName_of_wellFormed
    {dialect : Dialect}
    {c : ClassDeclaration}
    (hTypes : dialect.supportsTypes = true)
    (hWellFormed : c.WellFormed) :
    parseClassName dialect c.text = .ok c.name := by
  have hReference :
      ∀ t : FlowType, t.IsGeneric → t.OccursInText →
        BackReference t := by
    rintro t ⟨name, args, rfl⟩ hOccurs
    rcases hOccurs.shapedAs with ⟨role, hShaped⟩
    exact backReference_of_shapedAs hShaped
  have hTypeParams :
      ∀ ts, c.typeParams = some ts →
        ts ≠ [] ∧ ∀ p ∈ ts, BackTypeParameter p := by
    intro ts hSome
    rcases hWellFormed.typeParams ts hSome with
      ⟨params, rest, result, hOccurs⟩
    exact hOccurs.backSignature.typeParams ts rfl
  have hEnd :
      ending.reads rules (if c.ended then [';'] else []) =
        some ((), []) := by
    cases c.ended with
    | true => exact reads_ending_mark (skip_cons rfl [])
    | false => exact reads_ending_unmarked (by simp)
  rcases hWellFormed.body with
    ⟨⟨properties, indexers, calls, exact, inexact, hObject⟩,
      dialect', text, hParse⟩
  rw [hObject] at hParse
  have hBody :=
    reads_body (FlowType.shaped_of_parse hParse)
      (if c.ended then [';'] else [])
  obtain ⟨xs, hBrace⟩ :
      ∃ xs,
        FlowType.render .whole
            (.object properties indexers calls exact inexact)
            (if c.ended then [';'] else []) =
          '\x7b' :: xs := by
    rw [render_object]
    cases exact with
    | true => exact ⟨_, rfl⟩
    | false => exact ⟨_, rfl⟩
  rw [hBrace] at hBody
  rw [parseClassName_eq_ok_iff_reads, c.toList_text, hObject,
    hBrace]
  refine ⟨hTypes, reads_classHeader c.declared hWellFormed.name
    hTypeParams ?_ ?_ hBody hEnd⟩
  · intro t hSome
    exact hReference t (hWellFormed.parent t hSome).1
      (hWellFormed.parent t hSome).2
  · intro t ht
    exact hReference t (hWellFormed.interfaces t ht).1
      (hWellFormed.interfaces t ht).2

/-
  A class whose other parts are taken from its body, which has
  one method: the type parameters of that, its parent from
  behind `typeof`, and two interfaces.
-/
def classOfBody? : FlowType → Option ClassDeclaration
  | .object
      [.entry key
        (.function (some ts)
          [⟨p, q, .typeOf (.generic m as)⟩,
            ⟨r, s, .generic n bs⟩] rest (.generic o cs))
        a b c d] indexers calls exact inexact =>
      some
        ⟨true, "extends", some ts, some (.generic m as),
          [.generic n bs, .generic o cs],
          .object
            [.entry key
              (.function (some ts)
                [⟨p, q, .typeOf (.generic m as)⟩,
                  ⟨r, s, .generic n bs⟩] rest (.generic o cs))
              a b c d] indexers calls exact inexact,
          true⟩
  | _ => none

theorem wellFormed_of_classOfBody?
    {dialect : Dialect}
    {text : String}
    {t : FlowType}
    {c : ClassDeclaration}
    (hParse : FlowType.parse dialect text = .ok t)
    (h : classOfBody? t = some c) :
    c.WellFormed ∧ c.name = "extends" := by
  have hIn :
      ∀ {role u}, t.Occurs role u → u.OccursInText :=
    fun {role u} hOccurs => ⟨_, _, _, role, hParse, hOccurs⟩
  have hWord : IsWord "extends" :=
    ⟨_, _, rfl, by decide, by decide⟩
  unfold classOfBody? at h
  split at h
  · cases h
    have hMethod :
        ∀ {u}, u ∈ FlowType.typesIn _ → u.OccursInText :=
      fun hMem => hIn (.inside (.inside .whole
        List.mem_cons_self) hMem)
    refine ⟨?_, rfl⟩
    constructor
    case name => exact hWord
    case typeParams =>
      rintro _ ⟨⟩
      exact ⟨_, _, _, hIn (.inside .whole List.mem_cons_self)⟩
    case parent =>
      rintro _ ⟨⟩
      refine ⟨⟨_, _, rfl⟩, hIn
        (@FlowType.Occurs.argument _ .type _
          (.inside (.inside .whole List.mem_cons_self) ?_))⟩
      simp [FlowType.typesIn, FlowType.propertyType]
    case interfaces =>
      rw [List.forall_mem_cons, List.forall_mem_singleton]
      refine ⟨⟨⟨_, _, rfl⟩, hMethod ?_⟩, ⟨_, _, rfl⟩,
        hMethod ?_⟩
      · simp [FlowType.typesIn, FlowType.propertyType]
      · simp [FlowType.typesIn, FlowType.propertyType]
    case body => exact ⟨⟨_, _, _, _, _, rfl⟩, _, _, hParse⟩
  · cases h

/-
  The class is named `extends`, its parent is a name behind
  `typeof`, and one of its interfaces is called `implements`.
-/
theorem parseClassName_of_wellFormed_keywords :
    ∃ c : ClassDeclaration,
      c.WellFormed ∧
      c.text =
        "declare class extends<T: ?B> extends true.any " ++
          "implements implements<1>, A \x7b| m<T: ?B>" ++
          "(typeof true.any, implements<1>): A |\x7d;" ∧
      parseClassName {} c.text = .ok "extends" := by
  have hRead :
      ((FlowType.parse {}
          ("\x7b| m<T: ?B>(typeof true.any, " ++
            "implements<1>): A |\x7d")).toOption.bind
        (fun t =>
          (classOfBody? t).map ClassDeclaration.text)) =
        some
          ("declare class extends<T: ?B> extends true.any " ++
            "implements implements<1>, A \x7b| m<T: ?B>" ++
            "(typeof true.any, implements<1>): A |\x7d;") := by
    decide +kernel
  rcases Option.bind_eq_some_iff.1 hRead with ⟨t, hOk, hText⟩
  rcases Option.map_eq_some_iff.1 hText with ⟨c, hClass, hText⟩
  rcases wellFormed_of_classOfBody? (eq_ok_of_toOption hOk)
    hClass with ⟨hWellFormed, hName⟩
  exact ⟨c, hWellFormed, hText,
    hName ▸ parseClassName_of_wellFormed rfl hWellFormed⟩

end TypeGraft
