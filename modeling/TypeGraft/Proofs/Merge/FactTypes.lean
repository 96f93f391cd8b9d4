import TypeGraft.Merge.Resolve
import TypeGraft.Proofs.FlowType.ClassHeader

/-
  The types that facts state.

  The text of a fact is read as it stands, but for `any` and
  for classes.  Engines describe a class by its declaration,
  which stands for the type of the class as a value.  Two texts
  are read for it: the declaration, and then the name of the
  class behind `typeof`.  The second one can always be read,
  since the name of a value may be any word.

  Main declarations:
    * `resolve_of_head`
    * `FlowType.parse_typeof_word`
    * `namesClass_of_parseClassName`
    * `resolve_of_classMarker`
    * `resolve_of_class`
-/

namespace TypeGraft

open FlowType.Grammar

------------------------------------------------------------
-- Texts of Facts
------------------------------------------------------------

/-
  A text that does not start as `any` and the unknown type do
  is read as it stands, but for the declaration of a class.
-/
theorem resolve_of_head
    {dialect : Dialect}
    {fact : TypeFact}
    {c : Char}
    {cs : List Char}
    (hText : fact.rawType.toList = c :: cs)
    (hOther : c ∉ ['(', 'a']) :
    resolve dialect fact =
      (if classMarker.isPrefixOf fact.rawType.toList then
        (parseClassName dialect fact.rawType).map
          (fun name => "typeof " ++ name)
      else .ok fact.rawType).bind (fun text =>
        (FlowType.parse dialect text).map some) := by
  have hNot :
      ∀ text : String, text.toList.head? ≠ some c →
        fact.rawType ≠ text := by
    rintro text hHead rfl
    exact hHead (by rw [hText]; rfl)
  simp only [List.mem_cons, List.not_mem_nil, or_false,
    not_or] at hOther
  rcases hOther with ⟨hParen, hAny⟩
  have hKnown : fact.isUnknown = false :=
    decide_eq_false
      (hNot "(unknown)" (by simpa using Ne.symm hParen))
  have hOrigin :
      anyWithOrigin.contains fact.rawType = false := by
    simp only [anyWithOrigin, List.contains_cons,
      List.contains_nil, Bool.or_false, Bool.or_eq_false_iff,
      beq_eq_false_iff_ne]
    exact ⟨hNot _ (by simpa using Ne.symm hAny),
      hNot _ (by simpa using Ne.symm hAny)⟩
  simp only [resolve, normalize, hKnown, hOrigin,
    Bool.false_eq_true, if_false]
  rfl

------------------------------------------------------------
-- Names of Values
------------------------------------------------------------

theorem FlowType.text_typeOfNamed
    (name : String) :
    (FlowType.typeOfNamed name).text = "typeof " ++ name := by
  apply String.toList_inj.1
  rw [FlowType.text, String.toList_ofList,
    String.toList_append]
  simp [FlowType.typeOfNamed, FlowType.named, FlowType.render,
    FlowType.enclose, Level.rank, TypeName.render]

/- Every word names a value, also if it is a keyword. -/
theorem FlowType.parse_typeof_word
    {dialect : Dialect}
    {name : String}
    (hTypes : dialect.supportsTypes = true)
    (hName : IsWord name) :
    FlowType.parse dialect ("typeof " ++ name) =
      .ok (.typeOfNamed name) := by
  rw [← FlowType.text_typeOfNamed]
  exact FlowType.parse_text_of_shaped hTypes
    (@FlowType.Shaped.typeOf name [] hName (by simp))

------------------------------------------------------------
-- Declarations
------------------------------------------------------------

/- An error is about the declaration. -/
theorem error_of_parseClassName
    {dialect : Dialect}
    {text : String}
    {e : ParseError}
    (hTypes : dialect.supportsTypes = true)
    (h : parseClassName dialect text = .error e) :
    ∃ offset expected,
      e = .invalid .classDeclaration text offset expected := by
  unfold parseClassName readWith at h
  rw [if_pos hTypes] at h
  split at h
  · cases h
  · cases h
    exact ⟨_, _, rfl⟩

/- A declaration that is read names the class that was read. -/
theorem namesClass_of_parseClassName
    {dialect : Dialect}
    {text name : String}
    (hClass : classMarker <+: text.toList)
    (h : parseClassName dialect text = .ok name)
    (other : String) :
    NamesClass text.toList other ↔ other = name := by
  rcases hClass with ⟨rest, hText⟩
  have hFront : text.toList = "class".toList ++ ' ' :: rest :=
    hText.symm
  rcases (parseClassName_eq_ok_iff_reads _ _ _).1 h with
    ⟨-, hHeader⟩
  rcases reads_classFront_of_classHeader hHeader with ⟨us, hRead⟩
  have hWord :
      word.reads rules (skip (' ' :: rest)) = some (name, us) := by
    rw [← reads_classFront false ((avoids_cons _ _ _).2 rfl),
      ← hRead, hFront]
    rfl
  rw [hFront, namesClass_iff_reads, hWord]
  simp [eq_comm]

/- The declaration is read first, and then the name in it. -/
theorem resolve_of_classMarker
    {dialect : Dialect}
    {fact : TypeFact}
    (hClass : classMarker <+: fact.rawType.toList) :
    resolve dialect fact =
      (parseClassName dialect fact.rawType).bind (fun name =>
        (FlowType.parse dialect ("typeof " ++ name)).map
          some) := by
  rcases id hClass with ⟨rest, hText⟩
  rw [resolve_of_head hText.symm (by decide),
    if_pos (List.isPrefixOf_iff_prefix.2 hClass)]
  cases parseClassName dialect fact.rawType <;>
    simp only [Except.map, Except.bind]

/-
  A fact whose text starts as the declaration of a class
  states the type of that class, if the declaration can be
  read.  Its name is the word behind `class`, blanks and
  comments.  Otherwise the error is about the declaration,
  since any word can be read behind `typeof`.
-/
theorem resolve_of_class
    {dialect : Dialect}
    {fact : TypeFact}
    (hTypes : dialect.supportsTypes = true)
    (hClass : classMarker <+: fact.rawType.toList) :
    (∀ name, parseClassName dialect fact.rawType = .ok name →
      (∀ other,
        NamesClass fact.rawType.toList other ↔ other = name) ∧
      resolve dialect fact =
        .ok (some (.typeOfNamed name))) ∧
    (∀ e, parseClassName dialect fact.rawType = .error e →
      resolve dialect fact = .error e ∧
      ∃ offset expected,
        e = .invalid .classDeclaration fact.rawType offset
          expected) ∧
    ∀ name, IsWord name →
      FlowType.parse dialect ("typeof " ++ name) =
        .ok (.typeOfNamed name) := by
  rw [resolve_of_classMarker hClass]
  refine ⟨?accepted, ?refused,
    fun name => FlowType.parse_typeof_word hTypes⟩
  case accepted =>
    intro name hName
    have hNames := namesClass_of_parseClassName hClass hName
    rcases (hNames name).2 rfl with ⟨-, -, -, -, hWord, -⟩
    refine ⟨hNames, ?_⟩
    rw [hName, Except.bind,
      FlowType.parse_typeof_word hTypes hWord]
    rfl
  case refused =>
    intro e hError
    rw [hError]
    exact ⟨rfl, error_of_parseClassName hTypes hError⟩

/- A class that is named as a keyword, behind a comment. -/
theorem resolve_of_class_keyword :
    ∃ fact : TypeFact,
      fact.rawType =
        "class /* a */ typeof extends typeof \x7b\x7d" ∧
      resolve {} fact = .ok (some (.typeOfNamed "typeof")) := by
  let fact : TypeFact :=
    ⟨⟨⟨1, 0⟩, ⟨1, 1⟩⟩,
      "class /* a */ typeof extends typeof \x7b\x7d", []⟩
  have hName : parseClassName {} fact.rawType = .ok "typeof" :=
    eq_ok_of_toOption (by decide +kernel)
  have hClass :=
    @resolve_of_class {} fact rfl (by decide +kernel)
  exact ⟨fact, rfl, (hClass.1 "typeof" hName).2⟩

end TypeGraft
