import TypeGraft.Proofs.FlowType.Shape

/-
  How printed texts are read: what may stand behind a printed
  type, how items with commas between them are read, and how
  a type that is read by a tight rule is read by looser ones.

  Main declarations:
    * `FlowType.Grammar.skip`
    * `FlowType.Grammar.Stop`
    * `FlowType.Grammar.writeEach`
    * `FlowType.Grammar.reads_many_writeEach`
    * `FlowType.Grammar.reads_sepBy_writeEach`
    * `FlowType.Grammar.reads_type_of_intersection`
    * `FlowType.Grammar.leads_render`
-/

namespace TypeGraft

namespace FlowType

namespace Grammar

open Peg

------------------------------------------------------------
-- Skipping Blanks
------------------------------------------------------------

/- The text behind blanks and comments. -/
def skip
    (text : List Char) : List Char :=
  ((ws.reads rules text).map Prod.snd).getD text

@[simp] theorem reads_ws
    (text : List Char) :
    ws.reads rules text = some ((), skip text) := by
  unfold skip
  cases hRead : ws.reads rules text with
  | none => simp [ws, reads_many_eq] at hRead
  | some v => rfl

theorem skip_of_avoids
    {text : List Char}
    (hText : Avoids spacing text) : skip text = text := by
  have hRead : ws.reads rules text = some ((), text) :=
    reads_ws_of_avoids hText
  rw [reads_ws] at hRead
  exact congrArg Prod.snd (Option.some.inj hRead)

@[simp] theorem skip_nil : skip [] = [] :=
  skip_of_avoids (avoids_nil _)

@[simp] theorem skip_cons
    {x : Char}
    (hx : spacing x = false)
    (xs : List Char) : skip (x :: xs) = x :: xs :=
  skip_of_avoids ((avoids_cons _ _ _).mpr hx)

theorem skip_blank
    {text : List Char}
    (hText : Avoids spacing text) :
    skip (' ' :: text) = text := by
  have hRead := reads_ws_blank hText
  rw [reads_ws] at hRead
  exact congrArg Prod.snd (Option.some.inj hRead)

@[simp] theorem skip_blank_cons
    {x : Char}
    (hx : spacing x = false)
    (xs : List Char) : skip (' ' :: x :: xs) = x :: xs :=
  skip_blank ((avoids_cons _ _ _).mpr hx)

/- Behind blanks there are no further blanks. -/
@[simp] theorem skip_skip
    (text : List Char) : skip (skip text) = skip text := by
  have hOnce := reads_ws text
  have hTwice := reads_ws (skip text)
  simp only [ws, reads_quiet, reads_keepRight, reads_succeed,
    Option.bind_eq_some_iff] at hOnce hTwice
  rcases hOnce with ⟨v, hMany, hEnd⟩
  rcases hTwice with ⟨w, hAgain, hEnd'⟩
  simp only [Option.some.injEq, Prod.mk.injEq, true_and]
    at hEnd hEnd'
  have hStop := reads_of_reads_many rfl hMany
  rw [hEnd] at hStop
  rw [reads_many_stop rfl hStop] at hAgain
  rw [← hEnd', ← Option.some.inj hAgain]

/- What a rule reads starts with a character of the rule. -/
theorem avoids_of_reads
    {α : Type}
    {p : Rule α}
    {q : Char → Bool}
    {text ys : List Char}
    {a : α}
    (hReads : p.nullable = false)
    (h : p.reads rules text = some (a, ys))
    (hStarts : ∀ x, q x = true → p.starts first x = false) :
    Avoids q text := by
  intro x hx
  cases hq : q x with
  | false => rfl
  | true =>
      cases text with
      | nil => simp at hx
      | cons y text =>
          cases hx
          rw [reads_eq_none hReads (hStarts _ hq)] at h
          simp at h

------------------------------------------------------------
-- What Stands Behind a Type
------------------------------------------------------------

/- What goes on with a type that is read for a context. -/
def continues
    (l : Level)
    (x : Char) : Bool :=
  isIdentStart x || x = '.' || x = '<' || keyMark.accepts x ||
    (l.rank < 4 && x = '[') || (l.rank < 3 && x = '&')

/-
  The text ends a type that is printed for a context.  A bar
  is no end where unions are read, except before a brace.
-/
structure Stop
    (l : Level)
    (text : List Char) : Prop where
  apart : Avoids goesOn text
  next : Avoids (continues l) (skip text)
  arrow : Cursor.dropLiteral "=>".toList (skip text) = none
  unbarred :
    l.rank < 2 →
      ∀ us, skip text = '|' :: us → us.head? = some '\x7d'

namespace Stop

theorem mono
    {l l' : Level}
    {text : List Char}
    (h : Stop l text)
    (hRank : l.rank ≤ l'.rank) : Stop l' text where
  apart := h.apart
  next := by
    refine h.next.mono ?_
    intro x hx
    simp only [continues, Bool.or_eq_true, Bool.and_eq_true,
      decide_eq_true_eq] at hx ⊢
    rcases hx with (hx | ⟨hl, hx⟩) | ⟨hl, hx⟩
    · exact .inl (.inl hx)
    · exact .inl (.inr ⟨by omega, hx⟩)
    · exact .inr ⟨by omega, hx⟩
  arrow := h.arrow
  unbarred hl := h.unbarred (by omega)

theorem of_skip
    {l : Level}
    {text us : List Char}
    {x : Char}
    (hSkip : skip text = x :: us)
    (hApart : Avoids goesOn text)
    (hNext : continues l x = false)
    (hArrow : x = '=' → us.head? ≠ some '>')
    (hBar : x = '|' → l.rank < 2 → us.head? = some '\x7d') :
    Stop l text where
  apart := hApart
  next := by simpa [hSkip] using hNext
  arrow := by
    rw [hSkip]
    by_cases hx : x = '='
    · cases us with
      | nil => simp [hx, Cursor.dropLiteral]
      | cons u us =>
          have hu : u ≠ '>' := by simpa using hArrow hx
          simp [hx, Cursor.dropLiteral, Ne.symm hu]
    · simp [Cursor.dropLiteral, Ne.symm hx]
  unbarred := by
    intro hl vs hEq
    rw [hSkip] at hEq
    cases hEq
    exact hBar rfl hl

/- Marks that end types in every context. -/
theorem mark
    {x : Char}
    (hx : x ∈ [',', ')', ']', '>', ';'])
    (l : Level)
    (rest : List Char) : Stop l (x :: rest) := by
  simp only [List.mem_cons, List.not_mem_nil, or_false] at hx
  rcases hx with rfl | rfl | rfl | rfl | rfl <;>
    exact of_skip (skip_cons rfl rest)
      ((avoids_cons _ _ _).mpr rfl) (by cases l <;> rfl)
      (by simp) (by simp)

theorem equals
    (l : Level)
    (rest : List Char) :
    Stop l (' ' :: '=' :: ' ' :: rest) :=
  of_skip (skip_blank_cons rfl _) ((avoids_cons _ _ _).mpr rfl)
    (by cases l <;> rfl) (by simp) (by simp)

theorem brace
    (l : Level)
    (rest : List Char) :
    Stop l (' ' :: '\x7d' :: rest) :=
  of_skip (skip_blank_cons rfl _) ((avoids_cons _ _ _).mpr rfl)
    (by cases l <;> rfl) (by simp) (by simp)

theorem barBrace
    (l : Level)
    (rest : List Char) :
    Stop l (' ' :: '|' :: '\x7d' :: rest) :=
  of_skip (skip_blank_cons rfl _) ((avoids_cons _ _ _).mpr rfl)
    (by cases l <;> rfl) (by simp) (by simp)

theorem bar
    {l : Level}
    (hl : 2 ≤ l.rank)
    (rest : List Char) :
    Stop l (' ' :: '|' :: ' ' :: rest) :=
  of_skip (skip_blank_cons rfl _) ((avoids_cons _ _ _).mpr rfl)
    (by cases l <;> rfl) (by simp) (by intros; omega)

theorem ampersand
    {l : Level}
    (hl : 3 ≤ l.rank)
    (rest : List Char) :
    Stop l (' ' :: '&' :: ' ' :: rest) :=
  of_skip (skip_blank_cons rfl _) ((avoids_cons _ _ _).mpr rfl)
    (by simp [continues, keyMark, isIdentStart, hl]) (by simp) (by simp)

theorem bracket
    (rest : List Char) : Stop .atom ('[' :: rest) :=
  of_skip (skip_cons rfl _) ((avoids_cons _ _ _).mpr rfl) rfl
    (by simp) (by simp)

/- A mark that goes on with a type does not follow. -/
theorem skip_avoids
    {l : Level}
    {text : List Char}
    (h : Stop l text)
    {m : Char}
    (hm : continues l m = true) :
    Avoids (fun x => x = m) (skip text) :=
  h.next.mono (fun x hx => by
    rw [of_decide_eq_true hx]
    exact hm)

end Stop

------------------------------------------------------------
-- Items With Something Between Them
------------------------------------------------------------

/- Items, each behind a separator except for a first one. -/
def writeEach
    {α : Type}
    (separator : List Char)
    (write : α → List Char → List Char)
    (isFirst : Bool) : List α → List Char → List Char
  | [], after => after
  | a :: as, after =>
      between separator isFirst ++
        write a (writeEach separator write false as after)

/- The text is the end of a list, or there is another item. -/
def EndOrMore
    (separator close text : List Char) : Prop :=
  text = close ∨ ∃ more, text = separator ++ more

theorem endOrMore_writeEach
    {α : Type}
    (separator : List Char)
    (write : α → List Char → List Char)
    (as : List α)
    (close : List Char) :
    EndOrMore separator close
      (writeEach separator write false as close) := by
  cases as with
  | nil => exact .inl rfl
  | cons a as => exact .inr ⟨_, rfl⟩

/-
  Items behind separators are read one by one, each as the
  value that it stands for.
-/
theorem reads_many_writeEach_map
    {α β : Type}
    {item : Rule β}
    {separator close : List Char}
    {write : α → List Char → List Char}
    {as : List α}
    (value : α → β)
    (hReads : item.nullable = false)
    (hItem :
      ∀ a ∈ as, ∀ rest, EndOrMore separator close rest →
        item.reads rules (separator ++ write a rest) =
          some (value a, rest))
    (hStop : item.reads rules close = none) :
    (many item).reads rules
        (writeEach separator write false as close) =
      some (as.map value, close) := by
  induction as with
  | nil => exact reads_many_stop hReads hStop
  | cons a as ih =>
      have hFirst :=
        hItem a (by simp) _
          (endOrMore_writeEach separator write as close)
      have hOthers :=
        ih (fun b hb => hItem b (List.mem_cons_of_mem a hb))
      rw [reads_many_rules hReads]
      simp only [writeEach, between, Bool.false_eq_true,
        if_false, hFirst, hOthers, Option.map_some,
        List.map_cons]

theorem reads_many_writeEach
    {α : Type}
    {item : Rule α}
    {separator close : List Char}
    {write : α → List Char → List Char}
    {as : List α}
    (hReads : item.nullable = false)
    (hItem :
      ∀ a ∈ as, ∀ rest, EndOrMore separator close rest →
        item.reads rules (separator ++ write a rest) =
          some (a, rest))
    (hStop : item.reads rules close = none) :
    (many item).reads rules
        (writeEach separator write false as close) =
      some (as, close) := by
  rw [reads_many_writeEach_map id hReads hItem hStop,
    List.map_id]

/-
  Items with commas between them are read one by one, if no
  item starts with a blank.
-/
theorem reads_sepBy1_writeEach_map
    {α β : Type}
    {p : Rule β}
    {sep : Rule Unit}
    {close : List Char}
    {write : α → List Char → List Char}
    {as : List α}
    (value : α → β)
    (hSome : as ≠ [])
    (hReads : p.nullable = false)
    (hHead :
      ∀ a ∈ as, ∀ rest, EndOrMore [',', ' '] close rest →
        Avoids spacing (write a rest))
    (hSep :
      ∀ rest, Avoids spacing rest →
        sep.reads rules (',' :: ' ' :: rest) = some ((), rest))
    (hItem :
      ∀ a ∈ as, ∀ rest, EndOrMore [',', ' '] close rest →
        p.reads rules (write a rest) = some (value a, rest))
    (hStop : (sep *> p).reads rules close = none) :
    (sepBy1 p sep).reads rules
        (writeEach [',', ' '] write true as close) =
      some (as.map value, close) := by
  cases as with
  | nil => exact absurd rfl hSome
  | cons a as =>
      have hFirst :=
        hItem a (by simp) _
          (endOrMore_writeEach [',', ' '] write as close)
      have hOthers :
          (many (sep *> p)).reads rules
              (writeEach [',', ' '] write false as close) =
            some (as.map value, close) := by
        apply reads_many_writeEach_map value (by simp [hReads])
          _ hStop
        intro b hb rest hRest
        have hMem := List.mem_cons_of_mem a hb
        have hSpacing := hHead b hMem rest hRest
        have hRead := hItem b hMem rest hRest
        simp [hSep _ hSpacing, hRead]
      simp [reads_sepBy1, writeEach, between, hFirst, hOthers]

theorem reads_sepBy1_writeEach
    {α : Type}
    {p : Rule α}
    {sep : Rule Unit}
    {close : List Char}
    {write : α → List Char → List Char}
    {as : List α}
    (hSome : as ≠ [])
    (hReads : p.nullable = false)
    (hHead :
      ∀ a ∈ as, ∀ rest, EndOrMore [',', ' '] close rest →
        Avoids spacing (write a rest))
    (hSep :
      ∀ rest, Avoids spacing rest →
        sep.reads rules (',' :: ' ' :: rest) = some ((), rest))
    (hItem :
      ∀ a ∈ as, ∀ rest, EndOrMore [',', ' '] close rest →
        p.reads rules (write a rest) = some (a, rest))
    (hStop : (sep *> p).reads rules close = none) :
    (sepBy1 p sep).reads rules
        (writeEach [',', ' '] write true as close) =
      some (as, close) := by
  rw [reads_sepBy1_writeEach_map id hSome hReads hHead hSep
    hItem hStop, List.map_id]

/- The same where there may be no item at all. -/
theorem reads_sepBy_writeEach
    {α : Type}
    {p : Rule α}
    {sep : Rule Unit}
    {close : List Char}
    {write : α → List Char → List Char}
    {as : List α}
    (hReads : p.nullable = false)
    (hHead :
      ∀ a ∈ as, ∀ rest, EndOrMore [',', ' '] close rest →
        Avoids spacing (write a rest))
    (hSep :
      ∀ rest, Avoids spacing rest →
        sep.reads rules (',' :: ' ' :: rest) = some ((), rest))
    (hItem :
      ∀ a ∈ as, ∀ rest, EndOrMore [',', ' '] close rest →
        p.reads rules (write a rest) = some (a, rest))
    (hEmpty : as = [] → p.reads rules close = none)
    (hStop : (sep *> p).reads rules close = none) :
    (sepBy p sep).reads rules
        (writeEach [',', ' '] write true as close) =
      some (as, close) := by
  by_cases hNil : as = []
  · have hNone := hEmpty hNil
    simp [hNil, reads_sepBy, reads_sepBy1, writeEach, hNone]
  · rw [reads_sepBy,
      reads_sepBy1_writeEach hNil hReads hHead hSep hItem hStop]
    rfl

------------------------------------------------------------
-- From Tight Rules to Loose Ones
------------------------------------------------------------

/- A text behind empty brackets. -/
def bracketed : Nat → List Char → List Char
  | 0, after => after
  | k + 1, after => '[' :: ']' :: bracketed k after

/- Arrays of arrays, so many times. -/
def arrays : Nat → FlowType → FlowType
  | 0, t => t
  | k + 1, t => arrays k (.array t)

theorem stop_bracketed
    {after : List Char}
    (hStop : Stop .unary after)
    (k : Nat) : Stop .atom (bracketed k after) := by
  cases k with
  | zero => exact hStop.mono (by decide)
  | succ k => exact .bracket _

theorem reads_many_brackets
    {after : List Char}
    (hStop : Stop .unary after)
    (k : Nat) :
    (many (ws *> symbol "[" *> ws *> symbol "]") :
        Rule (List Unit)).reads rules (bracketed k after) =
      some (List.replicate k (), after) := by
  induction k with
  | zero =>
      have hDrop :
          Cursor.dropLiteral ['['] (skip after) = none :=
        dropLiteral_of_avoids (hStop.skip_avoids rfl)
      apply reads_many_stop rfl
      simp [bracketed, hDrop]
  | succ k ih =>
      rw [reads_many_rules rfl]
      simp (disch := decide) [bracketed, Cursor.dropLiteral, ih,
        List.replicate_succ]

theorem foldl_array_replicate
    (k : Nat)
    (t : FlowType) :
    (List.replicate k ()).foldl (fun t _ => FlowType.array t) t =
      arrays k t := by
  induction k generalizing t with
  | zero => rfl
  | succ k ih => exact ih (.array t)

/- Brackets behind a primary type make arrays of it. -/
theorem reads_arrayed_of_primary
    {k : Nat}
    {text after : List Char}
    {t : FlowType}
    (h : rules .primary text = some (t, bracketed k after))
    (hStop : Stop .unary after) :
    arrayed.reads rules text = some (arrays k t, after) := by
  have hMany := reads_many_brackets hStop k
  have hFold := foldl_array_replicate k t
  simp only [arrayed, reads_apply, reads_map, reads_call, h,
    Option.map_some, Option.bind_some, hMany, hFold]

theorem reads_prefixed_of_arrayed
    {text after : List Char}
    {t : FlowType}
    (h : arrayed.reads rules text = some (t, after)) :
    rules .prefixed text = some (t, after) := by
  have hMark : Avoids (fun x => x = '?') text := by
    refine avoids_of_reads rfl h ?_
    intro x hx
    rw [of_decide_eq_true hx]
    rfl
  have hDrop : Cursor.dropLiteral ['?'] text = none :=
    dropLiteral_of_avoids hMark
  rw [rules_prefixed]
  simp [prefixed, hDrop, h]

/-
  Types with a mark between them are joined, if no type
  starts with the mark or with a blank.
-/
theorem reads_joinedBy
    {mark : String}
    {m : Char}
    {join : List FlowType → FlowType}
    {item : Rule FlowType}
    {t : FlowType}
    {text after : List Char}
    (write : FlowType → List Char → List Char)
    (ts : List FlowType)
    (hMark : mark.toList = [m])
    (hSpacing : spacing m = false)
    (hReads : item.nullable = false)
    (hStarts : item.starts first m = false)
    (hFirst :
      item.reads rules text =
        some (t, writeEach [' ', m, ' '] write false ts after))
    (hHead :
      ∀ a ∈ ts, ∀ rest, EndOrMore [' ', m, ' '] after rest →
        Avoids spacing (write a rest))
    (hOthers :
      ∀ a ∈ ts, ∀ rest, EndOrMore [' ', m, ' '] after rest →
        item.reads rules (write a rest) = some (a, rest))
    (hStop :
      (ws *> symbol mark *> ws *> item).reads rules after =
        none) :
    (joinedBy mark join item).reads rules text =
      some (joined join t ts, after) := by
  have hNoMark : Cursor.dropLiteral [m] text = none := by
    refine dropLiteral_of_avoids
      (avoids_of_reads hReads hFirst ?_)
    intro x hx
    rw [of_decide_eq_true hx]
    exact hStarts
  have hMany :
      (many (ws *> symbol mark *> ws *> item)).reads rules
          (writeEach [' ', m, ' '] write false ts after) =
        some (ts, after) := by
    apply reads_many_writeEach (by simp [hReads]) _ hStop
    intro a ha rest hRest
    have hRead := hOthers a ha rest hRest
    have hBlank : skip (' ' :: write a rest) = write a rest :=
      skip_blank (hHead a ha rest hRest)
    simp [hMark, hSpacing, Cursor.dropLiteral, hBlank, hRead]
  simp [joinedBy, hMark, hNoMark, hFirst, hMany]

theorem Stop.reads_ampersand
    {l : Level}
    {after : List Char}
    (hStop : Stop l after)
    (hl : l.rank < 3) :
    (ws *> symbol "&" *> ws *> call .prefixed :
      Rule FlowType).reads rules after = none := by
  have hDrop : Cursor.dropLiteral ['&'] (skip after) = none :=
    dropLiteral_of_avoids
      (hStop.skip_avoids (by simp [continues, hl]))
  simp [hDrop]

/- A bar before a brace is not followed by a type. -/
theorem Stop.reads_bar
    {l : Level}
    {after : List Char}
    (hStop : Stop l after)
    (hl : l.rank < 2) :
    (ws *> symbol "|" *> ws *> intersection).reads rules after =
      none := by
  have hBar := hStop.unbarred hl
  cases hSkip : skip after with
  | nil => simp [hSkip, Cursor.dropLiteral]
  | cons x us =>
      by_cases hx : x = '|'
      · subst hx
        have hHead := hBar us hSkip
        cases us with
        | nil => simp at hHead
        | cons u us =>
            simp only [List.head?_cons, Option.some.injEq] at hHead
            subst hHead
            have hNone :
                intersection.reads rules ('\x7d' :: us) = none :=
              reads_eq_none rfl rfl
            simp (disch := decide) [hSkip, Cursor.dropLiteral,
              hNone]
      · simp [hSkip, Cursor.dropLiteral, Ne.symm hx]

theorem reads_intersection_of_prefixed
    {text after : List Char}
    {t : FlowType}
    (h : rules .prefixed text = some (t, after))
    (hStop : Stop .intersection after) :
    intersection.reads rules text = some (t, after) :=
  reads_joinedBy (render .unary) [] rfl rfl rfl rfl h
    (by simp) (by simp) (hStop.reads_ampersand (by decide))

theorem reads_type_of_intersection
    {text after : List Char}
    {t : FlowType}
    (h : intersection.reads rules text = some (t, after))
    (hStop : Stop .union after) :
    rules .type text = some (t, after) := by
  rw [rules_type]
  exact reads_joinedBy (render .intersection) [] rfl rfl rfl rfl
    h (by simp) (by simp) (hStop.reads_bar (by decide))

------------------------------------------------------------
-- Heads of Printed Types
------------------------------------------------------------

/-
  The text does not start with a blank, and its first word is
  not the name of a parameter.
-/
structure Leads
    (text : List Char) : Prop where
  spaced : Avoids spacing text
  unnamed :
    ∀ w us, word.reads rules text = some (w, us) →
      Avoids keyMark.accepts (skip us)

/- The text does not make a name of the word before it. -/
structure Quiet
    (text : List Char) : Prop where
  apart : Avoids isIdentChar text
  unmarked : Avoids keyMark.accepts (skip text)

theorem Stop.quiet
    {l : Level}
    {text : List Char}
    (h : Stop l text) : Quiet text where
  apart := h.apart.of_goesOn
  unmarked :=
    h.next.mono (fun x hx => by simp [continues, hx])

/- Classes that share none of some characters are apart. -/
theorem eq_false_of_apart
    {q r : Char → Bool}
    {cs : List Char}
    {x : Char}
    (hMembers : ∀ y, r y = true → y ∈ cs)
    (hApart : ∀ y ∈ cs, q y = false)
    (hx : q x = true) : r x = false := by
  cases hr : r x with
  | false => rfl
  | true =>
      rw [hApart x (hMembers x hr)] at hx
      exact absurd hx Bool.false_ne_true

theorem mem_of_spacing
    (x : Char)
    (hx : spacing x = true) :
    x ∈ [' ', '\t', '\n', '\r', '/'] := by
  simpa [spacing, blank, or_assoc] using hx

theorem mem_of_signMark
    (x : Char)
    (hx : signMark.accepts x = true) : x ∈ ['+', '-'] := by
  simpa [signMark] using hx

theorem mem_of_keyMark
    (x : Char)
    (hx : keyMark.accepts x = true) : x ∈ [':', '?'] := by
  simpa [keyMark] using hx

/- A word starts with none of the other characters. -/
theorem IsWord.avoids
    {w : String}
    {q : Char → Bool}
    {cs : List Char}
    (hWord : IsWord w)
    (hMembers : ∀ y, q y = true → y ∈ cs)
    (hApart : ∀ y ∈ cs, isIdentStart y = false)
    (rest : List Char) : Avoids q (w.toList ++ rest) := by
  rcases hWord with ⟨x, xs, hText, hStart, -⟩
  simp [hText, eq_false_of_apart hMembers hApart hStart]

/- A word leads if nothing makes it the name of a parameter. -/
theorem leads_word
    {w : String}
    {rest : List Char}
    (hWord : IsWord w)
    (hRest : Quiet rest) : Leads (w.toList ++ rest) where
  spaced := hWord.avoids mem_of_spacing (by decide) rest
  unnamed := by
    intro v us hRead
    rw [reads_word_append rules hWord hRest.apart] at hRead
    cases hRead
    exact hRest.unmarked

/- A text that starts with no word leads. -/
theorem leads_cons
    {x : Char}
    (hSpacing : spacing x = false)
    (hWord : isIdentStart x = false)
    (xs : List Char) : Leads (x :: xs) where
  spaced := (avoids_cons _ _ _).mpr hSpacing
  unnamed := by
    intro w us hRead
    simp [reads_word_cons, hWord] at hRead

theorem ofParts_render
    (parts : List String)
    (name : TypeName)
    (after : List Char) :
    (parts.foldl .qualified name).render after =
      name.render
        (writeEach ['.'] (fun part rest => part.toList ++ rest)
          false parts after) := by
  induction parts generalizing name with
  | nil => rfl
  | cons part parts ih =>
      rw [List.foldl_cons, ih]
      simp [TypeName.render, writeEach, between]

theorem render_ofParts
    (head : String)
    (parts : List String)
    (after : List Char) :
    (TypeName.ofParts head parts).render after =
      head.toList ++
        writeEach ['.'] (fun part rest => part.toList ++ rest)
          false parts after :=
  ofParts_render parts (.simple head) after

theorem renderEach_eq_writeEach
    (separator : List Char)
    (l : Level)
    (isFirst : Bool)
    (ts : List FlowType)
    (after : List Char) :
    renderEach separator l isFirst ts after =
      writeEach separator (render l) isFirst ts after := by
  induction ts generalizing isFirst with
  | nil => rw [renderEach, writeEach]
  | cons t ts ih => rw [renderEach, writeEach, ih]

theorem quiet_cons
    {x : Char}
    (hApart : isIdentChar x = false)
    (hSpacing : spacing x = false)
    (hMark : keyMark.accepts x = false)
    (xs : List Char) : Quiet (x :: xs) where
  apart := (avoids_cons _ _ _).mpr hApart
  unmarked := by simp [skip_cons hSpacing, hMark]

theorem isWord_keyword
    (word : Keyword)
    (hStar : word ≠ .exists) : IsWord word.word := by
  cases word <;>
    first
    | exact absurd rfl hStar
    | exact ⟨_, _, rfl, by decide, by decide⟩

theorem not_isIdentStart_of_isDigit
    {x : Char}
    (hx : Decimal.isDigit x = true) :
    isIdentStart x = false := by
  simp only [Decimal.isDigit, Bool.and_eq_true,
    decide_eq_true_eq, Char.le_def, UInt32.le_iff_toNat_le] at hx
  simp only [isIdentStart, Bool.or_eq_false_iff,
    Bool.and_eq_false_iff, decide_eq_false_iff_not, Char.le_def,
    UInt32.le_iff_toNat_le]
  refine ⟨⟨⟨?_, ?_⟩, ?_⟩, ?_⟩
  · left
    have : 'a'.val.toNat = 97 := rfl
    have : '9'.val.toNat = 57 := rfl
    omega
  · left
    have : 'A'.val.toNat = 65 := rfl
    have : '9'.val.toNat = 57 := rfl
    omega
  · rintro rfl
    exact absurd hx (by decide)
  · rintro rfl
    exact absurd hx (by decide)

/- A number leads. -/
theorem leads_number
    {m ds : List Char}
    (hMinus : IsMinus m)
    (hDigits : IsDigits ds)
    (rest : List Char) : Leads (m ++ ds ++ rest) := by
  rcases hMinus with rfl | rfl
  · rcases hDigits with ⟨hNil, hAll⟩
    cases ds with
    | nil => exact absurd rfl hNil
    | cons d ds =>
        have hDigit := hAll d (by simp)
        exact leads_cons 
          (eq_false_of_apart mem_of_spacing (by decide) hDigit)
          (not_isIdentStart_of_isDigit hDigit) _
  · exact leads_cons rfl rfl _

theorem leads_enclose
    {own context : Level}
    {body : List Char → List Char}
    {after : List Char}
    (hBody : Leads (body after)) :
    Leads (enclose own context body after) := by
  unfold enclose
  split
  · exact leads_cons rfl rfl _
  · exact hBody

theorem leads_name
    {head : String}
    {after : List Char}
    (hHead : IsWord head)
    (parts : List String)
    (hAfter : Quiet after) :
    Leads ((TypeName.ofParts head parts).render after) := by
  rw [render_ofParts]
  apply leads_word hHead
  cases parts with
  | nil => exact hAfter
  | cons part parts => exact quiet_cons rfl rfl rfl _

theorem render_numeral
    {cs : List Char}
    (hNil : cs ≠ [])
    {l : Level}
    {value : Binary64}
    {after : List Char} :
    render l (.numberLiteral value (String.ofList cs)) after =
      cs ++ after := by
  rw [render]
  simp [hNil]

theorem render_typeOf
    (l : Level)
    (name : TypeName)
    (after : List Char) :
    render l (.typeOf (.generic name none)) after =
      enclose .unary l
        (fun after => "typeof".toList ++ ' ' :: name.render after)
        after := by
  rw [render]
  congr

/- A printed type leads. -/
theorem leads_render
    {t : FlowType}
    (hShaped : Shaped t)
    (l : Level)
    {after : List Char}
    (hAfter : Quiet after) : Leads (render l t after) := by
  induction hShaped generalizing l after with
  | keyword word =>
      rw [render]
      by_cases hStar : word = .exists
      · subst hStar
        exact leads_cons rfl rfl _
      · exact leads_word (isWord_keyword word hStar) hAfter
  | stringLiteral value =>
      rw [render]
      exact leads_cons rfl rfl _
  | numberLiteral hNumeral =>
      rcases hNumeral with
        ⟨m, ds, f, p, hMinus, hDigits, -, -, rfl⟩
      rw [render_numeral (by simp [hDigits.1])]
      simpa using leads_number hMinus hDigits (f ++ (p ++ after))
  | bigintLiteral hBigint =>
      rcases hBigint with ⟨m, ds, hMinus, hDigits, rfl⟩
      rw [render]
      simpa using leads_number hMinus hDigits ('n' :: after)
  | booleanLiteral value =>
      cases value with
      | false =>
          rw [render]
          exact leads_word ⟨_, _, rfl, by decide, by decide⟩ hAfter
      | true =>
          rw [render]
          exact leads_word ⟨_, _, rfl, by decide, by decide⟩ hAfter
  | @generic head parts args hHead _ _ _ _ _ =>
      cases args with
      | none =>
          rw [render]
          exact leads_name hHead parts hAfter
      | some args =>
          rw [render]
          exact leads_name hHead parts (quiet_cons rfl rfl rfl _)
  | @typeOf head parts hHead hParts =>
      have hName := leads_name hHead parts hAfter
      rw [render_typeOf]
      refine leads_enclose (leads_word ?_ ⟨?_, ?_⟩)
      · exact ⟨_, _, rfl, by decide, by decide⟩
      · exact (avoids_cons _ _ _).mpr rfl
      · rw [skip_blank hName.spaced]
        rw [render_ofParts]
        exact hHead.avoids mem_of_keyMark (by decide) _
  | nullable hInner ih =>
      rw [render]
      exact leads_enclose (leads_cons rfl rfl _)
  | array hElement ih =>
      rw [render]
      exact ih _ (Stop.bracket _).quiet
  | @union ts hTwo hMembers ih =>
      rw [render]
      apply leads_enclose
      cases ts with
      | nil => simp at hTwo
      | cons t ts =>
          rw [renderEach_eq_writeEach, writeEach]
          refine ih t (by simp) _ ?_
          cases ts with
          | nil => exact hAfter
          | cons u us => exact (Stop.bar (l := .atom) (by decide) _).quiet
  | @intersection ts hTwo hMembers ih =>
      rw [render]
      apply leads_enclose
      cases ts with
      | nil => simp at hTwo
      | cons t ts =>
          rw [renderEach_eq_writeEach, writeEach]
          refine ih t (by simp) _ ?_
          cases ts with
          | nil => exact hAfter
          | cons u us => exact (Stop.ampersand (l := .atom) (by decide) _).quiet
  | tuple hMembers ih =>
      rw [render]
      exact leads_cons rfl rfl _
  | @function typeParams =>
      rw [render]
      apply leads_enclose
      cases typeParams with
      | none =>
          rw [renderTypeParams]
          exact leads_cons rfl rfl _
      | some ts =>
          rw [renderTypeParams]
          exact leads_cons rfl rfl _
  | @object _ _ _ exact inexact =>
      rw [render]
      cases exact
      · exact leads_cons rfl rfl _
      · exact leads_cons rfl rfl _

end Grammar

end FlowType

end TypeGraft
