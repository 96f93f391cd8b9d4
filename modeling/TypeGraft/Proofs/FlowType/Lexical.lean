import TypeGraft.FlowType.Parser
import TypeGraft.FlowType.Printer
import TypeGraft.Proofs.Fallible
import TypeGraft.Proofs.Peg.Reading

/-
  How the words, numbers and strings of the type grammar are
  read, and which characters its rules start with.

  Main declarations:
    * `FlowType.Grammar.rules`
    * `FlowType.Grammar.callsStart`
    * `FlowType.Grammar.Avoids`
    * `FlowType.Grammar.IsWord`
    * `FlowType.Grammar.reads_word_append`
    * `FlowType.Grammar.reads_stringLiteral_quoted`
    * `FlowType.Grammar.reads_propertyKey_quoted`
    * `FlowType.Grammar.IsNumeral`
    * `FlowType.parse_eq_ok_iff_reads`
-/

namespace TypeGraft

namespace FlowType

namespace Grammar

open Peg

/-
  Whether all characters of a list pass a test is decided by
  going through the list.  Characters are finitely many, and
  going through all of them must not be tried first.
-/
instance (priority := 2000)
    {p : Char → Prop}
    [DecidablePred p]
    (cs : List Char) :
    Decidable (∀ c ∈ cs, p c) :=
  List.decidableBAll p cs

------------------------------------------------------------
-- The Grammar Is Guarded
------------------------------------------------------------

instance : FlowType.grammar.Guarded where
  rank
    | .type => 2
    | .prefixed => 1
    | .primary => 0
  rank_lt n := by cases n <;> decide
  rule_reads n := by cases n <;> rfl
  rule_leads n := by cases n <;> rfl

instance : FlowType.grammar.Calm where
  rule_calm n := by cases n <;> rfl

/- What the rules of the grammar read. -/
abbrev rules :
    RuleName → List Char → Option (FlowType × List Char) :=
  FlowType.grammar.reads

theorem rules_type
    (xs : List Char) :
    rules .type xs = union.reads rules xs :=
  FlowType.grammar.reads_eq .type xs

theorem rules_prefixed
    (xs : List Char) :
    rules .prefixed xs = prefixed.reads rules xs :=
  FlowType.grammar.reads_eq .prefixed xs

theorem rules_primary
    (xs : List Char) :
    rules .primary xs = primary.reads rules xs :=
  FlowType.grammar.reads_eq .primary xs

/- A repetition is an item and a repetition, or nothing. -/
theorem reads_many_rules
    {α : Type}
    {p : Rule α}
    (hReads : p.nullable = false)
    (xs : List Char) :
    (many p).reads rules xs =
      match p.reads rules xs with
      | none => some ([], xs)
      | some (a, ys) =>
          ((many p).reads rules ys).map
            (fun v => (a :: v.1, v.2)) :=
  FlowType.grammar.reads_many hReads xs

/- A repetition ends where no item is. -/
theorem reads_many_stop
    {α : Type}
    {p : Rule α}
    (hReads : p.nullable = false)
    {xs : List Char}
    (hStop : p.reads rules xs = none) :
    (many p).reads rules xs = some ([], xs) := by
  rw [reads_many_rules hReads, hStop]

/- Where a repetition ends there is no further item. -/
theorem reads_of_reads_many
    {α : Type}
    {p : Rule α}
    (hReads : p.nullable = false)
    {xs ys : List Char}
    {as : List α}
    (h : (many p).reads rules xs = some (as, ys)) :
    p.reads rules ys = none := by
  induction as generalizing xs with
  | nil =>
      rw [reads_many_rules hReads] at h
      cases hItem : p.reads rules xs with
      | none =>
          have hEnd : xs = ys := by simpa [hItem] using h
          rw [← hEnd]
          exact hItem
      | some v => simp [hItem] at h
  | cons a as ih =>
      rw [reads_many_rules hReads] at h
      cases hItem : p.reads rules xs with
      | none => simp [hItem] at h
      | some v =>
          simp only [hItem, Option.map_eq_some_iff] at h
          rcases h with ⟨w, hMany, hEq⟩
          cases hEq
          exact ih hMany

------------------------------------------------------------
-- Heads of Texts
------------------------------------------------------------

/- The text does not start with such a character. -/
def Avoids
    (p : Char → Bool)
    (text : List Char) : Prop :=
  ∀ x ∈ text.head?, p x = false

@[simp] theorem avoids_nil
    (p : Char → Bool) : Avoids p [] := by
  simp [Avoids]

@[simp] theorem avoids_cons
    (p : Char → Bool)
    (x : Char)
    (xs : List Char) :
    Avoids p (x :: xs) ↔ p x = false := by
  simp [Avoids]

theorem Avoids.mono
    {p q : Char → Bool}
    {text : List Char}
    (h : Avoids q text)
    (hSub : ∀ x, p x = true → q x = true) :
    Avoids p text := by
  intro x hx
  cases hp : p x with
  | false => rfl
  | true =>
      have hq := hSub x hp
      rw [h x hx] at hq
      exact absurd hq Bool.false_ne_true

theorem dropLiteral_of_avoids
    {l : Char}
    {ls rest : List Char}
    (hRest : Avoids (fun x => x = l) rest) :
    Cursor.dropLiteral (l :: ls) rest = none := by
  cases rest with
  | nil => rfl
  | cons x rest =>
      rw [avoids_cons] at hRest
      have hx : x ≠ l := of_decide_eq_false hRest
      simp [Cursor.dropLiteral, Ne.symm hx]

theorem reads_char_of_avoids
    (call : RuleName → List Char → Option (FlowType × List Char))
    {cls : CharClass}
    {rest : List Char}
    (hRest : Avoids cls.accepts rest) :
    (char cls : Rule Char).reads call rest = none := by
  cases rest with
  | nil => rfl
  | cons x rest =>
      rw [avoids_cons] at hRest
      simp [hRest]

theorem takeWhile_of_avoids
    {p : Char → Bool}
    {xs rest : List Char}
    (hAll : ∀ x ∈ xs, p x = true)
    (hRest : Avoids p rest) :
    (xs ++ rest).takeWhile p = xs ∧
      (xs ++ rest).dropWhile p = rest := by
  rw [List.takeWhile_append_of_pos hAll,
    List.dropWhile_append_of_pos hAll]
  cases rest with
  | nil => simp
  | cons x rest => simp_all

------------------------------------------------------------
-- Blanks
------------------------------------------------------------

/- What blanks and comments start with. -/
def spacing
    (x : Char) : Bool :=
  blank.accepts x || x = '/'

@[simp] theorem ws_starts
    (first : RuleName → Char → Bool)
    (x : Char) :
    ws.starts first x = spacing x := by
  simp [ws, blockComment, lineComment, spacing, eq_comm]

@[simp] theorem ws_nullable : ws.nullable = true := rfl

------------------------------------------------------------
-- First Characters of Rules
------------------------------------------------------------

/- What a primary type starts with. -/
def startsPrimary
    (x : Char) : Bool :=
  primary.starts (fun _ _ => false) x

/- What the rules start with. -/
def first : RuleName → Char → Bool
  | .primary, x => startsPrimary x
  | .prefixed, x => x = '?' || startsPrimary x
  | .type, x => x = '|' || x = '&' || x = '?' || startsPrimary x

theorem callsStart : CallsStart first rules := by
  apply FlowType.grammar.reads_callsStart
  intro n x hx
  cases n with
  | primary =>
      have hSame :=
        starts_eq_of_leads first (fun _ _ => false) x primary
          rfl
      exact hSame.trans hx
  | prefixed =>
      change prefixed.starts first x = false
      simp only [first, Bool.or_eq_false_iff,
        decide_eq_false_iff_not] at hx
      simp [prefixed, arrayed, first, hx, Ne.symm hx.1]
  | type =>
      change union.starts first x = false
      simp only [first, Bool.or_eq_false_iff,
        decide_eq_false_iff_not] at hx
      simp [union, intersection, joinedBy, first, hx,
        Ne.symm hx.1.1.1, Ne.symm hx.1.1.2]

/- An expression that has to read fails at other characters. -/
theorem reads_eq_none
    {α : Type}
    {p : Rule α}
    {x : Char}
    {xs : List Char}
    (hReads : p.nullable = false)
    (hStart : p.starts first x = false) :
    p.reads rules (x :: xs) = none :=
  reads_eq_none_of_not_starts callsStart p x xs hReads hStart

/- Nothing is skipped where no blank or comment is. -/
theorem reads_ws_of_avoids
    {call : RuleName → List Char → Option (FlowType × List Char)}
    {text : List Char}
    (hText : Avoids spacing text) :
    ws.reads call text = some ((), text) := by
  have hStart :
      ∀ x xs, text = x :: xs → ws.starts first x = false := by
    intro x xs hEq
    rw [ws_starts]
    exact hText x (by simp [hEq])
  rw [reads_eq_of_callFree call rules ws rfl]
  cases hRead : ws.reads rules text with
  | none => simp [ws, reads_many_eq] at hRead
  | some v =>
      have hSame :=
        (reads_of_not_starts callsStart ws text hStart v.1 v.2
          hRead).1
      rw [← hSame]

/- One blank is skipped before something else. -/
theorem reads_ws_blank
    {text : List Char}
    (hText : Avoids spacing text) :
    ws.reads rules (' ' :: text) = some ((), text) := by
  have hRest : ws.reads rules text = some ((), text) :=
    reads_ws_of_avoids hText
  simp only [ws, reads_quiet, reads_keepRight, reads_succeed,
    Option.bind_eq_some_iff] at hRest ⊢
  rcases hRest with ⟨v, hMany, hEq⟩
  refine ⟨(() :: v.1, v.2), ?_, hEq⟩
  have hBlank : blank.accepts ' ' = true := rfl
  rw [reads_many_rules rfl]
  simp [hBlank, hMany]

------------------------------------------------------------
-- Words
------------------------------------------------------------

/- A letter or the like, and letters and digits behind it. -/
def IsWord
    (w : String) : Prop :=
  ∃ c cs, w.toList = c :: cs ∧ isIdentStart c = true ∧
    ∀ x ∈ cs, isIdentChar x = true

variable (call : RuleName → List Char → Option (FlowType × List Char))

theorem reads_word_cons
    (x : Char)
    (xs : List Char) :
    word.reads call (x :: xs) =
      if isIdentStart x then
        some
          (String.ofList (x :: xs.takeWhile isIdentChar),
            xs.dropWhile isIdentChar)
      else none := by
  by_cases hStart : isIdentStart x <;>
    simp [word, identStart, identChar, hStart]

@[simp] theorem reads_word_nil :
    word.reads call [] = none := by
  simp [word]

/- A word is read whole. -/
theorem reads_word_append
    {w : String}
    {rest : List Char}
    (hWord : IsWord w)
    (hRest : Avoids isIdentChar rest) :
    word.reads call (w.toList ++ rest) = some (w, rest) := by
  rcases hWord with ⟨c, cs, hText, hStart, hAll⟩
  have hSplit := takeWhile_of_avoids hAll hRest
  rw [hText, List.cons_append, reads_word_cons, hSplit.1,
    hSplit.2, ← hText]
  simp [hStart]

/- What is read as a word is one. -/
theorem isWord_of_reads
    {w : String}
    {xs ys : List Char}
    (h : word.reads call xs = some (w, ys)) : IsWord w := by
  cases xs with
  | nil => simp at h
  | cons x xs =>
      rw [reads_word_cons] at h
      by_cases hStart : isIdentStart x
      · simp only [hStart, if_true, Option.some.injEq,
          Prod.mk.injEq] at h
        rcases h with ⟨rfl, -⟩
        refine ⟨x, xs.takeWhile isIdentChar, ?_, hStart, ?_⟩
        · simp
        · intro y hy
          exact List.all_eq_true.mp List.all_takeWhile y hy
      · simp [hStart] at h

/- A word is read to its end. -/
theorem append_of_reads_word
    {w : String}
    {xs ys : List Char}
    (h : word.reads call xs = some (w, ys)) :
    xs = w.toList ++ ys ∧ Avoids isIdentChar ys := by
  cases xs with
  | nil => simp at h
  | cons x xs =>
      rw [reads_word_cons] at h
      by_cases hStart : isIdentStart x
      · simp only [hStart, if_true, Option.some.injEq,
          Prod.mk.injEq] at h
        rcases h with ⟨rfl, rfl⟩
        constructor
        · rw [String.toList_ofList, List.cons_append,
            List.takeWhile_append_dropWhile]
        · intro y hy
          have hNot := List.head?_dropWhile_not isIdentChar xs
          rw [hy] at hNot
          exact hNot
      · simp [hStart] at h

@[simp] theorem reads_identifier
    (xs : List Char) :
    identifier.reads call xs = word.reads call xs := by
  simp [identifier]

@[simp] theorem reads_keyword
    (w : String)
    (xs : List Char) :
    (keyword w).reads call xs =
      (word.reads call xs).bind (fun v =>
        if v.1 = w then some ((), v.2) else none) := by
  simp only [keyword, reads_check]
  congr
  funext v
  by_cases hSame : v.1 = w <;> simp [hSame]

------------------------------------------------------------
-- Strings
------------------------------------------------------------

theorem unescape_escape_append
    (c : Char)
    (cs : List Char) :
    unescape (escape c ++ cs) = c :: unescape cs := by
  unfold escape
  split
  · simp_all [unescape]
  · split
    · simp_all [unescape]
    · split
      · simp_all [unescape]
      · rw [List.singleton_append, unescape.eq_def]
        split <;> simp_all

/- Resolving escapes undoes escaping. -/
theorem unescape_flatMap_escape
    (cs : List Char) :
    unescape (cs.flatMap escape) = cs := by
  induction cs with
  | nil => rfl
  | cons c cs ih =>
      rw [List.flatMap_cons, unescape_escape_append, ih]

/- One piece of what stands in quotes. -/
def quotedPiece
    (plain : CharClass) : Rule (List Char) :=
  ((fun c => ['\\', c]) <$> (symbol "\\" *> char anyChar)) <|>
    ((fun c => [c]) <$> char plain)

theorem quotedBody_eq
    (plain : CharClass) :
    quotedBody plain =
      List.flatten <$> many (quotedPiece plain) := rfl

theorem reads_quotedPiece_escape
    (c : Char)
    (rest : List Char) :
    (quotedPiece inDoubleQuotes).reads call
        (escape c ++ rest) =
      some (escape c, rest) := by
  unfold escape
  split
  · simp [quotedPiece, Cursor.dropLiteral, anyChar]
  · split
    · simp [quotedPiece, Cursor.dropLiteral, anyChar]
    · split
      · simp [quotedPiece, Cursor.dropLiteral, anyChar]
      · rename_i hQuote hSlash _
        simp [quotedPiece, Cursor.dropLiteral, inDoubleQuotes,
          hQuote, hSlash, Ne.symm hSlash]

/- What stands in quotes is read in the pieces it was written in. -/
theorem reads_many_quotedPiece
    (cs rest : List Char) :
    (many (quotedPiece inDoubleQuotes)).reads rules
        (cs.flatMap escape ++ '"' :: rest) =
      some (cs.map escape, '"' :: rest) := by
  induction cs with
  | nil =>
      apply reads_many_stop rfl
      simp [quotedPiece, inDoubleQuotes, Cursor.dropLiteral]
  | cons c cs ih =>
      rw [reads_many_rules rfl, List.flatMap_cons,
        List.append_assoc, reads_quotedPiece_escape]
      simp only [ih, Option.map_some, List.map_cons]

theorem reads_quotedBody
    (cs rest : List Char) :
    (quotedBody inDoubleQuotes).reads rules
        (cs.flatMap escape ++ '"' :: rest) =
      some (cs.flatMap escape, '"' :: rest) := by
  simp [quotedBody_eq, reads_many_quotedPiece,
    ← List.flatMap_def]

/- A written string is read back, whatever follows it. -/
theorem reads_stringLiteral_quoted
    (v : String)
    (rest : List Char) :
    stringLiteral.reads rules (quoted v ++ rest) =
      some (v, rest) := by
  have hBody := reads_quotedBody v.toList rest
  have hBack := unescape_flatMap_escape v.toList
  simp [stringLiteral, quoted, Cursor.dropLiteral, hBody,
    hBack]

/- No word starts with a quote, so a written key is no name. -/
theorem reads_propertyKey_quoted
    (v : String)
    (rest : List Char) :
    propertyKey.reads rules (keyText (.string v) ++ rest) =
      some (.string v, rest) := by
  have hString := reads_stringLiteral_quoted v rest
  have hWord : word.reads rules (quoted v ++ rest) = none :=
    reads_eq_none rfl rfl
  simp [propertyKey, keyText, hWord, hString]

------------------------------------------------------------
-- Numbers
------------------------------------------------------------

/- At least one digit and nothing else. -/
def IsDigits
    (ds : List Char) : Prop :=
  ds ≠ [] ∧ ∀ x ∈ ds, Decimal.isDigit x = true

/- A minus sign or nothing. -/
def IsMinus
    (m : List Char) : Prop :=
  m = [] ∨ m = ['-']

/- A fraction with its point, or nothing. -/
def IsFraction
    (f : List Char) : Prop :=
  f = [] ∨ ∃ ds, IsDigits ds ∧ f = '.' :: ds

/- A power of ten with its mark, or nothing. -/
def IsPower
    (p : List Char) : Prop :=
  p = [] ∨
    ∃ mark sign ds, exponentMark.accepts mark = true ∧
      (∀ s ∈ sign, signMark.accepts s = true) ∧
      IsDigits ds ∧ p = mark :: Option.toList sign ++ ds

/- How number literals are spelled. -/
def IsNumeral
    (cs : List Char) : Prop :=
  ∃ m ds f p, IsMinus m ∧ IsDigits ds ∧ IsFraction f ∧
    IsPower p ∧ cs = m ++ ds ++ f ++ p

/- How big number literals are spelled. -/
def IsBigint
    (cs : List Char) : Prop :=
  ∃ m ds, IsMinus m ∧ IsDigits ds ∧ cs = m ++ ds ++ ['n']

theorem reads_digits_append
    {ds rest : List Char}
    (hDigits : IsDigits ds)
    (hRest : Avoids Decimal.isDigit rest) :
    digits.reads call (ds ++ rest) = some (ds, rest) := by
  rcases hDigits with ⟨hNil, hAll⟩
  cases ds with
  | nil => exact absurd rfl hNil
  | cons d ds =>
      have hHead := hAll d (by simp)
      have hTail : ∀ x ∈ ds, Decimal.isDigit x = true :=
        fun x hx => hAll x (by simp [hx])
      have hSplit := takeWhile_of_avoids hTail hRest
      simp [digits, digit, hHead, hSplit]

theorem isDigits_of_reads
    {ds xs ys : List Char}
    (h : digits.reads call xs = some (ds, ys)) :
    IsDigits ds := by
  cases xs with
  | nil => simp [digits] at h
  | cons x xs =>
      by_cases hHead : Decimal.isDigit x
      · simp only [digits, digit, reads_many1, reads_char_cons,
          hHead, if_true, Option.bind_some, reads_many_char,
          Option.map_some, Option.some.injEq,
          Prod.mk.injEq] at h
        rcases h with ⟨rfl, -⟩
        refine ⟨List.cons_ne_nil _ _, ?_⟩
        intro y hy
        rcases List.mem_cons.mp hy with hFirst | hLater
        · rw [hFirst]
          exact hHead
        · exact List.all_eq_true.mp List.all_takeWhile y hLater
      · simp [digits, digit, hHead] at h

theorem reads_minus_append
    {m rest : List Char}
    (hMinus : IsMinus m)
    (hRest : Avoids (fun x => x = '-') rest) :
    minus.reads call (m ++ rest) = some (m, rest) := by
  rcases hMinus with rfl | rfl
  · cases rest with
    | nil => simp [minus, Cursor.dropLiteral]
    | cons x rest =>
        have hx : x ≠ '-' := by simpa using hRest
        simp [minus, Cursor.dropLiteral, Ne.symm hx]
  · simp [minus, Cursor.dropLiteral]

theorem isMinus_of_reads
    {m xs ys : List Char}
    (h : minus.reads call xs = some (m, ys)) : IsMinus m := by
  rw [minus, reads_map] at h
  rcases Option.map_eq_some_iff.mp h with ⟨v, -, hEq⟩
  have hMinus : (if v.1.isSome then ['-'] else []) = m :=
    congrArg Prod.fst hEq
  rw [← hMinus]
  cases v.1 with
  | none => exact .inl rfl
  | some _ => exact .inr rfl

theorem reads_fraction_append
    {f rest : List Char}
    (hFraction : IsFraction f)
    (hRest : Avoids (fun x => Decimal.isDigit x || x = '.') rest) :
    fraction.reads call (f ++ rest) = some (f, rest) := by
  rcases hFraction with rfl | ⟨ds, hDigits, rfl⟩
  · cases rest with
    | nil => simp [fraction, Cursor.dropLiteral]
    | cons x rest =>
        have hx : x ≠ '.' := by simp_all
        simp [fraction, Cursor.dropLiteral, Ne.symm hx]
  · have hAvoids : Avoids Decimal.isDigit rest := by
      cases rest <;> simp_all
    have hRead := reads_digits_append call hDigits hAvoids
    simp [fraction, Cursor.dropLiteral, hRead]

theorem isFraction_of_reads
    {f xs ys : List Char}
    (h : fraction.reads call xs = some (f, ys)) :
    IsFraction f := by
  rw [fraction, reads_map] at h
  rcases Option.map_eq_some_iff.mp h with ⟨v, hRead, hEq⟩
  have hFraction : v.1.getD [] = f := congrArg Prod.fst hEq
  rcases (reads_optional_eq_some_iff _ _ _ _ _).mp hRead with
    ⟨a, hSome, hParts⟩ | ⟨hNone, -, -⟩
  · simp only [reads_map, reads_keepRight,
      Option.bind_eq_some_iff, Option.map_eq_some_iff] at hParts
    rcases hParts with ⟨d, ⟨u, -, hDigits⟩, hAll⟩
    have hText : '.' :: d.1 = a := congrArg Prod.fst hAll
    refine .inr ⟨d.1, isDigits_of_reads call hDigits, ?_⟩
    rw [← hFraction, hSome, hText]
    rfl
  · left
    rw [← hFraction, hNone]
    rfl

theorem isIdentChar_of_isDigit
    {x : Char}
    (h : Decimal.isDigit x = true) :
    isIdentChar x = true := by
  simp_all [Decimal.isDigit, isIdentChar]

theorem isIdentChar_of_exponentMark
    {x : Char}
    (h : exponentMark.accepts x = true) :
    isIdentChar x = true := by
  simp only [exponentMark, Bool.or_eq_true,
    decide_eq_true_eq] at h
  rcases h with rfl | rfl <;> rfl

/- Digits start with a digit. -/
theorem IsDigits.avoids
    {ds : List Char}
    {p : Char → Bool}
    (hDigits : IsDigits ds)
    (hp : ∀ x, Decimal.isDigit x = true → p x = false)
    (rest : List Char) :
    Avoids p (ds ++ rest) := by
  rcases hDigits with ⟨hNil, hAll⟩
  cases ds with
  | nil => exact absurd rfl hNil
  | cons d ds => simp [hp d (hAll d (by simp))]

theorem reads_sign_append
    {sign : Option Char}
    {rest : List Char}
    (hSign : ∀ s ∈ sign, signMark.accepts s = true)
    (hRest : Avoids signMark.accepts rest) :
    (Peg.optional (char signMark) : Rule (Option Char)).reads
        call (sign.toList ++ rest) =
      some (sign, rest) := by
  cases sign with
  | none =>
      cases rest with
      | nil => simp
      | cons x rest => simp_all
  | some s => simp [hSign s rfl]

theorem not_signMark_of_isDigit
    (x : Char)
    (h : Decimal.isDigit x = true) :
    signMark.accepts x = false := by
  cases hSign : signMark.accepts x with
  | false => rfl
  | true =>
      simp only [signMark, Bool.or_eq_true,
        decide_eq_true_eq] at hSign
      rcases hSign with rfl | rfl <;> exact absurd h (by decide)

theorem reads_power_append
    {p rest : List Char}
    (hPower : IsPower p)
    (hRest : Avoids isIdentChar rest) :
    power.reads call (p ++ rest) = some (p, rest) := by
  rcases hPower with
    rfl | ⟨mark, sign, ds, hMark, hSign, hDigits, rfl⟩
  · have hNoMark : Avoids exponentMark.accepts rest :=
      hRest.mono (fun x => isIdentChar_of_exponentMark)
    cases rest with
    | nil => simp [power]
    | cons x rest =>
        rw [avoids_cons] at hNoMark
        simp [power, hNoMark]
  · have hRead :=
      reads_digits_append call hDigits
        (hRest.mono (fun x => isIdentChar_of_isDigit))
    have hSignRead :=
      reads_sign_append call hSign
        (hDigits.avoids not_signMark_of_isDigit rest)
    simp only [power, List.cons_append, List.append_assoc,
      reads_map, reads_optional _ _ (_ <*> _), reads_apply,
      reads_char_cons, hMark, if_true, Option.map_some,
      Option.bind_some, hSignRead, hRead, Option.getD_some]

theorem isPower_of_reads
    {p xs ys : List Char}
    (h : power.reads call xs = some (p, ys)) : IsPower p := by
  rw [power, reads_map] at h
  rcases Option.map_eq_some_iff.mp h with ⟨v, hRead, hEq⟩
  have hPower : v.1.getD [] = p := congrArg Prod.fst hEq
  rcases (reads_optional_eq_some_iff _ _ _ _ _).mp hRead with
    ⟨a, hSome, hParts⟩ | ⟨hNone, -, -⟩
  · simp only [reads_apply, reads_map,
      Option.bind_eq_some_iff, Option.map_eq_some_iff] at hParts
    rcases hParts with
      ⟨_, ⟨_, ⟨u, hMark, rfl⟩, s, hSign, rfl⟩, d, hDigits, hAll⟩
    have hText : u.1 :: s.1.toList ++ d.1 = a :=
      congrArg Prod.fst hAll
    refine .inr ⟨u.1, s.1, d.1, ?_, ?_, ?_, ?_⟩
    · exact ((reads_char_eq_some_iff _ _ _ _ _).mp hMark).2
    · intro x hx
      rcases (reads_optional_eq_some_iff _ _ _ _ _).mp hSign with
        ⟨y, hSome', hChar⟩ | ⟨hNone, -, -⟩
      · rw [hSome'] at hx
        cases hx
        exact ((reads_char_eq_some_iff _ _ _ _ _).mp hChar).2
      · simp [hNone] at hx
    · exact isDigits_of_reads call hDigits
    · rw [← hPower, hSome, hText]
      rfl
  · left
    rw [← hPower, hNone]
    rfl

theorem IsFraction.avoids
    {f rest : List Char}
    {q : Char → Bool}
    (hFraction : IsFraction f)
    (hPoint : q '.' = false)
    (hRest : Avoids q rest) : Avoids q (f ++ rest) := by
  rcases hFraction with rfl | ⟨ds, -, rfl⟩
  · exact hRest
  · simp [hPoint]

theorem IsPower.avoids
    {p rest : List Char}
    {q : Char → Bool}
    (hPower : IsPower p)
    (hSmall : q 'e' = false)
    (hLarge : q 'E' = false)
    (hRest : Avoids q rest) : Avoids q (p ++ rest) := by
  rcases hPower with rfl | ⟨mark, sign, ds, hMark, -, -, rfl⟩
  · exact hRest
  · simp only [exponentMark, Bool.or_eq_true,
      decide_eq_true_eq] at hMark
    rcases hMark with rfl | rfl
    · simp [hSmall]
    · simp [hLarge]

/- What does not go on behind a number. -/
def goesOn
    (x : Char) : Bool :=
  isIdentChar x || x = '.'

theorem Avoids.of_goesOn
    {rest : List Char}
    (hRest : Avoids goesOn rest) : Avoids isIdentChar rest :=
  hRest.mono (fun x hx => by simp [goesOn, hx])

theorem not_minus_of_isDigit
    (x : Char)
    (h : Decimal.isDigit x = true) :
    decide (x = '-') = false := by
  simp only [decide_eq_false_iff_not]
  rintro rfl
  exact absurd h (by decide)

/- A number is read whole. -/
theorem reads_numberLiteral_append
    {cs rest : List Char}
    (hNumeral : IsNumeral cs)
    (hRest : Avoids goesOn rest) :
    numberLiteral.reads call (cs ++ rest) =
      some
        (.numberLiteral (Binary64.ofText cs)
          (String.ofList cs), rest) := by
  rcases hNumeral with
    ⟨m, ds, f, p, hMinus, hDigits, hFraction, hPower, rfl⟩
  have hWord := hRest.of_goesOn
  have hEndDigits : Avoids Decimal.isDigit (f ++ (p ++ rest)) :=
    hFraction.avoids rfl
      (hPower.avoids rfl rfl
        (hWord.mono (fun x => isIdentChar_of_isDigit)))
  have hEndFraction :
      Avoids (fun x => Decimal.isDigit x || x = '.')
        (p ++ rest) :=
    hPower.avoids rfl rfl
      (hRest.mono (fun x hx => by
        rcases Bool.or_eq_true_iff.mp hx with hDigit | hPoint
        · simp [goesOn, isIdentChar_of_isDigit hDigit]
        · simp [goesOn, hPoint]))
  have hEnd :
      (char identChar : Rule Char).reads call rest = none :=
    reads_char_of_avoids call hWord
  simp only [numberLiteral, List.append_assoc, reads_map,
    reads_keepLeft, reads_apply, reads_absent,
    reads_minus_append call hMinus
      (hDigits.avoids not_minus_of_isDigit (f ++ (p ++ rest))),
    reads_digits_append call hDigits hEndDigits,
    reads_fraction_append call hFraction hEndFraction,
    reads_power_append call hPower hWord, hEnd,
    Option.map_some, Option.bind_some, Option.isSome_none]
  simp

/- A number is not read as a big number. -/
theorem reads_bigintLiteral_of_isNumeral
    {cs rest : List Char}
    (hNumeral : IsNumeral cs)
    (hRest : Avoids goesOn rest) :
    bigintLiteral.reads call (cs ++ rest) = none := by
  rcases hNumeral with
    ⟨m, ds, f, p, hMinus, hDigits, hFraction, hPower, rfl⟩
  have hWord := hRest.of_goesOn
  have hEndDigits : Avoids Decimal.isDigit (f ++ (p ++ rest)) :=
    hFraction.avoids rfl
      (hPower.avoids rfl rfl
        (hWord.mono (fun x => isIdentChar_of_isDigit)))
  have hNoMark :
      Avoids (fun x => x = 'n') (f ++ (p ++ rest)) :=
    hFraction.avoids rfl
      (hPower.avoids rfl rfl
        (hWord.mono (fun x hx => by
          rw [of_decide_eq_true hx]
          rfl)))
  have hEnd :
      Cursor.dropLiteral "n".toList (f ++ (p ++ rest)) =
        none :=
    dropLiteral_of_avoids hNoMark
  simp only [bigintLiteral, List.append_assoc, reads_map,
    reads_keepLeft, reads_apply, reads_symbol,
    reads_minus_append call hMinus
      (hDigits.avoids not_minus_of_isDigit (f ++ (p ++ rest))),
    reads_digits_append call hDigits hEndDigits, hEnd,
    Option.map_some, Option.bind_some, Option.map_none,
    Option.bind_none]

/- A big number is read whole. -/
theorem reads_bigintLiteral_append
    {cs rest : List Char}
    (hBigint : IsBigint cs)
    (hRest : Avoids isIdentChar rest) :
    bigintLiteral.reads call (cs ++ rest) =
      some (.bigintLiteral (String.ofList cs), rest) := by
  rcases hBigint with ⟨m, ds, hMinus, hDigits, rfl⟩
  have hEnd :
      (char identChar : Rule Char).reads call rest = none :=
    reads_char_of_avoids call hRest
  have hEndDigits : Avoids Decimal.isDigit ('n' :: rest) := by
    simp [Decimal.isDigit]
  simp only [bigintLiteral, List.append_assoc, reads_map,
    reads_keepLeft, reads_apply, reads_absent, reads_symbol,
    List.cons_append, List.nil_append,
    reads_minus_append call hMinus
      (hDigits.avoids not_minus_of_isDigit ('n' :: rest)),
    reads_digits_append call hDigits hEndDigits,
    Option.map_some, Option.bind_some]
  simp [Cursor.dropLiteral, hEnd]

/- What is read as a number is one. -/
theorem isNumeral_of_reads
    {t : FlowType}
    {xs ys : List Char}
    (h : numberLiteral.reads call xs = some (t, ys)) :
    ∃ cs, IsNumeral cs ∧
      t =
        .numberLiteral (Binary64.ofText cs)
          (String.ofList cs) := by
  simp only [numberLiteral, reads_map, reads_keepLeft,
    reads_apply, Option.bind_eq_some_iff,
    Option.map_eq_some_iff] at h
  rcases h with
    ⟨_, ⟨_, ⟨_, ⟨_, ⟨_, ⟨m, hMinus, rfl⟩, d, hDigits, rfl⟩, f,
      hFraction, rfl⟩, p, hPower, rfl⟩, _, -, rfl⟩, hEq⟩
  refine ⟨m.1 ++ d.1 ++ f.1 ++ p.1, ?_, ?_⟩
  · exact ⟨m.1, d.1, f.1, p.1, isMinus_of_reads call hMinus,
      isDigits_of_reads call hDigits,
      isFraction_of_reads call hFraction,
      isPower_of_reads call hPower, rfl⟩
  · exact (congrArg Prod.fst hEq).symm

/- What is read as a big number is one. -/
theorem isBigint_of_reads
    {t : FlowType}
    {xs ys : List Char}
    (h : bigintLiteral.reads call xs = some (t, ys)) :
    ∃ cs, IsBigint cs ∧
      t = .bigintLiteral (String.ofList cs) := by
  simp only [bigintLiteral, reads_map, reads_keepLeft,
    reads_apply, Option.bind_eq_some_iff,
    Option.map_eq_some_iff] at h
  rcases h with
    ⟨_, ⟨_, ⟨_, ⟨m, hMinus, rfl⟩, _, ⟨d, hDigits, _, -, rfl⟩,
      rfl⟩, _, -, rfl⟩, hEq⟩
  refine ⟨m.1 ++ d.1 ++ ['n'], ?_, ?_⟩
  · exact ⟨m.1, d.1, isMinus_of_reads call hMinus,
      isDigits_of_reads call hDigits, rfl⟩
  · exact (congrArg Prod.fst hEq).symm

end Grammar

------------------------------------------------------------
-- Type Texts
------------------------------------------------------------

/-
  A text is read as a type if the dialect has types and the
  declaration around the text is read to its end.
-/
theorem parse_eq_ok_iff_reads
    (dialect : Dialect)
    (text : String)
    (t : FlowType) :
    FlowType.parse dialect text = .ok t ↔
      dialect.supportsTypes = true ∧
        ∃ declared,
          Grammar.typeAlias.reads Grammar.rules
              (fragmentSource text) =
            some (declared, []) ∧
          declared.right = t := by
  have hReads :=
    FlowType.grammar.parse_eq_ok_iff_reads Grammar.typeAlias rfl
      (fragmentSource text)
  unfold FlowType.parse readWith
  cases hTypes : dialect.supportsTypes with
  | false => simp [Except.map]
  | true =>
      simp only [if_true, true_and, ← hReads]
      cases FlowType.grammar.parse Grammar.typeAlias
          (fragmentSource text) with
      | error failures => simp [Except.map]
      | ok declared => simp [Except.map]

end FlowType

end TypeGraft
