import Mathlib.Data.List.Basic
import Mathlib.Data.List.TakeWhile
import TypeGraft.Json.Writer
import TypeGraft.Proofs.Json.Proper

/-
  Numbers written and read again.

  A number ends where a value ends: at a comma, at a closing
  bracket or at the end of the text.  What stands there does
  not change how the number is read, so it is enough to read
  numbers alone.  Whole numbers of 64 bits read back as what
  they are.  Doubles do not always, since reading rounds more
  than once; those that do alone do everywhere.

  Key definitions include:
    * `Json.Reader.Ends`
    * `Number.Legible`

  Main declarations:
    * `Json.Reader.readNumeral_append`
    * `Json.Reader.readNumeral_wholeText`
    * `Number.legible_whole`
    * `Number.legible_real`
-/

namespace TypeGraft

namespace Json.Reader

------------------------------------------------------------
-- Where Numbers End
------------------------------------------------------------

/- The text behind a value: more of a list, or nothing. -/
def Ends
    (rest : List Char) : Prop :=
  ∀ c ∈ rest.head?, c = ',' ∨ c = ']' ∨ c = '\x7d'

theorem ends_nil : Ends [] := by
  simp [Ends]

section Ends

variable {cs rest : List Char}

/- No digit follows a value. -/
theorem Ends.takeWhile_eq_nil
    (h : Ends rest) :
    rest.takeWhile Decimal.isDigit = [] := by
  cases rest with
  | nil => rfl
  | cons c rest =>
      rcases h c rfl with rfl | rfl | rfl <;> rfl

theorem Ends.dropWhile_eq
    (h : Ends rest) :
    rest.dropWhile Decimal.isDigit = rest := by
  cases rest with
  | nil => rfl
  | cons c rest =>
      rcases h c rfl with rfl | rfl | rfl <;> rfl

/- The digits in front of it are the same. -/
theorem Ends.takeWhile_append
    (h : Ends rest) :
    (cs ++ rest).takeWhile Decimal.isDigit =
      cs.takeWhile Decimal.isDigit := by
  induction cs with
  | nil => exact h.takeWhile_eq_nil
  | cons c cs ih =>
      rw [List.cons_append, List.takeWhile_cons,
        List.takeWhile_cons, ih]

theorem Ends.dropWhile_append
    (h : Ends rest) :
    (cs ++ rest).dropWhile Decimal.isDigit =
      cs.dropWhile Decimal.isDigit ++ rest := by
  induction cs with
  | nil => exact h.dropWhile_eq
  | cons c cs ih =>
      rw [List.cons_append, List.dropWhile_cons,
        List.dropWhile_cons, ih]
      split <;> rfl

/- So are a fraction, the sign of a power and the power. -/
theorem Ends.readFraction?_append
    (h : Ends rest) :
    readFraction? (cs ++ rest) =
      (readFraction? cs).map (fun r => (r.1, r.2 ++ rest)) := by
  cases cs with
  | nil =>
      cases rest with
      | nil => rfl
      | cons c rest =>
          rcases h c rfl with rfl | rfl | rfl <;> rfl
  | cons c cs =>
      by_cases hPoint : c = '.'
      · subst hPoint
        simp only [List.cons_append, readFraction?,
          h.takeWhile_append, h.dropWhile_append]
        split <;> rfl
      · simp [readFraction?, hPoint]

theorem Ends.readSign_append
    (h : Ends rest) :
    readSign (cs ++ rest) =
      ((readSign cs).1, (readSign cs).2 ++ rest) := by
  cases cs with
  | nil =>
      cases rest with
      | nil => rfl
      | cons c rest =>
          rcases h c rfl with rfl | rfl | rfl <;> rfl
  | cons c cs =>
      by_cases hMinus : c = '-'
      · subst hMinus
        rfl
      · by_cases hPlus : c = '+'
        · subst hPlus
          rfl
        · simp [readSign, hMinus, hPlus]

theorem Ends.readPower?_append
    (h : Ends rest) :
    readPower? (cs ++ rest) =
      (readPower? cs).map (fun r => (r.1, r.2 ++ rest)) := by
  cases cs with
  | nil =>
      cases rest with
      | nil => rfl
      | cons c rest =>
          rcases h c rfl with rfl | rfl | rfl <;> rfl
  | cons c cs =>
      simp only [List.cons_append, readPower?,
        h.readSign_append, h.takeWhile_append,
        h.dropWhile_append]
      split
      · split <;> rfl
      · rfl

/- What follows a value does not change a number before it. -/
theorem readNumeral_append
    (h : Ends rest) :
    readNumeral (cs ++ rest) =
      (readNumeral cs).map (fun r => (r.1, r.2 ++ rest)) := by
  have hSign :
      ((cs ++ rest).head? == some '-') =
        (cs.head? == some '-') := by
    cases cs with
    | nil =>
        cases rest with
        | nil => rfl
        | cons c rest =>
            rcases h c rfl with rfl | rfl | rfl <;> rfl
    | cons c cs => rfl
  have hBody :
      (if (cs.head? == some '-') = true then
          (cs ++ rest).drop 1 else cs ++ rest) =
        (if (cs.head? == some '-') = true then cs.drop 1
          else cs) ++ rest := by
    cases cs with
    | nil => rfl
    | cons c cs =>
        split <;> rfl
  simp only [readNumeral, hSign, hBody, h.takeWhile_append,
    h.dropWhile_append, h.readFraction?_append]
  generalize
    (if (cs.head? == some '-') = true then cs.drop 1
      else cs) = body
  split
  · cases readFraction? (body.dropWhile Decimal.isDigit) with
    | none => rfl
    | some f =>
        simp only [Option.map_some, Option.bind_eq_bind,
          Option.bind_some, h.readPower?_append]
        cases readPower? f.2 <;> rfl
  · rfl

/- The same with the value of the number. -/
theorem readNumber_append
    (h : Ends rest) :
    readNumber (cs ++ rest) =
      (readNumber cs).map (fun r => (r.1, r.2 ++ rest)) := by
  simp only [readNumber, readNumeral_append h]
  cases readNumeral cs with
  | none => rfl
  | some r =>
      simp only [Option.map_some, Option.bind_eq_bind,
        Option.bind_some]
      cases r.1.value? <;> rfl

end Ends

------------------------------------------------------------
-- Whole Numbers
------------------------------------------------------------

theorem isDigit_of_mem_toDigits
    {n : Nat}
    {c : Char}
    (h : c ∈ Nat.toDigits 10 n) :
    Decimal.isDigit c = true := by
  have hDigit :=
    Nat.isDigit_of_mem_toDigits (by decide) (by decide) h
  simp only [Char.isDigit, Decimal.isDigit, ge_iff_le,
    Bool.and_eq_true, decide_eq_true_eq] at hDigit ⊢
  exact hDigit

/- Only zero is written with a zero in front. -/
theorem head?_toDigits
    {n : Nat}
    (h : 0 < n) :
    (Nat.toDigits 10 n).head? ≠ some '0' := by
  induction n using Nat.strongRecOn with
  | ind n ih =>
      rw [Nat.toDigits_eq_if (by decide)]
      split
      · have hSmall :
            ∀ k < 10, 0 < k →
              [Nat.digitChar k].head? ≠ some '0' := by
          decide
        exact hSmall n ‹_› h
      · have hInner := ih (n / 10) (by omega) (by omega)
        rwa [List.head?_append_of_ne_nil _
          Nat.toDigits_ne_nil]

theorem isWhole_toDigits
    (n : Nat) :
    isWhole (Nat.toDigits 10 n) = true := by
  cases n with
  | zero => rfl
  | succ n =>
      have hHead := @head?_toDigits (n + 1) (Nat.succ_pos n)
      have hSome := @Nat.toDigits_ne_nil (n + 1) 10
      cases hDigits : Nat.toDigits 10 (n + 1) with
      | nil => exact absurd hDigits hSome
      | cons c cs =>
          rw [hDigits] at hHead
          have hNe : c ≠ '0' := by simpa using hHead
          simp [isWhole, hNe]

/- A whole number is read as its sign and its digits. -/
theorem readNumeral_wholeText
    (z : Int) :
    readNumeral (wholeText z) =
      some (⟨decide (z < 0), Nat.toDigits 10 z.natAbs, none,
        none⟩, []) := by
  have hDigits :
      ∀ c ∈ Nat.toDigits 10 z.natAbs,
        Decimal.isDigit c = true :=
    fun c hMem => isDigit_of_mem_toDigits hMem
  have hSign :
      ((wholeText z).head? == some '-') = decide (z < 0) := by
    by_cases hNeg : z < 0
    · simp [wholeText, hNeg]
    · simp only [wholeText, hNeg, decide_false,
        beq_eq_false_iff_ne]
      intro hHead
      have hMinus := hDigits '-' (List.mem_of_mem_head? hHead)
      exact absurd hMinus (by decide)
  have hBody :
      (if decide (z < 0) = true then (wholeText z).drop 1
        else wholeText z) = Nat.toDigits 10 z.natAbs := by
    by_cases hNeg : z < 0 <;> simp [wholeText, hNeg]
  simp only [readNumeral, hSign, hBody,
    List.takeWhile_eq_self_iff.2 hDigits,
    List.dropWhile_eq_nil_iff.2 hDigits, isWhole_toDigits,
    if_true]
  rfl

namespace Numeral

/- Digits whose number fits are all gathered. -/
theorem gather_eq
    {start : Nat}
    (cs : List Char)
    (h :
      cs.foldl (fun n c => 10 * n + Decimal.digitValue c)
        start ≤ wholeLimit) :
    gather start cs =
      (cs.foldl (fun n c => 10 * n + Decimal.digitValue c)
        start, cs.length) := by
  have hGrows :
      ∀ (cs : List Char) (n : Nat),
        n ≤ cs.foldl
          (fun n c => 10 * n + Decimal.digitValue c) n := by
    intro cs
    induction cs with
    | nil => exact fun n => Nat.le_refl n
    | cons c cs ih =>
        intro n
        rw [List.foldl_cons]
        refine Nat.le_trans ?_ (ih _)
        omega
  induction cs generalizing start with
  | nil => rfl
  | cons c cs ih =>
      rw [List.foldl_cons] at h ⊢
      have hNext :=
        Nat.le_trans
          (hGrows cs (10 * start + Decimal.digitValue c)) h
      rw [gather]
      dsimp only
      rw [if_neg (Nat.not_lt.2 hNext), ih h,
        List.length_cons]

theorem gather_toDigits
    {n : Nat}
    (h : n ≤ wholeLimit) :
    gather 0 (Nat.toDigits 10 n) =
      (n, (Nat.toDigits 10 n).length) := by
  have hFold :
      (Nat.toDigits 10 n).foldl
        (fun n c => 10 * n + Decimal.digitValue c) 0 = n :=
    Nat.ofDigitChars_toDigits (by decide) (by decide)
  have hAll := @gather_eq 0 (Nat.toDigits 10 n)
  rw [hFold] at hAll
  exact hAll h

/- The value of a whole number that fits. -/
theorem value?_whole
    {z : Int}
    (h : (Number.whole z).Fits) :
    (⟨decide (z < 0), Nat.toDigits 10 z.natAbs, none,
        none⟩ : Numeral).value? = some (.whole z) := by
  have hLimit : wholeLimit + 1 = twoTo 64 := rfl
  have hTwice : twoTo 64 = 2 * twoTo 63 := rfl
  have hLow := h.1
  have hHigh := h.2
  have hGathered : z.natAbs ≤ wholeLimit := by omega
  simp only [value?, gather_toDigits hGathered, Nat.sub_self,
    Option.isNone_none, and_self, if_true]
  by_cases hNeg : z < 0
  · have hOut : ¬ (z.natAbs = 0 ∨ twoTo 63 < z.natAbs) := by
      omega
    rw [if_neg hOut]
    simp only [hNeg, decide_true, Bool.not_true,
      Bool.false_eq_true, if_false, Option.some.injEq,
      Number.whole.injEq]
    omega
  · simp only [hNeg, decide_false, Bool.not_false, if_true,
      Option.some.injEq, Number.whole.injEq]
    omega

end Numeral

------------------------------------------------------------
-- Doubles
------------------------------------------------------------

theorem isBlank_of_isDigit
    {c : Char}
    (h : Decimal.isDigit c = true) :
    isBlank c = false := by
  by_contra hBlank
  simp only [Bool.not_eq_false, isBlank, Bool.or_eq_true,
    decide_eq_true_eq] at hBlank
  rcases hBlank with ((rfl | rfl) | rfl) | rfl <;>
    exact absurd h (by decide)

/- The fewest digits of a double are digits. -/
theorem isDigit_of_mem_shortest
    {tie : Tie}
    {m : Nat}
    {q : Int}
    {c : Char}
    (h : c ∈ (Binary64.shortest tie m q).digits) :
    Decimal.isDigit c = true := by
  have hZero : c ∈ ['0'] → Decimal.isDigit c = true := by
    intro hMem
    rw [List.mem_singleton.1 hMem]
    rfl
  unfold Binary64.shortest at h
  split at h
  · exact hZero h
  · dsimp only at h
    split at h
    · rename_i k unit _
      apply @isDigit_of_mem_toDigits k
      have hMem :=
        (List.dropWhile_sublist _).subset
          (List.mem_reverse.1 h)
      exact List.mem_reverse.1 hMem
    · exact hZero h

/- A text without blanks. -/
def Solid
    (cs : List Char) : Prop :=
  ∀ c ∈ cs, isBlank c = false

theorem solid_append_iff
    {cs ds : List Char} :
    Solid (cs ++ ds) ↔ Solid cs ∧ Solid ds :=
  List.forall_mem_append

theorem solid_cons_iff
    {c : Char}
    {cs : List Char} :
    Solid (c :: cs) ↔ isBlank c = false ∧ Solid cs :=
  List.forall_mem_cons

theorem solid_nil : Solid [] :=
  List.forall_mem_nil _

theorem solid_zeros
    (k : Nat) :
    Solid (List.replicate k '0') := by
  intro c hMem
  rw [List.eq_of_mem_replicate hMem]
  rfl

theorem solid_toDigits
    (n : Nat) :
    Solid (Nat.toDigits 10 n) :=
  fun _ hMem => isBlank_of_isDigit (isDigit_of_mem_toDigits hMem)

theorem Solid.skipBlanks_eq
    {cs : List Char}
    (h : Solid cs) :
    skipBlanks cs = cs := by
  cases cs with
  | nil => rfl
  | cons c cs => simp [skipBlanks, h c (by simp)]

/- The text of a double is without blanks. -/
theorem solid_realText
    (x : Binary64) :
    Solid (realText x) := by
  cases x with
  | infinite s =>
      simp [realText, solid_cons_iff, solid_nil, isBlank]
  | nan =>
      simp [realText, solid_cons_iff, solid_nil, isBlank]
  | finite s m q h =>
      generalize hText : Binary64.shortest .toEven m q = text
      have hDigits : Solid text.digits := by
        rw [← hText]
        exact fun c hMem =>
          isBlank_of_isDigit (isDigit_of_mem_shortest hMem)
      have hTake : ∀ k, Solid (text.digits.take k) :=
        fun k c hMem => hDigits c (List.mem_of_mem_take hMem)
      have hDrop : ∀ k, Solid (text.digits.drop k) :=
        fun k c hMem => hDigits c (List.mem_of_mem_drop hMem)
      have hSign : Solid (if s then ['-'] else []) := by
        cases s <;> simp [solid_cons_iff, solid_nil, isBlank]
      have hPlain :
          Solid text.plain.1 ∧ Solid text.plain.2 := by
        unfold Shortest.plain
        split
        · exact ⟨solid_append_iff.2
            ⟨hTake _, solid_zeros _⟩, hDrop _⟩
        · exact ⟨solid_zeros 1, solid_append_iff.2
            ⟨solid_zeros _, hDigits⟩⟩
      have hPower :
          Solid (if text.exponent < 0 then ['e', '-']
            else ['e', '+']) := by
        split <;> simp [solid_cons_iff, solid_nil, isBlank]
      simp only [realText, hText]
      split
      · refine solid_append_iff.2 ⟨?_, ?_⟩
        · simp [solid_append_iff, solid_cons_iff, solid_nil,
            isBlank, hSign, hPlain.1]
        · split
          · exact solid_zeros 1
          · exact hPlain.2
      · refine solid_append_iff.2 ⟨hSign, ?_⟩
        simp only [Shortest.scientific, solid_append_iff]
        refine ⟨⟨⟨hTake 1, ?_⟩, hPower⟩, solid_toDigits _⟩
        split
        · exact solid_nil
        · exact solid_cons_iff.2 ⟨rfl, hDrop 1⟩

/- What is left behind a number is the end of the text. -/
theorem suffix_of_readFraction?
    {cs : List Char}
    {r : Option (List Char) × List Char}
    (h : readFraction? cs = some r) :
    r.2 <:+ cs := by
  unfold readFraction? at h
  split at h
  · dsimp only at h
    split at h
    · cases h
    · cases h
      exact (List.dropWhile_suffix _).trans
        (List.suffix_cons _ _)
  · cases h
    exact List.suffix_rfl

theorem suffix_readSign
    (cs : List Char) :
    (readSign cs).2 <:+ cs := by
  unfold readSign
  split
  · exact List.suffix_cons _ _
  · exact List.suffix_cons _ _
  · exact List.suffix_rfl

theorem suffix_of_readPower?
    {cs : List Char}
    {r : Option Int × List Char}
    (h : readPower? cs = some r) :
    r.2 <:+ cs := by
  cases cs with
  | nil =>
      cases h
      exact List.suffix_rfl
  | cons c cs =>
      rw [readPower?] at h
      split at h
      · dsimp only at h
        split at h
        · cases h
        · cases h
          exact (List.dropWhile_suffix _).trans
            ((suffix_readSign cs).trans (List.suffix_cons _ _))
      · cases h
        exact List.suffix_rfl

theorem suffix_of_readNumeral
    {cs : List Char}
    {r : Numeral × List Char}
    (h : readNumeral cs = some r) :
    r.2 <:+ cs := by
  have hBody :
      (if (cs.head? == some '-') = true then cs.drop 1
        else cs) <:+ cs := by
    split
    · exact List.drop_suffix 1 cs
    · exact List.suffix_rfl
  simp only [readNumeral] at h
  generalize
    (if (cs.head? == some '-') = true then cs.drop 1
      else cs) = body at hBody h
  split at h
  · rcases Option.bind_eq_some_iff.1 h with ⟨f, hF, hRest⟩
    rcases Option.bind_eq_some_iff.1 hRest with ⟨p, hP, hEq⟩
    cases hEq
    exact (suffix_of_readPower? hP).trans
      ((suffix_of_readFraction? hF).trans
        ((List.dropWhile_suffix _).trans hBody))
  · cases h

/- A number is read as a number. -/
theorem readNumber_of_readValue
    {size depth : Nat}
    {cs rest : List Char}
    {n : Number}
    (h : readValue size depth cs = some (.num n, rest)) :
    readNumber (skipBlanks cs) = some (.num n, rest) := by
  rw [readValue.eq_def] at h
  dsimp only at h
  split at h
  · cases h
  · cases h
  · cases h
  · rcases Option.map_eq_some_iff.1 h with ⟨r, -, hEq⟩
    cases hEq
  · split at h
    · cases h
    · split at h
      · cases h
      · rcases Option.map_eq_some_iff.1 h with ⟨r, -, hEq⟩
        cases hEq
  · split at h
    · cases h
    · split at h
      · cases h
      · rcases Option.map_eq_some_iff.1 h with ⟨r, -, hEq⟩
        cases hEq
  · exact h

end Json.Reader

------------------------------------------------------------
-- Legible Numbers
------------------------------------------------------------

namespace Number

open Json.Reader

/- The text of the number reads back as it. -/
def Legible
    (n : Number) : Prop :=
  readNumber (Json.numberText n) = some (.num n, [])

/- Then so it does where a value ends. -/
theorem Legible.append
    {n : Number}
    {rest : List Char}
    (h : n.Legible)
    (hEnds : Ends rest) :
    readNumber (Json.numberText n ++ rest) =
      some (.num n, rest) := by
  rw [readNumber_append hEnds, h]
  rfl

theorem legible_whole
    {z : Int}
    (h : (Number.whole z).Fits) :
    (Number.whole z).Legible := by
  simp only [Legible, Json.numberText, readNumber,
    readNumeral_wholeText, Option.bind_eq_bind,
    Option.bind_some, Numeral.value?_whole h]
  rfl

/- A double that reads back alone is legible. -/
theorem legible_real
    {x : Binary64}
    (h :
      Json.parse? (Json.num (.real x)).compact =
        some (.num (.real x))) :
    (Number.real x).Legible := by
  have hText :
      (Json.num (.real x)).compact.toList =
        Json.realText x := by
    rw [Json.toList_compact, Json.render, Json.numberText]
  simp only [Json.parse?, Json.parseWithin?, hText] at h
  split at h
  · rename_i v rest hRead
    split at h
    · rename_i hBlank
      cases h
      have hNumber := readNumber_of_readValue hRead
      rw [(solid_realText x).skipBlanks_eq] at hNumber
      have hSuffix : rest <:+ Json.realText x := by
        simp only [readNumber, Option.bind_eq_bind,
          Option.bind_eq_some_iff] at hNumber
        rcases hNumber with ⟨r, hNumeral, y, -, hEq⟩
        cases hEq
        exact suffix_of_readNumeral hNumeral
      have hSolid : Solid rest :=
        fun c hMem => solid_realText x c (hSuffix.subset hMem)
      rw [hSolid.skipBlanks_eq] at hBlank
      rw [hBlank] at hNumber
      exact hNumber
    · cases h
  · cases h

end Number

end TypeGraft
