/-
  Double-precision numbers as exact values, and rounding into
  them.

  A finite number is a sign, a whole mantissa and a power of
  two.  All arithmetic here is exact arithmetic on natural
  numbers followed by one rounding to the nearest number, a
  half going to the even mantissa.

  Key definitions include:
    * `Binary64.Canonical`
    * `Binary64`
    * `Binary64.same`
    * `Binary64.rounded`
    * `Binary64.ofRatio`
    * `Binary64.ofNat`
    * `Binary64.mul`
    * `Binary64.div`
    * `Decimal`
    * `Decimal.ofText`
    * `Binary64.ofDecimal`

  Main declarations:
    * `Binary64.binaryExponent_bounds`
    * `Binary64.canonical_rounded`
-/

namespace TypeGraft

------------------------------------------------------------
-- Powers
------------------------------------------------------------

/- A power of two. -/
def twoTo
    (k : Nat) : Nat :=
  Nat.pow 2 k

/- A power of ten. -/
def tenTo
    (k : Nat) : Nat :=
  Nat.pow 10 k

theorem twoTo_pos
    (k : Nat) :
    0 < twoTo k :=
  Nat.pow_pos (by decide)

theorem tenTo_pos
    (k : Nat) :
    0 < tenTo k :=
  Nat.pow_pos (by decide)

theorem twoTo_add
    (j k : Nat) :
    twoTo (j + k) = twoTo j * twoTo k :=
  Nat.pow_add 2 j k

theorem twoTo_le_twoTo
    {j k : Nat}
    (h : j ≤ k) :
    twoTo j ≤ twoTo k :=
  Nat.pow_le_pow_right (by decide) h

------------------------------------------------------------
-- Numbers
------------------------------------------------------------

namespace Binary64

/- The smallest exponent of two. -/
def leastExponent : Int := -1074

/- The largest exponent of two. -/
def greatestExponent : Int := 971

/-
  The mantissa and the exponent of a finite number.  A small
  mantissa has the least exponent, so no number has two forms.
-/
structure Canonical
    (mantissa : Nat)
    (exponent : Int) : Prop where
  mantissa_lt : mantissa < twoTo 53
  least_le : leastExponent ≤ exponent
  le_greatest : exponent ≤ greatestExponent
  eq_least : mantissa < twoTo 52 → exponent = leastExponent

end Binary64

/-
  A double-precision number.  `finite s m q _` stands for
  `m * 2 ^ q`, negated if `s` holds.
-/
inductive Binary64 where
  | finite
      (negative : Bool)
      (mantissa : Nat)
      (exponent : Int)
      (canonical : Binary64.Canonical mantissa exponent)
  | infinite (negative : Bool)
  | nan
deriving DecidableEq, Repr

namespace Binary64

/- Zero, with a sign. -/
def zero
    (negative : Bool) : Binary64 :=
  .finite negative 0 leastExponent
    ⟨twoTo_pos 53, by decide, by decide, fun _ => rfl⟩

/- Zero of either sign. -/
def isZero : Binary64 → Bool
  | .finite _ m _ _ => m = 0
  | .infinite _ => false
  | .nan => false

/-
  Are two numbers equal?  Zero has no sign here, and what is
  not a number is not equal to anything.
-/
def same
    (x y : Binary64) : Bool :=
  x ≠ .nan && (x = y || (x.isZero && y.isZero))

/- Change the sign. -/
def neg : Binary64 → Binary64
  | .finite s m q h => .finite (!s) m q h
  | .infinite s => .infinite (!s)
  | .nan => .nan

------------------------------------------------------------
-- Rounding
------------------------------------------------------------

/-
  The whole number nearest to a quotient; a half goes to the
  even neighbour.
-/
def roundHalfEven
    (num den : Nat) : Nat :=
  let q := num / den
  let r := num % den
  if 2 * r < den then q
  else if den < 2 * r then q + 1
  else if q % 2 = 0 then q
  else q + 1

/- A quotient below a whole number is rounded to at most it. -/
theorem roundHalfEven_le
    {num den m : Nat}
    (h : num < m * den) :
    roundHalfEven num den ≤ m := by
  have hQuotient : num / den < m := Nat.div_lt_of_lt_mul (by
    rwa [Nat.mul_comm])
  unfold roundHalfEven
  dsimp only
  split
  · omega
  · split
    · omega
    · split <;> omega

/- One that is not below it is rounded to at least it. -/
theorem le_roundHalfEven
    {num den m : Nat}
    (hDen : 0 < den)
    (h : m * den ≤ num) :
    m ≤ roundHalfEven num den := by
  have hQuotient : m ≤ num / den :=
    (Nat.le_div_iff_mul_le hDen).2 h
  unfold roundHalfEven
  dsimp only
  split
  · omega
  · split
    · omega
    · split <;> omega

/-
  The largest power of two that does not exceed a positive
  quotient.
-/
def binaryExponent
    (num den : Nat) : Int :=
  let k : Int := (Nat.log2 num : Int) - (Nat.log2 den : Int)
  if den * twoTo k.toNat ≤ num * twoTo (-k).toNat then k
  else k - 1

/- A quotient is below a power of two. -/
def Below
    (num den : Nat)
    (k : Int) : Prop :=
  num * twoTo (-k).toNat < den * twoTo k.toNat

section Quotients

variable {num den : Nat}

/- Both sides may be scaled by a large enough power of two. -/
theorem below_iff
    {k : Int}
    {s : Nat}
    (h : 0 ≤ s + k) :
    Below num den k ↔
      num * twoTo s < den * twoTo (s + k).toNat := by
  have hScale :
      ∃ e, s = (-k).toNat + e ∧
        (s + k).toNat = k.toNat + e :=
    ⟨s - (-k).toNat, by omega, by omega⟩
  rcases hScale with ⟨e, hLow, hHigh⟩
  rw [hLow] at hHigh ⊢
  rw [hHigh, twoTo_add, twoTo_add, ← Nat.mul_assoc,
    ← Nat.mul_assoc, Nat.mul_lt_mul_right (twoTo_pos e)]
  rfl

theorem Below.mono
    {j k : Int}
    (h : Below num den j)
    (hLe : j ≤ k) :
    Below num den k := by
  have hLow : 0 ≤ (j.natAbs : Int) + j := by omega
  rw [below_iff hLow] at h
  rw [@below_iff num den k j.natAbs (by omega)]
  refine Nat.lt_of_lt_of_le h (Nat.mul_le_mul_left den ?_)
  exact twoTo_le_twoTo (by omega)

theorem twoTo_log2_le
    (h : num ≠ 0) :
    twoTo (Nat.log2 num) ≤ num :=
  Nat.log2_self_le h

theorem lt_twoTo_log2
    (num : Nat) :
    num < twoTo (Nat.log2 num + 1) :=
  Nat.lt_log2_self

/-
  The logarithms give the power of two up to one, and the
  comparison decides.
-/
theorem binaryExponent_bounds
    (hNum : num ≠ 0)
    (hDen : 0 < den) :
    ¬ Below num den (binaryExponent num den) ∧
      Below num den (binaryExponent num den + 1) := by
  have hNumLow := twoTo_log2_le hNum
  have hNumHigh := lt_twoTo_log2 num
  have hDenLow := twoTo_log2_le (Nat.pos_iff_ne_zero.1 hDen)
  have hDenHigh := lt_twoTo_log2 den
  generalize hA : Nat.log2 num = a at *
  generalize hB : Nat.log2 den = b at *
  have hAbove : Below num den ((a : Int) - b + 1) := by
    rw [@below_iff num den _ b (by omega)]
    have hExponent :
        ((b : Int) + ((a : Int) - b + 1)).toNat = a + 1 := by
      omega
    rw [hExponent]
    calc num * twoTo b
        < twoTo (a + 1) * twoTo b :=
          Nat.mul_lt_mul_of_pos_right hNumHigh (twoTo_pos b)
      _ ≤ twoTo (a + 1) * den :=
          Nat.mul_le_mul_left _ hDenLow
      _ = den * twoTo (a + 1) := Nat.mul_comm _ _
  have hNotBelow : ¬ Below num den ((a : Int) - b - 1) := by
    rw [@below_iff num den _ (b + 1) (by omega)]
    have hExponent :
        (((b + 1 : Nat) : Int) + ((a : Int) - b - 1)).toNat =
          a := by
      omega
    rw [hExponent, Nat.not_lt]
    calc den * twoTo a
        ≤ twoTo (b + 1) * twoTo a :=
          Nat.mul_le_mul_right _ (Nat.le_of_lt hDenHigh)
      _ ≤ twoTo (b + 1) * num := Nat.mul_le_mul_left _ hNumLow
      _ = num * twoTo (b + 1) := Nat.mul_comm _ _
  unfold binaryExponent
  rw [hA, hB]
  dsimp only
  split
  · rename_i hReached
    exact ⟨Nat.not_lt.2 hReached, hAbove⟩
  · rename_i hShort
    have hBelow : Below num den ((a : Int) - b) :=
      Nat.lt_of_not_le hShort
    rw [Int.sub_add_cancel]
    exact ⟨hNotBelow, hBelow⟩

/- Scaling by a power of two moves the bound. -/
theorem scaled_lt_iff
    (q : Int)
    (k : Nat) :
    num * twoTo (-q).toNat <
        twoTo k * (den * twoTo q.toNat) ↔
      Below num den (q + k) := by
  rw [@below_iff num den _ (-q).toNat (by omega)]
  have hExponent :
      (((-q).toNat : Int) + (q + k)).toNat = q.toNat + k := by
    omega
  rw [hExponent, twoTo_add, Nat.mul_left_comm,
    Nat.mul_comm (twoTo k)]

end Quotients

/- The mantissa and exponent nearest to a positive quotient. -/
def rounded
    (num den : Nat) : Nat × Int :=
  let q := max (binaryExponent num den - 52) leastExponent
  let m :=
    roundHalfEven
      (num * twoTo (-q).toNat) (den * twoTo q.toNat)
  if m = twoTo 53 then (twoTo 52, q + 1) else (m, q)

/-
  They are those of a finite number, unless the exponent is
  too large.  The quotient is scaled to less than `2 ^ 53`, and
  to at least `2 ^ 52` where that leaves an exponent above the
  least one.
-/
theorem canonical_rounded
    {num den : Nat}
    (hNum : num ≠ 0)
    (hDen : 0 < den)
    (h : (rounded num den).2 ≤ greatestExponent) :
    Canonical (rounded num den).1 (rounded num den).2 := by
  rcases binaryExponent_bounds hNum hDen with ⟨hLow, hHigh⟩
  unfold rounded at h ⊢
  dsimp only at h ⊢
  generalize hQ :
    max (binaryExponent num den - 52) leastExponent = q at *
  have hLeast : leastExponent ≤ q := by omega
  have hUpper :
      roundHalfEven (num * twoTo (-q).toNat)
        (den * twoTo q.toNat) ≤ twoTo 53 := by
    apply roundHalfEven_le
    rw [scaled_lt_iff]
    exact hHigh.mono (by omega)
  have hLower :
      leastExponent < q →
        twoTo 52 ≤
          roundHalfEven (num * twoTo (-q).toNat)
            (den * twoTo q.toNat) := by
    intro hLess
    apply le_roundHalfEven
    · exact Nat.mul_pos hDen (twoTo_pos _)
    · rw [← Nat.not_lt, scaled_lt_iff]
      have hExact : q + (52 : Nat) = binaryExponent num den := by
        omega
      rwa [hExact]
  generalize
    roundHalfEven (num * twoTo (-q).toNat)
      (den * twoTo q.toNat) = m at *
  split at h
  · rename_i hCarry
    rw [if_pos hCarry]
    have hHalf : twoTo 52 < twoTo 53 := by decide
    refine ⟨hHalf, ?_, h, ?_⟩
    · exact Int.le_trans hLeast (by omega)
    · exact fun hSmall => absurd hSmall (Nat.lt_irrefl _)
  · rename_i hFits
    rw [if_neg hFits]
    refine ⟨Nat.lt_of_le_of_ne hUpper hFits, hLeast, h, ?_⟩
    intro hSmall
    apply Int.le_antisymm _ hLeast
    apply Int.not_lt.1
    intro hLess
    exact absurd (hLower hLess) (Nat.not_le.2 hSmall)

/- The number nearest to a quotient. -/
def ofRatio
    (negative : Bool)
    (num den : Nat)
    (hDen : 0 < den) : Binary64 :=
  if hNum : num = 0 then zero negative
  else if hLarge : greatestExponent < (rounded num den).2 then
    .infinite negative
  else
    .finite negative (rounded num den).1 (rounded num den).2
      (canonical_rounded hNum hDen (Int.not_lt.1 hLarge))

/- The number nearest to a natural number. -/
def ofNat
    (n : Nat) : Binary64 :=
  ofRatio false n 1 Nat.one_pos

/- The nearest number to an exact product. -/
def mul : Binary64 → Binary64 → Binary64
  | .finite s m p _, .finite t n q _ =>
      let e := p + q
      ofRatio (s != t)
        (m * n * twoTo e.toNat) (twoTo (-e).toNat)
        (twoTo_pos _)
  | .finite s m _ _, .infinite t =>
      if m = 0 then .nan else .infinite (s != t)
  | .infinite s, .finite t n _ _ =>
      if n = 0 then .nan else .infinite (s != t)
  | .infinite s, .infinite t => .infinite (s != t)
  | _, _ => .nan

/- The nearest number to an exact quotient. -/
def div : Binary64 → Binary64 → Binary64
  | .finite s m p _, .finite t n q _ =>
      if hZero : n = 0 then
        if m = 0 then .nan else .infinite (s != t)
      else
        let e := p - q
        ofRatio (s != t)
          (m * twoTo e.toNat) (n * twoTo (-e).toNat)
          (Nat.mul_pos (Nat.pos_of_ne_zero hZero)
            (twoTo_pos _))
  | .finite s _ _ _, .infinite t => zero (s != t)
  | .infinite s, .finite t _ _ _ => .infinite (s != t)
  | _, _ => .nan

end Binary64

------------------------------------------------------------
-- Decimals
------------------------------------------------------------

/- The decimal number `digits * 10 ^ exponent`, signed. -/
structure Decimal where
  negative : Bool
  digits : Nat
  exponent : Int
deriving DecidableEq, Repr

namespace Decimal

/- The value of one decimal digit. -/
def digitValue
    (c : Char) : Nat :=
  c.toNat - '0'.toNat

/- Is this one of the ten digits? -/
def isDigit
    (c : Char) : Bool :=
  '0' ≤ c && c ≤ '9'

/- The number that a list of digits writes. -/
def ofDigits
    (cs : List Char) : Nat :=
  cs.foldl (fun n c => 10 * n + digitValue c) 0

/- A power of ten as it stands behind `e`. -/
def exponentOf : List Char → Int
  | '-' :: cs => -(ofDigits cs : Int)
  | '+' :: cs => ofDigits cs
  | cs => ofDigits cs

/-
  The value of a number text: a sign or none, digits, a
  fraction or none, and a power of ten or none.
-/
def ofText
    (text : List Char) : Decimal :=
  let negative := text.head? == some '-'
  let unsigned := if negative then text.drop 1 else text
  let whole := unsigned.takeWhile isDigit
  let rest := unsigned.dropWhile isDigit
  let (fraction, rest) :=
    match rest with
    | '.' :: cs => (cs.takeWhile isDigit, cs.dropWhile isDigit)
    | cs => ([], cs)
  let power :=
    match rest with
    | 'e' :: cs => exponentOf cs
    | 'E' :: cs => exponentOf cs
    | _ => 0
  ⟨negative, ofDigits (whole ++ fraction),
    power - fraction.length⟩

end Decimal

namespace Binary64

/-
  The number nearest to a decimal.  Beyond 310 places before
  the point it is infinite and beyond 330 places behind it is
  zero, so powers of ten stay small.
-/
def ofDecimal
    (d : Decimal) : Binary64 :=
  if d.digits = 0 then zero d.negative
  else
    let places :=
      ((Nat.toDigits 10 d.digits).length : Int) + d.exponent
    if 310 < places then .infinite d.negative
    else if places < -330 then zero d.negative
    else
      ofRatio d.negative
        (d.digits * tenTo d.exponent.toNat)
        (tenTo (-d.exponent).toNat)
        (tenTo_pos _)

/- The number nearest to what a number text writes. -/
def ofText
    (text : List Char) : Binary64 :=
  ofDecimal (Decimal.ofText text)

end Binary64

end TypeGraft
