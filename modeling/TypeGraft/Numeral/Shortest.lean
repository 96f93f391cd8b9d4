import TypeGraft.Numeral.Binary64

/-
  The fewest decimal digits that read back as a given number,
  and how they are laid out.

  Key definitions include:
    * `Tie`
    * `Shortest`
    * `Binary64.shortest`
    * `Shortest.plain`
    * `Shortest.scientific`
-/

namespace TypeGraft

/-
  Which of two equally near digit strings to take: the one
  whose last digit is even, or the larger.
-/
inductive Tie where
  | toEven
  | upward
deriving DecidableEq, Repr

/-
  Decimal digits without trailing zeros, standing for
  `d.ddd * 10 ^ exponent`.
-/
structure Shortest where
  digits : List Char
  exponent : Int
deriving DecidableEq, Repr

namespace Binary64

------------------------------------------------------------
-- The Interval of a Number
------------------------------------------------------------

/- Compare `c * 10 ^ k` with `y * 2 ^ p`. -/
def comparePowers
    (c : Nat)
    (k : Int)
    (y : Nat)
    (p : Int) : Ordering :=
  compare
    (c * tenTo k.toNat * twoTo (-p).toNat)
    (y * tenTo (-k).toNat * twoTo p.toNat)

/-
  Does `c * 10 ^ k` read back as `m * 2 ^ q`?  The decimals
  that do lie between the two midpoints towards the
  neighbouring numbers, the midpoints included if `m` is
  even.
-/
def readsBack
    (m : Nat)
    (q : Int)
    (c : Nat)
    (k : Int) : Bool :=
  let low :=
    if m = twoTo 52 ∧ leastExponent < q then 4 * m - 1
    else 4 * m - 2
  let high := 4 * m + 2
  let below := comparePowers c k low (q - 2)
  let above := comparePowers c k high (q - 2)
  let even := m % 2 = 0
  (below == .gt || (below == .eq && even)) &&
    (above == .lt || (above == .eq && even))

/-
  The power of ten of the leading digit of `m * 2 ^ q`: an
  estimate from the binary logarithm, set right by comparing.
-/
def decimalExponent
    (m : Nat)
    (q : Int) : Int :=
  let estimate := ((Nat.log2 m : Int) + q) * 30103 / 100000
  if comparePowers 1 (estimate + 1) m q != .gt then
    estimate + 1
  else if comparePowers 1 estimate m q != .gt then estimate
  else estimate - 1

------------------------------------------------------------
-- Shortest Digits
------------------------------------------------------------

/-
  The decimal with the given unit that reads back as
  `m * 2 ^ q`, if there is one.  Only the two neighbours of
  the number on that grid can be the nearest such decimal.
-/
def candidate
    (tie : Tie)
    (m : Nat)
    (q unit : Int) : Option Nat :=
  let num := m * twoTo q.toNat * tenTo (-unit).toNat
  let den := twoTo (-q).toNat * tenTo unit.toNat
  let c := num / den
  let r := num % den
  match readsBack m q c unit, readsBack m q (c + 1) unit with
  | true, true =>
      if 2 * r < den then some c
      else if den < 2 * r then some (c + 1)
      else
        match tie with
        | .upward => some (c + 1)
        | .toEven => if c % 2 = 0 then some c else some (c + 1)
  | true, false => some c
  | false, true => some (c + 1)
  | false, false => none

/- Digits of a whole number without its trailing zeros. -/
def significant
    (n : Nat) : List Char :=
  ((Nat.toDigits 10 n).reverse.dropWhile (· = '0')).reverse

/-
  The fewest digits that read back as `m * 2 ^ q`; seventeen
  always do.
-/
def shortest
    (tie : Tie)
    (m : Nat)
    (q : Int) : Shortest :=
  if m = 0 then ⟨['0'], 0⟩
  else
    let e := decimalExponent m q
    let found :=
      (List.range 17).findSome? (fun (n : Nat) =>
        let unit := e - (n : Int)
        (candidate tie m q unit).map (fun c => (c, unit)))
    match found with
    | some (c, unit) =>
        ⟨significant c,
          unit + ((Nat.toDigits 10 c).length : Int) - 1⟩
    | none => ⟨['0'], 0⟩

end Binary64

------------------------------------------------------------
-- Layout
------------------------------------------------------------

namespace Shortest

/-
  The digits before the point and those behind it, in plain
  positional notation.
-/
def plain
    (s : Shortest) : List Char × List Char :=
  if 0 ≤ s.exponent then
    let k := s.exponent.toNat + 1
    (s.digits.take k ++
        List.replicate (k - s.digits.length) '0',
      s.digits.drop k)
  else
    (['0'],
      List.replicate ((-s.exponent).toNat - 1) '0' ++
        s.digits)

/- One digit, the others behind a point, and the power. -/
def scientific
    (s : Shortest) : List Char :=
  let tail := s.digits.drop 1
  s.digits.take 1 ++
    (if tail.isEmpty then [] else '.' :: tail) ++
    (if s.exponent < 0 then ['e', '-'] else ['e', '+']) ++
    Nat.toDigits 10 s.exponent.natAbs

end Shortest

end TypeGraft
