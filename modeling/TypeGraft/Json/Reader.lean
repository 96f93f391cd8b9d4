import TypeGraft.Json.Basic

/-
  Reading JSON text.

  The text is one value with blanks around it.  Objects keep
  the order in which keys first occur and the value that each
  key has last.  Arrays and objects nest at most 127 deep.

  Key definitions include:
    * `Json.Reader.readString`
    * `Json.Reader.Numeral`
    * `Json.Reader.Numeral.value?`
    * `Json.Reader.readValue`
    * `Json.parse?`
-/

namespace TypeGraft

namespace Json.Reader

------------------------------------------------------------
-- Blanks and Strings
------------------------------------------------------------

/- Is this a blank of JSON? -/
def isBlank
    (c : Char) : Bool :=
  c = ' ' || c = '\t' || c = '\n' || c = '\r'

/- Pass over blanks. -/
def skipBlanks : List Char → List Char
  | [] => []
  | c :: cs => if isBlank c then skipBlanks cs else c :: cs

/- The value of a hexadecimal digit. -/
def hexValue?
    (c : Char) : Option Nat :=
  if '0' ≤ c ∧ c ≤ '9' then some (c.toNat - '0'.toNat)
  else if 'a' ≤ c ∧ c ≤ 'f' then
    some (c.toNat - 'a'.toNat + 10)
  else if 'A' ≤ c ∧ c ≤ 'F' then
    some (c.toNat - 'A'.toNat + 10)
  else none

/- The code unit that four hexadecimal digits write. -/
def codeUnit?
    (a b c d : Char) : Option Nat := do
  let a ← hexValue? a
  let b ← hexValue? b
  let c ← hexValue? c
  let d ← hexValue? d
  return ((a * 16 + b) * 16 + c) * 16 + d

/- What a one-letter escape stands for. -/
def shortEscape? : Char → Option Char
  | '"' => some '"'
  | '\\' => some '\\'
  | '/' => some '/'
  | 'b' => some '\x08'
  | 'f' => some '\x0c'
  | 'n' => some '\n'
  | 'r' => some '\r'
  | 't' => some '\t'
  | _ => none

/- Is this code unit the first half of a pair? -/
def isHighSurrogate
    (n : Nat) : Bool :=
  0xD800 ≤ n && n ≤ 0xDBFF

/- Is this code unit the second half of a pair? -/
def isLowSurrogate
    (n : Nat) : Bool :=
  0xDC00 ≤ n && n ≤ 0xDFFF

/- The character that a pair of code units stands for. -/
def ofSurrogates
    (high low : Nat) : Char :=
  Char.ofNat
    (0x10000 + (high - 0xD800) * 0x400 + (low - 0xDC00))

/-
  Read a string behind its opening quote, up to and with its
  closing quote.  Characters below the blank must be escaped.
  A half of a surrogate pair may not stand alone: `pending`
  is a first half that still waits for its second.
-/
def readString
    (acc : List Char)
    (pending : Option Nat) :
    List Char → Option (String × List Char)
  | '\\' :: 'u' :: a :: b :: c :: d :: cs =>
      match codeUnit? a b c d, pending with
      | none, _ => none
      | some unit, some high =>
          if isLowSurrogate unit then
            readString (ofSurrogates high unit :: acc) none cs
          else none
      | some unit, none =>
          if isHighSurrogate unit then
            readString acc (some unit) cs
          else if isLowSurrogate unit then none
          else readString (Char.ofNat unit :: acc) none cs
  | '\\' :: c :: cs =>
      match shortEscape? c, pending with
      | some x, none => readString (x :: acc) none cs
      | _, _ => none
  | '"' :: cs =>
      match pending with
      | none => some (String.ofList acc.reverse, cs)
      | some _ => none
  | c :: cs =>
      match pending with
      | none =>
          if c.toNat < 0x20 || c = '\\' then none
          else readString (c :: acc) none cs
      | some _ => none
  | [] => none

------------------------------------------------------------
-- Numbers
------------------------------------------------------------

/-
  The parts of a number text: whether it is negative, the
  digits before the point, the digits behind it, and the
  power of ten.
-/
structure Numeral where
  negative : Bool
  whole : List Char
  fraction : Option (List Char)
  power : Option Int
deriving DecidableEq, Repr

/-
  Are these the digits before the point of a number?  It does
  not begin with a needless zero.
-/
def isWhole : List Char → Bool
  | [] => false
  | ['0'] => true
  | '0' :: _ => false
  | _ => true

/- Read the digits that have to stand behind a point. -/
def readFraction? :
    List Char → Option (Option (List Char) × List Char)
  | '.' :: cs =>
      let digits := cs.takeWhile Decimal.isDigit
      if digits.isEmpty then none
      else some (some digits, cs.dropWhile Decimal.isDigit)
  | cs => some (none, cs)

/- Pass over the sign of a power: is it a minus? -/
def readSign : List Char → Bool × List Char
  | '-' :: cs => (true, cs)
  | '+' :: cs => (false, cs)
  | cs => (false, cs)

/- Read the power that has to stand behind its mark. -/
def readPower? : List Char → Option (Option Int × List Char)
  | [] => some (none, [])
  | c :: cs =>
      if c = 'e' ∨ c = 'E' then
        let (minus, cs) := readSign cs
        let digits := cs.takeWhile Decimal.isDigit
        if digits.isEmpty then none
        else
          let n : Int := Decimal.ofDigits digits
          some
            (some (if minus then -n else n),
              cs.dropWhile Decimal.isDigit)
      else some (none, c :: cs)

/- Split a number from the front of a text. -/
def readNumeral
    (cs : List Char) : Option (Numeral × List Char) :=
  let negative := cs.head? == some '-'
  let cs := if negative then cs.drop 1 else cs
  let whole := cs.takeWhile Decimal.isDigit
  if isWhole whole then do
    let (fraction, cs) ←
      readFraction? (cs.dropWhile Decimal.isDigit)
    let (power, cs) ← readPower? cs
    return (⟨negative, whole, fraction, power⟩, cs)
  else none

/- The largest whole number of 64 bits. -/
def wholeLimit : Nat := twoTo 64 - 1

namespace Numeral

/-
  Gather leading digits into a number while it stays within
  64 bits, and count the digits gathered.
-/
def gather
    (start : Nat) : List Char → Nat × Nat
  | [] => (start, 0)
  | c :: cs =>
      let next := 10 * start + Decimal.digitValue c
      if wholeLimit < next then (start, 0)
      else
        let (n, k) := gather next cs
        (n, k + 1)

/-
  Divide by a power of ten, in steps of at most `10 ^ 308`.
-/
def scaleDown :
    Nat → Binary64 → Nat → Binary64
  | 0, x, k => x.div (.ofNat (tenTo k))
  | r + 1, x, k =>
      if x.isZero then x
      else scaleDown r (x.div (.ofNat (tenTo 308))) (k - 308)

/-
  Scale by a power of ten with one rounding for each step;
  there is no value beyond the largest double.
-/
def scale?
    (x : Binary64)
    (power : Int) : Option Binary64 :=
  if power < 0 then
    let k := (-power).toNat
    some (scaleDown ((k - 1) / 308) x k)
  else if x.isZero then some x
  else if 308 < power then none
  else
    match x.mul (.ofNat (tenTo power.toNat)) with
    | .infinite _ => none
    | y => some y

/-
  The value of a number.  At most the leading digits that fit
  64 bits count; the others only move the point.  A minus
  sign before a bare zero makes it a double.
-/
def value?
    (n : Numeral) : Option Number :=
  let (digits, taken) := gather 0 n.whole
  let dropped := n.whole.length - taken
  let sign (x : Binary64) := if n.negative then x.neg else x
  if n.fraction.isNone ∧ n.power.isNone ∧ dropped = 0 then
    if !n.negative then some (.whole digits)
    else if digits = 0 ∨ twoTo 63 < digits then
      some (.real (Binary64.ofNat digits).neg)
    else some (.whole (-(digits : Int)))
  else
    let (digits, places) := gather digits (n.fraction.getD [])
    let power :=
      n.power.getD 0 + (dropped : Int) - (places : Int)
    (scale? (.ofNat digits) power).map
      (fun x => .real (sign x))

end Numeral

------------------------------------------------------------
-- Values
------------------------------------------------------------

/- Read a number. -/
def readNumber
    (cs : List Char) : Option (Json × List Char) := do
  let (n, cs) ← readNumeral cs
  let v ← n.value?
  return (.num v, cs)

/- Read the items of an array behind the first bracket. -/
def readItems
    (read : List Char → Option (Json × List Char)) :
    Nat → List Json → List Char →
      Option (List Json × List Char)
  | 0, _, _ => none
  | k + 1, acc, cs =>
      match read cs with
      | none => none
      | some (v, cs) =>
          match skipBlanks cs with
          | ',' :: cs => readItems read k (v :: acc) cs
          | ']' :: cs => some ((v :: acc).reverse, cs)
          | _ => none

/- Read the members of an object behind the first brace. -/
def readMembers
    (read : List Char → Option (Json × List Char)) :
    Nat → Members → List Char → Option (Members × List Char)
  | 0, _, _ => none
  | k + 1, acc, cs =>
      match skipBlanks cs with
      | '"' :: cs =>
          match readString [] none cs with
          | none => none
          | some (key, cs) =>
              match skipBlanks cs with
              | ':' :: cs =>
                  match read cs with
                  | none => none
                  | some (v, cs) =>
                      let acc := acc.insert key v
                      match skipBlanks cs with
                      | ',' :: cs => readMembers read k acc cs
                      | '\x7d' :: cs => some (acc, cs)
                      | _ => none
              | _ => none
      | _ => none

/-
  Read a value in which arrays and objects may nest `depth`
  deep.  No list has more entries than `size`, the length of
  the whole text.
-/
def readValue
    (size : Nat) :
    Nat → List Char → Option (Json × List Char)
  | depth, cs =>
      match skipBlanks cs with
      | 'n' :: 'u' :: 'l' :: 'l' :: cs => some (.null, cs)
      | 't' :: 'r' :: 'u' :: 'e' :: cs => some (.bool true, cs)
      | 'f' :: 'a' :: 'l' :: 's' :: 'e' :: cs =>
          some (.bool false, cs)
      | '"' :: cs =>
          (readString [] none cs).map (fun r => (.str r.1, r.2))
      | '[' :: cs =>
          match depth with
          | 0 => none
          | depth + 1 =>
              match skipBlanks cs with
              | ']' :: cs => some (.arr [], cs)
              | cs =>
                  (readItems (readValue size depth) size []
                    cs).map (fun r => (.arr r.1, r.2))
      | '\x7b' :: cs =>
          match depth with
          | 0 => none
          | depth + 1 =>
              match skipBlanks cs with
              | '\x7d' :: cs => some (.obj [], cs)
              | cs =>
                  (readMembers (readValue size depth) size []
                    cs).map (fun r => (.obj r.1, r.2))
      | cs => readNumber cs

end Json.Reader

namespace Json

/- How deep arrays and objects may nest in a text. -/
def nestingLimit : Nat := 127

open Reader in
/- Read a text that nests at most so deep. -/
def parseWithin?
    (limit : Nat)
    (text : String) : Option Json :=
  let cs := text.toList
  match readValue (cs.length + 1) limit cs with
  | some (v, rest) =>
      match skipBlanks rest with
      | [] => some v
      | _ :: _ => none
  | none => none

/- Read a JSON text. -/
def parse?
    (text : String) : Option Json :=
  parseWithin? nestingLimit text

end Json

end TypeGraft
