import TypeGraft.Json.Basic
import TypeGraft.Numeral.Shortest

/-
  Writing JSON text: compact, without blanks, members in
  their order.

  Key definitions include:
    * `Json.escape`
    * `Json.quote`
    * `Json.realText`
    * `Json.render`
    * `Json.write`
    * `Json.compact`

  What `Json.compact` writes is proven by:
    * `Json.toList_compact`
-/

namespace TypeGraft

namespace Json

------------------------------------------------------------
-- Strings
------------------------------------------------------------

/- Two hexadecimal digits of a small number. -/
def hexPair
    (n : Nat) : List Char :=
  let digits := Nat.toDigits 16 n
  List.replicate (2 - digits.length) '0' ++ digits

/-
  How a character is written inside a string.  Only quotes,
  backslashes and the characters below the blank are escaped.
-/
def escape
    (c : Char) : List Char :=
  if c = '"' then ['\\', '"']
  else if c = '\\' then ['\\', '\\']
  else if c = '\x08' then ['\\', 'b']
  else if c = '\x0c' then ['\\', 'f']
  else if c = '\n' then ['\\', 'n']
  else if c = '\r' then ['\\', 'r']
  else if c = '\t' then ['\\', 't']
  else if c.toNat < 0x20 then
    ['\\', 'u', '0', '0'] ++ hexPair c.toNat
  else [c]

/- A text in quotes. -/
def quote
    (s : String) : List Char :=
  '"' :: s.toList.flatMap escape ++ ['"']

------------------------------------------------------------
-- Numbers
------------------------------------------------------------

/-
  A double in the fewest digits that read back as it.  The
  powers from `-5` to `15` are written out, with at least one
  digit behind the point; others keep their power of ten.
  What is not finite has no number in JSON.
-/
def realText : Binary64 → List Char
  | .infinite _ => ['n', 'u', 'l', 'l']
  | .nan => ['n', 'u', 'l', 'l']
  | .finite negative m q _ =>
      let s := Binary64.shortest .toEven m q
      let sign := if negative then ['-'] else []
      if -5 ≤ s.exponent ∧ s.exponent ≤ 15 then
        let (whole, fraction) := s.plain
        sign ++ whole ++ ['.'] ++
          (if fraction.isEmpty then ['0'] else fraction)
      else sign ++ s.scientific

/- A whole number. -/
def wholeText
    (z : Int) : List Char :=
  (if z < 0 then ['-'] else []) ++ Nat.toDigits 10 z.natAbs

/- A number. -/
def numberText : Number → List Char
  | .whole z => wholeText z
  | .real x => realText x

------------------------------------------------------------
-- Values
------------------------------------------------------------

mutual

/- The compact text of a value, as a list of characters. -/
def render : Json → List Char
  | .null => ['n', 'u', 'l', 'l']
  | .bool true => ['t', 'r', 'u', 'e']
  | .bool false => ['f', 'a', 'l', 's', 'e']
  | .num n => numberText n
  | .str s => quote s
  | .arr [] => ['[', ']']
  | .arr (v :: vs) =>
      '[' :: render v ++ renderItems vs ++ [']']
  | .obj [] => ['\x7b', '\x7d']
  | .obj ((k, v) :: ms) =>
      '\x7b' :: quote k ++ ':' :: render v ++
        renderMembers ms ++ ['\x7d']

/- The other items of an array, each behind a comma. -/
def renderItems : List Json → List Char
  | [] => []
  | v :: vs => ',' :: render v ++ renderItems vs

/- The other members of an object, each behind a comma. -/
def renderMembers : List (String × Json) → List Char
  | [] => []
  | (k, v) :: ms =>
      ',' :: quote k ++ ':' :: render v ++ renderMembers ms

end

------------------------------------------------------------
-- Writing
------------------------------------------------------------

/- Write the key of a member and its colon. -/
def openMember
    (written : String)
    (key : String) : String :=
  (written ++ String.ofList (quote key)).push ':'

mutual

/-
  Write a value behind the text written so far.  Every piece
  is added at the end, so the work is in proportion to the
  text.
-/
def write
    (written : String) : Json → String
  | .null => written ++ "null"
  | .bool true => written ++ "true"
  | .bool false => written ++ "false"
  | .num n => written ++ String.ofList (numberText n)
  | .str s => written ++ String.ofList (quote s)
  | .arr [] => written ++ "[]"
  | .arr (v :: vs) =>
      (writeItems (write (written.push '[') v) vs).push ']'
  | .obj [] => written ++ "\x7b\x7d"
  | .obj ((k, v) :: ms) =>
      (writeMembers
        (write (openMember (written.push '\x7b') k) v)
        ms).push '\x7d'

/- Write the other items of an array. -/
def writeItems
    (written : String) : List Json → String
  | [] => written
  | v :: vs => writeItems (write (written.push ',') v) vs

/- Write the other members of an object. -/
def writeMembers
    (written : String) : List (String × Json) → String
  | [] => written
  | (k, v) :: ms =>
      writeMembers
        (write (openMember (written.push ',') k) v) ms

end

/- The compact text of a value. -/
def compact
    (v : Json) : String :=
  write "" v

------------------------------------------------------------
-- What Is Written
------------------------------------------------------------

/- A key is written behind the text so far. -/
theorem toList_openMember
    (written key : String) :
    (openMember written key).toList =
      written.toList ++ quote key ++ [':'] := by
  simp [openMember]

mutual

/- A value is written as its text, behind the text so far. -/
theorem toList_write
    (written : String)
    (v : Json) :
    (write written v).toList =
      written.toList ++ render v := by
  match v with
  | .null => simp [write, render]
  | .bool true => simp [write, render]
  | .bool false => simp [write, render]
  | .num _ => simp [write, render]
  | .str _ => simp [write, render]
  | .arr [] => simp [write, render]
  | .arr (v :: vs) =>
      simp [write, render, toList_writeItems,
        toList_write _ v]
  | .obj [] => simp [write, render]
  | .obj ((k, v) :: ms) =>
      simp [write, render, toList_writeMembers,
        toList_write _ v, toList_openMember]

/- So are the other items of an array. -/
theorem toList_writeItems
    (written : String)
    (vs : List Json) :
    (writeItems written vs).toList =
      written.toList ++ renderItems vs := by
  match vs with
  | [] => simp [writeItems, renderItems]
  | v :: vs =>
      simp [writeItems, renderItems,
        toList_writeItems _ vs, toList_write _ v]

/- So are the other members of an object. -/
theorem toList_writeMembers
    (written : String)
    (ms : List (String × Json)) :
    (writeMembers written ms).toList =
      written.toList ++ renderMembers ms := by
  match ms with
  | [] => simp [writeMembers, renderMembers]
  | (k, v) :: ms =>
      simp [writeMembers, renderMembers,
        toList_writeMembers _ ms, toList_write _ v,
        toList_openMember]

end

/- The compact text of a value is what `render` says. -/
theorem toList_compact
    (v : Json) :
    v.compact.toList = render v := by
  simp [compact, toList_write]

end Json

end TypeGraft
