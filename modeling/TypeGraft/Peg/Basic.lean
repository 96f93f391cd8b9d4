/-
  Parsing expressions: ordered choice, greedy repetition, no
  backtracking into a repetition that has ended.

  An expression `Peg N V α` reads text and yields an `α`.
  Calls to named rules go through `Peg.call`; every named
  rule yields a `V`.

  Key definitions include:
    * `Cursor`
    * `CharClass`
    * `Failures`
    * `Failures.join`
    * `Failures.describe`
    * `Outcome`
    * `Peg`
    * `Peg.optional`
    * `Peg.many1`
    * `Peg.sepBy`
    * `Peg.sepBy1`
-/

namespace TypeGraft

------------------------------------------------------------
-- Cursors
------------------------------------------------------------

/-
  A place in a text: what is still to be read, and how many
  bytes of UTF-8 stand before it.
-/
structure Cursor where
  rest : List Char
  offset : Nat
deriving DecidableEq, Repr

namespace Cursor

/- The cursor before the first character of a text. -/
def start
    (text : List Char) : Cursor :=
  ⟨text, 0⟩

/- The cursor one character further on. -/
def step
    (c : Cursor) : Cursor :=
  match c.rest with
  | [] => c
  | x :: xs => ⟨xs, c.offset + x.utf8Size⟩

/- The number of bytes that a list of characters takes. -/
def byteLength : List Char → Nat
  | [] => 0
  | x :: xs => x.utf8Size + byteLength xs

/- Remove a literal from the front of a list. -/
def dropLiteral : List Char → List Char → Option (List Char)
  | [], xs => some xs
  | _ :: _, [] => none
  | l :: ls, x :: xs =>
      if l = x then dropLiteral ls xs else none

/- The cursor behind a literal, if the text goes on with it. -/
def literal?
    (c : Cursor)
    (text : List Char) : Option Cursor :=
  (dropLiteral text c.rest).map
    (fun rest => ⟨rest, c.offset + byteLength text⟩)

end Cursor

------------------------------------------------------------
-- Character Classes
------------------------------------------------------------

/- A set of characters, with the name that messages use. -/
structure CharClass where
  label : String
  accepts : Char → Bool

------------------------------------------------------------
-- Failures
------------------------------------------------------------

/-
  What would have let a reading go further: the furthest
  offset at which something failed to match, and everything
  that failed exactly there.
-/
structure Failures where
  offset : Nat := 0
  expected : List String := []
deriving DecidableEq, Repr

namespace Failures

/- Nothing has failed. -/
def empty : Failures := ⟨0, []⟩

/- One item failed to match at one offset. -/
def one
    (offset : Nat)
    (label : String) : Failures :=
  ⟨offset, [label]⟩

/-
  Keep the further of two records; pool them at one offset,
  where every item stands only once.
-/
def join
    (f g : Failures) : Failures :=
  if f.offset < g.offset then g
  else if g.offset < f.offset then f
  else ⟨f.offset, f.expected.foldr List.insert g.expected⟩

/- The expected items, each once, in alphabetical order. -/
def items
    (f : Failures) : List String :=
  (f.expected.mergeSort (fun a b => decide (a ≤ b))).eraseReps

/- The expected items as a message names them. -/
def describe
    (f : Failures) : String :=
  match f.items with
  | [] => "<unreported>"
  | [item] => item
  | items => "one of " ++ ", ".intercalate items

end Failures

/-
  The outcome of reading an expression at a cursor: the value
  and the cursor behind it, if the expression matched, and
  the failures met on the way.
-/
structure Outcome (α : Type) where
  result : Option (α × Cursor)
  failures : Failures

------------------------------------------------------------
-- Expressions
------------------------------------------------------------

/-
  Parsing expressions over rule names `N`, whose rules yield
  values of type `V`.
-/
inductive Peg (N V : Type) : Type → Type 1 where
  /- Exactly this text. -/
  | literal (text : List Char) : Peg N V Unit
  /- One character of a class. -/
  | char (cls : CharClass) : Peg N V Char
  /- Match nothing. -/
  | succeed {α : Type} (value : α) : Peg N V α
  /- Never match, and report what was wanted here. -/
  | fail {α : Type} (label : String) : Peg N V α
  /- One expression, then another. -/
  | seq {α β : Type} (p : Peg N V α) (q : Peg N V β) :
      Peg N V (α × β)
  /-
    Change the value, or refuse it and report what was
    wanted behind it.
  -/
  | check {α β : Type} (f : α → Except String β)
      (p : Peg N V α) : Peg N V β
  /- The first expression, or else the second. -/
  | choice {α : Type} (p q : Peg N V α) : Peg N V α
  /- As many repetitions as match. -/
  | many {α : Type} (p : Peg N V α) : Peg N V (List α)
  /- Match without reporting failures. -/
  | quiet {α : Type} (p : Peg N V α) : Peg N V α
  /- Match nothing, provided the expression does not match. -/
  | absent {α : Type} (p : Peg N V α) : Peg N V Unit
  /- A named rule. -/
  | call (name : N) : Peg N V V

namespace Peg

variable {N V : Type}

/- Change the value of an expression. -/
def map
    {α β : Type}
    (f : α → β)
    (p : Peg N V α) : Peg N V β :=
  check (fun a => .ok (f a)) p

instance : Functor (Peg N V) where
  map := map

instance : Applicative (Peg N V) where
  pure := Peg.succeed
  seq p q := map (fun v => v.1 v.2) (Peg.seq p (q ()))
  seqLeft p q := map Prod.fst (Peg.seq p (q ()))
  seqRight p q := map Prod.snd (Peg.seq p (q ()))

instance {α : Type} : OrElse (Peg N V α) where
  orElse p q := choice p (q ())

/- An expression that may be absent. -/
def optional
    {α : Type}
    (p : Peg N V α) : Peg N V (Option α) :=
  choice (map some p) (Peg.succeed none)

/- At least one repetition. -/
def many1
    {α : Type}
    (p : Peg N V α) : Peg N V (List α) :=
  map (fun v => v.1 :: v.2) (Peg.seq p (many p))

/-
  At least one item, with separators between the items.  A
  separator that no item follows is left unread.
-/
def sepBy1
    {α β : Type}
    (p : Peg N V α)
    (sep : Peg N V β) : Peg N V (List α) :=
  map (fun v => v.1 :: v.2)
    (Peg.seq p (many (map Prod.snd (Peg.seq sep p))))

/- Any number of items, with separators between the items. -/
def sepBy
    {α β : Type}
    (p : Peg N V α)
    (sep : Peg N V β) : Peg N V (List α) :=
  choice (sepBy1 p sep) (Peg.succeed [])

/- Exactly this text. -/
def symbol
    (s : String) : Peg N V Unit :=
  literal s.toList

/-
  How messages name a literal: in double quotes, with a
  backslash before quotes and backslashes.
-/
def literalLabel
    (text : List Char) : String :=
  String.ofList
    (['"'] ++
      text.flatMap (fun x =>
        if x = '"' ∨ x = '\\' then ['\\', x] else [x]) ++
      ['"'])

end Peg

end TypeGraft
