import Std.Data.TreeMap
import TypeGraft.Peg.Basic

/-
  Running parsing expressions.

  `Peg.eval` reads one expression at a cursor, given a way to
  answer calls to named rules.  A `Grammar` answers them by
  its rules, either afresh every time (`Grammar.answer`) or
  with a memory of the rule marked for it
  (`Grammar.rememberingAnswer`).

  Key definitions include:
    * `Peg.eval`
    * `Grammar`
    * `Grammar.answer`
    * `Grammar.rememberingAnswer`
    * `Grammar.parsePlainly`
    * `Grammar.parse`
-/

namespace TypeGraft

namespace Peg

variable {N V : Type}
variable {m : Type → Type}

------------------------------------------------------------
-- Expressions
------------------------------------------------------------

/- Read a literal. -/
def readLiteral
    (text : List Char)
    (c : Cursor) : Outcome Unit :=
  match c.literal? text with
  | some c' => ⟨some ((), c'), .empty⟩
  | none => ⟨none, .one c.offset (literalLabel text)⟩

/- Read one character of a class. -/
def readChar
    (cls : CharClass)
    (c : Cursor) : Outcome Char :=
  match c.rest with
  | x :: _ =>
      if cls.accepts x then ⟨some (x, c.step), .empty⟩
      else ⟨none, .one c.offset cls.label⟩
  | [] => ⟨none, .one c.offset cls.label⟩

/-
  Repeat a reading until it fails: one round for each of some
  characters, and a last one that has to fail.
-/
@[specialize] def readMany
    [Monad m]
    {α : Type}
    (read : Cursor → m (Outcome α)) :
    List Char → Cursor → m (Outcome (List α))
  | [], c => do
      let r ← read c
      pure ⟨some ([], c), r.failures⟩
  | _ :: left, c => do
      let r ← read c
      match r.result with
      | none => pure ⟨some ([], c), r.failures⟩
      | some (a, c₁) =>
          let s ← readMany read left c₁
          pure ⟨
            s.result.map (fun v => (a :: v.1, v.2)),
            r.failures.join s.failures⟩

/-
  Read an expression at a cursor.  The items of a repetition
  each take a character, so the characters left bound it.
-/
@[specialize] def eval
    [Monad m]
    (call : N → Cursor → m (Outcome V)) :
    {α : Type} → Peg N V α → Cursor → m (Outcome α)
  | _, .literal text, c => pure (readLiteral text c)
  | _, .char cls, c => pure (readChar cls c)
  | _, .succeed a, c => pure ⟨some (a, c), .empty⟩
  | _, .fail label, c => pure ⟨none, .one c.offset label⟩
  | _, .seq p q, c => do
      let r ← eval call p c
      match r.result with
      | none => pure ⟨none, r.failures⟩
      | some (a, c₁) =>
          let s ← eval call q c₁
          pure ⟨
            s.result.map (fun v => ((a, v.1), v.2)),
            r.failures.join s.failures⟩
  | _, .check f p, c => do
      let r ← eval call p c
      match r.result with
      | none => pure ⟨none, r.failures⟩
      | some (a, c₁) =>
          match f a with
          | .ok b => pure ⟨some (b, c₁), r.failures⟩
          | .error label =>
              pure ⟨none,
                r.failures.join (.one c₁.offset label)⟩
  | _, .choice p q, c => do
      let r ← eval call p c
      match r.result with
      | some v => pure ⟨some v, r.failures⟩
      | none =>
          let s ← eval call q c
          pure ⟨s.result, r.failures.join s.failures⟩
  | _, .many p, c =>
      readMany (eval call p) c.rest c
  | _, .quiet p, c => do
      let r ← eval call p c
      pure ⟨r.result, .empty⟩
  | _, .absent p, c => do
      let r ← eval call p c
      match r.result with
      | some _ => pure ⟨none, .empty⟩
      | none => pure ⟨some ((), c), .empty⟩
  | _, .call n, c => call n c

end Peg

------------------------------------------------------------
-- Grammars
------------------------------------------------------------

/-
  A family of named rules.  No more than `height` rules may
  call one another before a character is read.  The results
  of the `remembered` rule, if there is one, are worth
  keeping, because they are asked for again and again at the
  same place.
-/
structure Grammar (N V : Type) where
  rule : N → Peg N V V
  height : Nat
  remembered : Option N := none

namespace Grammar

variable {N V : Type}

/-
  A bound on how deep calls nest at a cursor: `height` of
  them for every character left, and for the end of the text.
-/
def depth
    (g : Grammar N V)
    (c : Cursor) : Nat :=
  g.height * (c.rest.length + 1)

/- Answer a call by its rule, to a given depth. -/
def answer
    (g : Grammar N V) :
    Nat → N → Cursor → Outcome V
  | 0, _, _ => ⟨none, .empty⟩
  | k + 1, n, c =>
      Id.run ((g.rule n).eval (g.answer k) c)

/- Results of the remembered rule, by offset. -/
abbrev Memory (V : Type) :=
  Std.TreeMap Nat (Option (V × Cursor))

/-
  Answer a call, to a given depth, from memory if the rule is
  remembered there.  What comes from memory has been read
  before, so its failures are on record already.
-/
def rememberingAnswer
    [DecidableEq N]
    (g : Grammar N V) :
    Nat → N → Cursor → StateM (Memory V) (Outcome V)
  | 0, _, _ => pure ⟨none, .empty⟩
  | k + 1, n, c => do
      if g.remembered = some n then
        match (← get)[c.offset]? with
        | some result => pure ⟨result, .empty⟩
        | none =>
            let r ← (g.rule n).eval (g.rememberingAnswer k) c
            modify (fun mem => mem.insert c.offset r.result)
            pure r
      else
        (g.rule n).eval (g.rememberingAnswer k) c

/-
  Accept an outcome that has read the whole text; the end of
  the text is one more thing that may have been expected.
-/
def conclude
    {α : Type}
    (r : Outcome α) : Except Failures α :=
  match r.result with
  | none => .error r.failures
  | some (a, c) =>
      match c.rest with
      | [] => .ok a
      | _ :: _ =>
          .error (r.failures.join (.one c.offset "EOF"))

/- Read a whole text, answering every call afresh. -/
def parsePlainly
    {α : Type}
    (g : Grammar N V)
    (p : Peg N V α)
    (text : List Char) : Except Failures α :=
  let c := Cursor.start text
  conclude (Id.run (p.eval (g.answer (g.depth c)) c))

/- Read a whole text, keeping remembered results. -/
def parse
    [DecidableEq N]
    {α : Type}
    (g : Grammar N V)
    (p : Peg N V α)
    (text : List Char) : Except Failures α :=
  let c := Cursor.start text
  let run := p.eval (g.rememberingAnswer (g.depth c)) c
  conclude (Id.run (StateT.run run {})).1

end Grammar

end TypeGraft
