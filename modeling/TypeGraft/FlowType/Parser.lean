import TypeGraft.FlowType.Dialect
import TypeGraft.FlowType.Grammar

/-
  Reading type texts, aliases and class declarations.

  A type text is read as the right side of an alias: the text
  is put between `type S = ` and a semicolon, and errors are
  reported in the coordinates of the text alone.

  Key definitions include:
    * `Subject`
    * `ParseError`
    * `ParseError.message`
    * `FlowType.parse`
    * `Alias.parse`
    * `parseClassName`
-/

namespace TypeGraft

------------------------------------------------------------
-- Errors
------------------------------------------------------------

/- What a text was read as. -/
inductive Subject where
  | type
  | typeAlias
  | classDeclaration
deriving DecidableEq, Repr

/- How messages name what a text was read as. -/
def Subject.name : Subject → String
  | .type => "type"
  | .typeAlias => "type alias"
  | .classDeclaration => "class declaration"

/- Why a text could not be read. -/
inductive ParseError where
  /- The dialect has no type syntax. -/
  | dialectDisabled
  /- The text does not follow the grammar. -/
  | invalid
      (subject : Subject)
      (text : String)
      (offset : Nat)
      (expected : String)
deriving DecidableEq, Repr

namespace ParseError

/- The message of an error. -/
def message : ParseError → String
  | .dialectDisabled =>
      "type syntax is not enabled (missing `flow` plugin)"
  | .invalid subject text offset expected =>
      s!"invalid {subject.name} `{text}` at offset {offset}: " ++
        s!"expected {expected}"

/-
  An error from the failures of a reading.  The first `skip`
  bytes are not part of the text, and neither is anything
  behind its end.
-/
def ofFailures
    (subject : Subject)
    (text : String)
    (skip : Nat)
    (failures : Failures) : ParseError :=
  .invalid subject text
    (min (failures.offset - skip)
      (Cursor.byteLength text.toList))
    failures.describe

end ParseError

------------------------------------------------------------
-- Readers
------------------------------------------------------------

/-
  Read a text with a rule of the grammar, provided that the
  dialect has type syntax.
-/
def readWith
    {α : Type}
    (dialect : Dialect)
    (rule : FlowType.Grammar.Rule α)
    (source : List Char)
    (blame : Failures → ParseError) : Except ParseError α :=
  if dialect.supportsTypes then
    match FlowType.grammar.parse rule source with
    | .ok a => .ok a
    | .error failures => .error (blame failures)
  else .error .dialectDisabled

/- What is put before a type text. -/
def fragmentHead : List Char := "type S = ".toList

/- The declaration that is made around a type text. -/
def fragmentSource
    (text : String) : List Char :=
  fragmentHead ++ text.toList ++ [';']

/- Read a type text. -/
def FlowType.parse
    (dialect : Dialect)
    (text : String) : Except ParseError FlowType :=
  (readWith dialect FlowType.Grammar.typeAlias (fragmentSource text)
    (.ofFailures .type text
      (Cursor.byteLength fragmentHead))).map
    Alias.right

/- Read a type alias. -/
def Alias.parse
    (dialect : Dialect)
    (text : String) : Except ParseError Alias :=
  readWith dialect FlowType.Grammar.typeAlias text.toList
    (.ofFailures .typeAlias text 0)

/- Read a class declaration and keep the name. -/
def parseClassName
    (dialect : Dialect)
    (text : String) : Except ParseError String :=
  readWith dialect FlowType.Grammar.classHeader text.toList
    (.ofFailures .classDeclaration text 0)

end TypeGraft
