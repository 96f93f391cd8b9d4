import TypeGraft.FlowType.Basic
import TypeGraft.Numeral.Shortest

/-
  Printing types as Flow writes them, with parentheses only
  where they are needed.

  A printer puts its text in front of the text that follows,
  so no text is copied when types are nested.

  Key definitions include:
    * `Level`
    * `FlowType.quoted`
    * `FlowType.numberText`
    * `FlowType.render`
    * `FlowType.text`
    * `FlowType.typeParamsText`
-/

namespace TypeGraft

/-
  How tightly a type holds together, from the loosest to the
  tightest.
-/
inductive Level where
  | whole
  | union
  | intersection
  | unary
  | atom
deriving DecidableEq, Repr

namespace Level

/- The rank of a level, the loosest first. -/
def rank : Level → Nat
  | .whole => 0
  | .union => 1
  | .intersection => 2
  | .unary => 3
  | .atom => 4

end Level

/- The word of a keyword type. -/
def Keyword.word : Keyword → String
  | .any => "any"
  | .mixed => "mixed"
  | .empty => "empty"
  | .void => "void"
  | .null => "null"
  | .number => "number"
  | .string => "string"
  | .boolean => "boolean"
  | .symbol => "symbol"
  | .bigint => "bigint"
  | .exists => "*"

/- A name with its qualifiers, divided by dots. -/
def TypeName.render : TypeName → List Char → List Char
  | .simple name, after => name.toList ++ after
  | .qualified qualifier name, after =>
      qualifier.render ('.' :: name.toList ++ after)

/- The sign of a variance. -/
def Variance.sign : Variance → List Char
  | .plus => ['+']
  | .minus => ['-']

namespace FlowType

------------------------------------------------------------
-- Leaves
------------------------------------------------------------

/-
  How a character stands in a string literal: quotes,
  backslashes and line feeds are escaped.
-/
def escape
    (c : Char) : List Char :=
  if c = '"' then ['\\', '"']
  else if c = '\\' then ['\\', '\\']
  else if c = '\n' then ['\\', 'n']
  else [c]

/- A string literal. -/
def quoted
    (s : String) : List Char :=
  '"' :: s.toList.flatMap escape ++ ['"']

/-
  A number without a spelling of its own: the fewest digits
  that read back as it, written out in full.
-/
def numberText : Binary64 → List Char
  | .infinite negative =>
      (if negative then ['-'] else []) ++ ['i', 'n', 'f']
  | .nan => ['N', 'a', 'N']
  | .finite negative m q _ =>
      let (whole, fraction) :=
        (Binary64.shortest .upward m q).plain
      (if negative then ['-'] else []) ++ whole ++
        (if fraction.isEmpty then [] else '.' :: fraction)

/- The sign of a variance, if there is one. -/
def sign : Option Variance → List Char
  | some v => v.sign
  | none => []

/- Put parentheses around a text where they are needed. -/
def enclose
    (own context : Level)
    (body : List Char → List Char)
    (after : List Char) : List Char :=
  if own.rank < context.rank then '(' :: body (')' :: after)
  else body after

/- What stands between two items; nothing before the first. -/
def between
    (separator : List Char)
    (first : Bool) : List Char :=
  if first then [] else separator

/- A comma and a blank between two items. -/
def comma
    (first : Bool) : List Char :=
  between [',', ' '] first

/- A property key. -/
def keyText : PropertyKey → List Char
  | .identifier name => name.toList
  | .string value => quoted value

/- The word before a static member. -/
def staticText
    (static : Bool) : List Char :=
  if static then "static ".toList else []

/- The mark behind the name of something optional. -/
def optionalText
    (optional : Bool) : List Char :=
  if optional then ['?'] else []

/- What stands before the type of a parameter. -/
def parameterHead
    (name : Option String)
    (optional : Bool) : List Char :=
  match name with
  | some name => name.toList ++ optionalText optional ++ [':', ' ']
  | none => []

------------------------------------------------------------
-- Types
------------------------------------------------------------

mutual

/-
  A type as it stands in a context.  Members of a union are
  at the level of intersections, members of an intersection
  at the level of prefixes, and a function reaches as far to
  the right as it can.
-/
def render
    (context : Level) : FlowType → List Char → List Char
  | .keyword word, after => word.word.toList ++ after
  | .stringLiteral value, after => quoted value ++ after
  | .numberLiteral value raw, after =>
      if raw.isEmpty then numberText value ++ after
      else raw.toList ++ after
  | .bigintLiteral text, after => text.toList ++ after
  | .booleanLiteral true, after => "true".toList ++ after
  | .booleanLiteral false, after => "false".toList ++ after
  | .generic name none, after => name.render after
  | .generic name (some args), after =>
      name.render
        ('<' :: renderEach [',', ' '] .whole true args
          ('>' :: after))
  | .typeOf argument, after =>
      enclose .unary context
        (fun after =>
          "typeof ".toList ++ render .atom argument after)
        after
  | .nullable inner, after =>
      enclose .unary context
        (fun after => '?' :: render .unary inner after)
        after
  | .array element, after =>
      render .atom element ('[' :: ']' :: after)
  | .union members, after =>
      enclose .union context
        (renderEach " | ".toList .intersection true members)
        after
  | .intersection members, after =>
      enclose .intersection context
        (renderEach " & ".toList .unary true members)
        after
  | .tuple members, after =>
      '[' :: renderEach [',', ' '] .whole true members
        (']' :: after)
  | .function typeParams params rest result, after =>
      enclose .whole context
        (fun after =>
          renderTypeParams typeParams
            ('(' :: renderParams true params
              (renderRest params.isEmpty rest
                (") => ".toList ++
                  render .whole result after))))
        after
  | .object properties indexers calls exact inexact, after =>
      let bare :=
        properties.isEmpty && indexers.isEmpty &&
          calls.isEmpty
      let blank := if bare && !inexact then [] else [' ']
      let (opening, closing) :=
        if exact then (['\x7b', '|'], ['|', '\x7d'])
        else (['\x7b'], ['\x7d'])
      opening ++ blank ++
        renderProperties true properties
          (renderIndexers properties.isEmpty indexers
            (renderCalls
              (properties.isEmpty && indexers.isEmpty) calls
              ((if inexact then comma bare ++ ['.', '.', '.']
                  else []) ++
                blank ++ closing ++ after)))

/- Types as they stand in one context, and what divides them. -/
def renderEach
    (separator : List Char)
    (context : Level)
    (first : Bool) : List FlowType → List Char → List Char
  | [], after => after
  | t :: ts, after =>
      between separator first ++
        render context t
          (renderEach separator context false ts after)

/- Declared type parameters, if there are any. -/
def renderTypeParams :
    Option (List (TypeParameter FlowType)) →
    List Char → List Char
  | none, after => after
  | some ts, after =>
      '<' :: renderTypeParamList true ts ('>' :: after)

/- Declared type parameters, with commas between them. -/
def renderTypeParamList
    (first : Bool) :
    List (TypeParameter FlowType) → List Char → List Char
  | [], after => after
  | t :: ts, after =>
      comma first ++ sign t.variance ++ t.name.toList ++
        renderAfter ": ".toList t.bound
          (renderAfter " = ".toList t.default
            (renderTypeParamList false ts after))

/- A type behind a text, if there is one. -/
def renderAfter
    (head : List Char) :
    Option FlowType → List Char → List Char
  | none, after => after
  | some t, after => head ++ render .whole t after

/- Parameters, with commas between them. -/
def renderParams
    (first : Bool) :
    List (Parameter FlowType) → List Char → List Char
  | [], after => after
  | p :: ps, after =>
      comma first ++ parameterHead p.name p.optional ++
        render .whole p.type (renderParams false ps after)

/- The rest parameter, if there is one. -/
def renderRest
    (first : Bool) :
    Option (Parameter FlowType) → List Char → List Char
  | none, after => after
  | some p, after =>
      comma first ++ ['.', '.', '.'] ++
        parameterHead p.name p.optional ++
        render .whole p.type after

/-
  Properties, with commas between them.  A method shows its
  signature with a colon before the result.
-/
def renderProperties
    (first : Bool) :
    List (Property FlowType) → List Char → List Char
  | [], after => after
  | .entry key (.function typeParams params rest result)
      _ true static variance :: ps, after =>
      comma first ++ staticText static ++ sign variance ++
        keyText key ++
        renderTypeParams typeParams
          ('(' :: renderParams true params
            (renderRest params.isEmpty rest
              ("): ".toList ++
                render .whole result
                  (renderProperties false ps after))))
  | .entry key value optional _ static variance :: ps, after =>
      comma first ++ staticText static ++ sign variance ++
        keyText key ++ optionalText optional ++ [':', ' '] ++
        render .whole value (renderProperties false ps after)
  | .spread argument :: ps, after =>
      comma first ++ ['.', '.', '.'] ++
        render .whole argument
          (renderProperties false ps after)

/- Indexers, with commas between them. -/
def renderIndexers
    (first : Bool) :
    List (Indexer FlowType) → List Char → List Char
  | [], after => after
  | i :: is, after =>
      comma first ++ sign i.variance ++ ['['] ++
        parameterHead i.id false ++
        render .whole i.key
          ("]: ".toList ++
            render .whole i.value
              (renderIndexers false is after))

/-
  Call properties, with commas between them.  A function
  shows its signature with a colon before the result.
-/
def renderCalls
    (first : Bool) :
    List (CallProperty FlowType) → List Char → List Char
  | [], after => after
  | ⟨.function typeParams params rest result, static⟩ :: cs,
      after =>
      comma first ++ staticText static ++
        renderTypeParams typeParams
          ('(' :: renderParams true params
            (renderRest params.isEmpty rest
              ("): ".toList ++
                render .whole result
                  (renderCalls false cs after))))
  | ⟨value, static⟩ :: cs, after =>
      comma first ++ staticText static ++
        render .whole value (renderCalls false cs after)

end

/- The text of a type. -/
def text
    (t : FlowType) : String :=
  String.ofList (render .whole t [])

/- The text of declared type parameters. -/
def typeParamsText
    (ts : List (TypeParameter FlowType)) : String :=
  String.ofList (renderTypeParams (some ts) [])

end FlowType

end TypeGraft
