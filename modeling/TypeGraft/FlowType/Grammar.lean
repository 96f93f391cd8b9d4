import TypeGraft.FlowType.Basic
import TypeGraft.Peg.Run

/-
  The grammar of Flow type declarations.

  From the loosest to the tightest, types are functions,
  unions, intersections, prefixed types, arrays and primary
  types.  Three rules call one another: a whole type, a
  prefixed type and a primary type.  A primary type that
  starts with a parenthesis is tried as a function first and
  as a group next, so primary types are remembered.

  Key definitions include:
    * `RuleName`
    * `Alias`
    * `FlowType.Grammar.ws`
    * `FlowType.Grammar.identifier`
    * `FlowType.Grammar.stringLiteral`
    * `FlowType.Grammar.primary`
    * `FlowType.Grammar.typeAlias`
    * `FlowType.Grammar.classHeader`
    * `FlowType.grammar`
-/

namespace TypeGraft

/- The rules that call one another. -/
inductive RuleName where
  | type
  | prefixed
  | primary
deriving DecidableEq, Repr

/- A declaration that gives a type a name. -/
structure Alias where
  id : String
  typeParams : Option (List (TypeParameter FlowType))
  right : FlowType

namespace FlowType

namespace Grammar

/- An expression of the grammar. -/
abbrev Rule := Peg RuleName FlowType

open Peg

------------------------------------------------------------
-- Character Classes
------------------------------------------------------------

/- Does a name start with this? -/
def isIdentStart
    (c : Char) : Bool :=
  ('a' ≤ c && c ≤ 'z') || ('A' ≤ c && c ≤ 'Z') ||
    c = '_' || c = '$'

/- Does a name go on with this? -/
def isIdentChar
    (c : Char) : Bool :=
  ('a' ≤ c && c ≤ 'z') || ('A' ≤ c && c ≤ 'Z') ||
    ('0' ≤ c && c ≤ '9') || c = '_' || c = '$'

/- What a name starts with. -/
def identStart : CharClass :=
  ⟨"['a'..='z' | 'A'..='Z' | '_' | '$']", isIdentStart⟩

/- What a name goes on with. -/
def identChar : CharClass :=
  ⟨"['a'..='z' | 'A'..='Z' | '0'..='9' | '_' | '$']",
    isIdentChar⟩

/- A decimal digit. -/
def digit : CharClass :=
  ⟨"['0'..='9']", Decimal.isDigit⟩

/- The mark of an exponent. -/
def exponentMark : CharClass :=
  ⟨"['e' | 'E']", fun c => c = 'e' || c = 'E'⟩

/- A sign. -/
def signMark : CharClass :=
  ⟨"['+' | '-']", fun c => c = '+' || c = '-'⟩

/- What divides the members of an object. -/
def memberMark : CharClass :=
  ⟨"[',' | ';']", fun c => c = ',' || c = ';'⟩

/- What stands in double quotes without an escape. -/
def inDoubleQuotes : CharClass :=
  ⟨"[^'\"' | '\\\\']", fun c => c != '"' && c != '\\'⟩

/- What stands in single quotes without an escape. -/
def inSingleQuotes : CharClass :=
  ⟨"[^'\\'' | '\\\\']", fun c => c != '\'' && c != '\\'⟩

/- Any character. -/
def anyChar : CharClass :=
  ⟨"[_]", fun _ => true⟩

/- A blank. -/
def blank : CharClass :=
  ⟨"[' ' | '\\t' | '\\n' | '\\r']",
    fun c => c = ' ' || c = '\t' || c = '\n' || c = '\r'⟩

/- What stands in a line comment. -/
def inLine : CharClass :=
  ⟨"[^'\\n']", fun c => c != '\n'⟩

/- What makes the word `static` a key. -/
def keyMark : CharClass :=
  ⟨"[':' | '?']", fun c => c = ':' || c = '?'⟩

------------------------------------------------------------
-- Lexical Rules
------------------------------------------------------------

/- A comment between a slash with a star and its reverse. -/
def blockComment : Rule Unit :=
  symbol "/*" *> many (absent (symbol "*/") *> char anyChar) *>
    symbol "*/"

/- A comment that goes to the end of the line. -/
def lineComment : Rule Unit :=
  symbol "//" *> many (char inLine) *> succeed ()

/- Blanks and comments, of which nothing is reported. -/
def ws : Rule Unit :=
  quiet
    (many
      ((char blank *> succeed ()) <|> blockComment <|>
        lineComment) *>
      succeed ())

/- A name, read character by character. -/
def word : Rule String :=
  (fun c cs => String.ofList (c :: cs)) <$>
    char identStart <*> many (char identChar)

/- A given word. -/
def keyword
    (w : String) : Rule Unit :=
  check (fun s => if s = w then .ok () else .error w) word

/- A name, reported as a whole. -/
def identifier : Rule String :=
  quiet word <|> fail "identifier"

/- Resolve the escapes of a string literal. -/
def unescape : List Char → List Char
  | '\\' :: 'n' :: cs => '\n' :: unescape cs
  | '\\' :: 't' :: cs => '\t' :: unescape cs
  | '\\' :: 'r' :: cs => '\r' :: unescape cs
  | '\\' :: '0' :: cs => '\x00' :: unescape cs
  | '\\' :: c :: cs => c :: unescape cs
  | c :: cs => c :: unescape cs
  | [] => []

/-
  What stands between quotes: a backslash with any character
  behind it, or a plain character.
-/
def quotedBody
    (plain : CharClass) : Rule (List Char) :=
  List.flatten <$>
    many
      (((fun c => ['\\', c]) <$>
          (symbol "\\" *> char anyChar)) <|>
        ((fun c => [c]) <$> char plain))

/- A string literal in quotes of either kind. -/
def stringLiteral : Rule String :=
  ((fun cs => String.ofList (unescape cs)) <$>
      (symbol "\"" *> quotedBody inDoubleQuotes <* symbol "\"")) <|>
    ((fun cs => String.ofList (unescape cs)) <$>
      (symbol "'" *> quotedBody inSingleQuotes <* symbol "'"))

/- At least one digit. -/
def digits : Rule (List Char) :=
  many1 (char digit)

/- A minus sign or nothing. -/
def minus : Rule (List Char) :=
  (fun m => if m.isSome then ['-'] else []) <$>
    optional (symbol "-")

/- A fraction with its point, or nothing. -/
def fraction : Rule (List Char) :=
  (fun f => f.getD []) <$>
    optional ((fun ds => '.' :: ds) <$> (symbol "." *> digits))

/- A power of ten with its mark, or nothing. -/
def power : Rule (List Char) :=
  (fun p => p.getD []) <$>
    optional
      ((fun mark sign ds => mark :: sign.toList ++ ds) <$>
        char exponentMark <*> optional (char signMark) <*>
        digits)

/- A number literal. -/
def numberLiteral : Rule FlowType :=
  (fun cs =>
      FlowType.numberLiteral (Binary64.ofText cs)
        (String.ofList cs)) <$>
    (((fun m ds f p => m ++ ds ++ f ++ p) <$>
        minus <*> digits <*> fraction <*> power) <*
      absent (char identChar))

/- A whole number with an `n` behind it. -/
def bigintLiteral : Rule FlowType :=
  (fun cs => FlowType.bigintLiteral (String.ofList cs)) <$>
    (((fun m ds => m ++ ds ++ ['n']) <$>
        minus <*> (digits <* symbol "n")) <*
      absent (char identChar))

------------------------------------------------------------
-- Names and Arguments
------------------------------------------------------------

/- A whole type. -/
def type : Rule FlowType := call .type

/- A comma between two items. -/
def comma : Rule Unit :=
  ws *> symbol "," *> ws

/- A comma that may stand behind the last item. -/
def lastComma : Rule Unit :=
  ws *> optional (symbol ",") *> ws

/- A name with its qualifiers. -/
def typeName : Rule TypeName :=
  check
    (fun parts =>
      match parts with
      | [] => .error "type name"
      | part :: parts => .ok (TypeName.ofParts part parts))
    (sepBy1 identifier (ws *> symbol "." *> ws))

/- Type arguments. -/
def typeArgs : Rule (List FlowType) :=
  symbol "<" *> ws *> sepBy type comma <* lastComma <* symbol ">"

/- The keyword type that a simple name stands for. -/
def keywordOf? : String → Option Keyword
  | "any" => some .any
  | "mixed" => some .mixed
  | "empty" => some .empty
  | "void" => some .void
  | "null" => some .null
  | "number" => some .number
  | "string" => some .string
  | "boolean" => some .boolean
  | "bool" => some .boolean
  | "symbol" => some .symbol
  | "bigint" => some .bigint
  | _ => none

/-
  A reference, or a keyword type.  Keywords are keywords only
  without arguments.
-/
def reference
    (name : TypeName)
    (args : Option (List FlowType)) : FlowType :=
  match args, name.asSimple?.bind keywordOf? with
  | none, some word => .keyword word
  | args, _ => .generic name args

/- A name with arguments or without. -/
def generic : Rule FlowType :=
  reference <$> typeName <*> optional (ws *> typeArgs)

/- A tuple. -/
def tuple : Rule FlowType :=
  FlowType.tuple <$>
    (symbol "[" *> ws *> sepBy type comma <* lastComma <*
      symbol "]")

------------------------------------------------------------
-- Functions and Type Parameters
------------------------------------------------------------

/- A sign of variance. -/
def variance : Rule Variance :=
  ((fun _ => Variance.plus) <$> symbol "+") <|>
    ((fun _ => Variance.minus) <$> symbol "-")

/- A type behind a mark. -/
def typeAfter
    (mark : String) : Rule FlowType :=
  ws *> symbol mark *> ws *> type

/- A declared type parameter. -/
def typeParam : Rule (TypeParameter FlowType) :=
  (fun v name bound default =>
      TypeParameter.mk name v bound default) <$>
    optional variance <*> identifier <*>
    optional (typeAfter ":") <*> optional (typeAfter "=")

/- Declared type parameters. -/
def typeParams : Rule (List (TypeParameter FlowType)) :=
  symbol "<" *> ws *> sepBy1 typeParam comma <* lastComma <*
    symbol ">"

/- A parameter with its name, or only its type. -/
def parameter : Rule (Parameter FlowType) :=
  ((fun name optional type =>
      Parameter.mk (some name) optional.isSome type) <$>
    (identifier <* ws) <*>
    (optional (symbol "?") <* ws <* symbol ":" <* ws) <*>
    type) <|>
    ((fun type => Parameter.mk none false type) <$> type)

/- A rest parameter. -/
def restParameter : Rule (Parameter FlowType) :=
  symbol "..." *> ws *> parameter

/- The parameters of a function, and its rest parameter. -/
def parameters :
    Rule
      (List (Parameter FlowType) ×
        Option (Parameter FlowType)) :=
  Prod.mk <$> sepBy parameter comma <*>
    (optional (lastComma *> restParameter) <* ws <*
      optional (symbol ","))

/- Parameters in parentheses. -/
def parenthesized :
    Rule
      (List (Parameter FlowType) ×
        Option (Parameter FlowType)) :=
  symbol "(" *> ws *> parameters <* ws <* symbol ")"

/- A function from its parts. -/
def makeFunction
    (typeParams : Option (List (TypeParameter FlowType)))
    (params :
      List (Parameter FlowType) ×
        Option (Parameter FlowType))
    (result : FlowType) : FlowType :=
  .function typeParams params.1 params.2 result

/- A function type. -/
def functionType : Rule FlowType :=
  makeFunction <$> (optional typeParams <* ws) <*>
    (parenthesized <* ws <* symbol "=>" <* ws) <*> type

------------------------------------------------------------
-- Objects
------------------------------------------------------------

/- One entry of an object type, as it is written. -/
inductive Entry where
  | property (property : Property FlowType)
  | indexer (indexer : Indexer FlowType)
  | call (call : CallProperty FlowType)
  | inexact

/- The properties among the entries. -/
def propertiesOf
    (entries : List Entry) : List (Property FlowType) :=
  entries.filterMap (fun e =>
    match e with
    | .property p => some p
    | _ => none)

/- The indexers among the entries. -/
def indexersOf
    (entries : List Entry) : List (Indexer FlowType) :=
  entries.filterMap (fun e =>
    match e with
    | .indexer i => some i
    | _ => none)

/- The call properties among the entries. -/
def callsOf
    (entries : List Entry) : List (CallProperty FlowType) :=
  entries.filterMap (fun e =>
    match e with
    | .call c => some c
    | _ => none)

/- Is one of the entries the mark of an inexact object? -/
def isInexact
    (entries : List Entry) : Bool :=
  entries.any (fun e =>
    match e with
    | .inexact => true
    | _ => false)

/- An object from its entries. -/
def makeObject
    (exact : Bool)
    (entries : List Entry) : FlowType :=
  .object (propertiesOf entries) (indexersOf entries)
    (callsOf entries) exact (isInexact entries)

/- The word `static`, unless it is a key itself. -/
def static : Rule Bool :=
  Option.isSome <$>
    optional
      (keyword "static" <* ws <* absent (char keyMark))

/- A property key. -/
def propertyKey : Rule PropertyKey :=
  (PropertyKey.identifier <$> identifier) <|>
    (PropertyKey.string <$> stringLiteral)

/- All properties of another type. -/
def spreadEntry : Rule Entry :=
  (fun t => Entry.property (.spread t)) <$>
    (symbol "..." *> ws *> type)

/- The mark of an inexact object. -/
def inexactEntry : Rule Entry :=
  (fun _ => Entry.inexact) <$> symbol "..."

/- An indexer. -/
def indexerEntry : Rule Entry :=
  (fun v id key value =>
      Entry.indexer (Indexer.mk id key value v)) <$>
    (static *> optional variance <* symbol "[" <* ws) <*>
    optional (identifier <* ws <* symbol ":" <* ws) <*>
    (type <* ws <* symbol "]" <* ws <* symbol ":" <* ws) <*>
    type

/- A call property. -/
def callEntry : Rule Entry :=
  (fun s typeParams params result =>
      Entry.call
        ⟨makeFunction typeParams params result, s⟩) <$>
    static <*> (optional typeParams <* ws) <*>
    (parenthesized <* ws <* symbol ":" <* ws) <*> type

/- A method. -/
def methodEntry : Rule Entry :=
  (fun s v key typeParams params result =>
      Entry.property
        (.entry key (makeFunction typeParams params result)
          false true s v)) <$>
    static <*> optional variance <*> (propertyKey <* ws) <*>
    (optional typeParams <* ws) <*>
    (parenthesized <* ws <* symbol ":" <* ws) <*> type

/- A property with its type. -/
def fieldEntry : Rule Entry :=
  (fun s v key optional value =>
      Entry.property
        (.entry key value optional.isSome false s v)) <$>
    static <*> optional variance <*> (propertyKey <* ws) <*>
    (optional (symbol "?") <* ws <* symbol ":" <* ws) <*> type

/- One entry of an object type. -/
def entry : Rule Entry :=
  spreadEntry <|> inexactEntry <|> indexerEntry <|>
    callEntry <|> methodEntry <|> fieldEntry

/- The entries of an object type. -/
def entries : Rule (List Entry) :=
  sepBy entry (ws *> char memberMark *> ws) <*
    optional (ws *> char memberMark)

/- An object type, exact or not. -/
def objectType : Rule FlowType :=
  (makeObject true <$>
      (symbol "\x7b|" *> ws *> entries <* ws <* symbol "|\x7d")) <|>
    (makeObject false <$>
      (symbol "\x7b" *> ws *> entries <* ws <* symbol "\x7d"))

------------------------------------------------------------
-- Types
------------------------------------------------------------

/- A type in parentheses. -/
def group : Rule FlowType :=
  symbol "(" *> ws *> type <* ws <* symbol ")"

/- The type of a named value. -/
def typeofType : Rule FlowType :=
  (fun name => FlowType.typeOf (.generic name none)) <$>
    (keyword "typeof" *> ws *> typeName)

/- A primary type. -/
def primary : Rule FlowType :=
  functionType <|> group <|> objectType <|> tuple <|>
    typeofType <|>
    (FlowType.stringLiteral <$> stringLiteral) <|>
    bigintLiteral <|> numberLiteral <|>
    ((fun _ => FlowType.booleanLiteral true) <$>
      keyword "true") <|>
    ((fun _ => FlowType.booleanLiteral false) <$>
      keyword "false") <|>
    ((fun _ => FlowType.keyword .exists) <$> symbol "*") <|>
    generic

/- A primary type with brackets behind it. -/
def arrayed : Rule FlowType :=
  (fun t brackets =>
      brackets.foldl (fun t _ => FlowType.array t) t) <$>
    call .primary <*>
    many (ws *> symbol "[" *> ws *> symbol "]")

/- A type with question marks before it. -/
def prefixed : Rule FlowType :=
  (FlowType.nullable <$> (symbol "?" *> ws *> call .prefixed)) <|>
    arrayed

/- One type, or several joined into one. -/
def joined
    (join : List FlowType → FlowType)
    (first : FlowType)
    (others : List FlowType) : FlowType :=
  if others.isEmpty then first else join (first :: others)

/- Types with a mark between them, and perhaps before them. -/
def joinedBy
    (mark : String)
    (join : List FlowType → FlowType)
    (item : Rule FlowType) : Rule FlowType :=
  joined join <$>
    (optional (symbol mark *> ws) *> item) <*>
    many (ws *> symbol mark *> ws *> item)

/- An intersection. -/
def intersection : Rule FlowType :=
  joinedBy "&" .intersection (call .prefixed)

/- A union. -/
def union : Rule FlowType :=
  joinedBy "|" .union intersection

------------------------------------------------------------
-- Declarations
------------------------------------------------------------

/- A mark that may end a declaration. -/
def ending : Rule Unit :=
  ws *> optional (symbol ";") *> ws

/- A type alias. -/
def typeAlias : Rule Alias :=
  Alias.mk <$>
    (ws *> keyword "type" *> ws *> identifier <* ws) <*>
    (optional typeParams <* ws <* symbol "=" <* ws) <*>
    (type <* ending)

/- A class declaration, of which the name is kept. -/
def classHeader : Rule String :=
  ws *> optional (keyword "declare" *> ws) *>
    keyword "class" *> ws *> identifier <* ws <*
    optional typeParams <* ws <*
    optional (keyword "extends" *> ws *> generic *> ws) <*
    optional
      (keyword "implements" *> ws *> sepBy1 generic comma *>
        ws) <*
    objectType <* ending

end Grammar

/-
  The grammar of types.  A whole type may call a prefixed one
  and that a primary one before a character is read.
-/
def grammar : TypeGraft.Grammar RuleName FlowType where
  rule
    | .type => Grammar.union
    | .prefixed => Grammar.prefixed
    | .primary => Grammar.primary
  height := 3
  remembered := some .primary

end FlowType

end TypeGraft
