import TypeGraft.Numeral.Binary64
import TypeGraft.Peg.Run
import TypeGraft.Toml.Table

/-
  The grammar of configuration files.

  Values nest, so they are the named rule; its name is how
  many brackets may still be opened inside.  Dates and times
  are objects of one member, which no setting takes.

  Key definitions include:
    * `TomlStatement`
    * `Toml.key`
    * `Toml.string`
    * `Toml.integer`
    * `Toml.float`
    * `Toml.dateTime`
    * `Toml.value`
    * `Toml.document`
    * `Toml.grammar`
-/

namespace TypeGraft

/- One line of a configuration file, if it says anything. -/
inductive TomlStatement where
  /- Open a table. -/
  | table (path : List String)
  /- Open one more table in a row of tables. -/
  | item (path : List String)
  /- Put a value under a key. -/
  | assign (path : List String) (key : String) (v : Json)
  /- A blank line or a comment. -/
  | nothing

namespace Toml

/- An expression of the grammar. -/
abbrev Rule := Peg Nat Json

open Peg

------------------------------------------------------------
-- Characters
------------------------------------------------------------

/- A character beyond ASCII. -/
def isWide
    (c : Char) : Bool :=
  0x80 ≤ c.toNat

/- A character that shows in a line, blanks included. -/
def isShown
    (c : Char) : Bool :=
  c = '\t' || (' ' ≤ c && c ≤ '~') || isWide c

/- A hexadecimal digit. -/
def isHexDigit
    (c : Char) : Bool :=
  Decimal.isDigit c || ('a' ≤ c && c ≤ 'f') ||
    ('A' ≤ c && c ≤ 'F')

/- The value of a hexadecimal digit. -/
def hexValue
    (c : Char) : Nat :=
  if Decimal.isDigit c then Decimal.digitValue c
  else if 'a' ≤ c then c.toNat - 'a'.toNat + 10
  else c.toNat - 'A'.toNat + 10

/- The number that digits write in some base. -/
def ofDigits
    (base : Nat)
    (cs : List Char) : Nat :=
  cs.foldl (fun n c => base * n + hexValue c) 0

/- One character that satisfies a test. -/
def one
    (label : String)
    (accepts : Char → Bool) : Rule Char :=
  char ⟨label, accepts⟩

/- Any character. -/
def anything : Rule Char := one "character" (fun _ => true)

/- A decimal digit. -/
def digit : Rule Char := one "digit" Decimal.isDigit

/- A sign. -/
def sign : Rule Char := one "sign" (fun c => c = '+' || c = '-')

/- A given character, as a value. -/
def exactly
    (c : Char) : Rule Char :=
  literal [c] *> succeed c

/- The end of the text. -/
def endOfText : Rule Unit := absent anything

/- Look ahead. -/
def followedBy
    {α : Type}
    (p : Rule α) : Rule Unit :=
  absent (absent p)

------------------------------------------------------------
-- Blanks
------------------------------------------------------------

/- A blank within a line. -/
def blank : Rule Char :=
  one "blank" (fun c => c = ' ' || c = '\t')

/- Blanks within a line. -/
def ws : Rule Unit := many blank *> succeed ()

/- The end of a line. -/
def newline : Rule Unit := symbol "\n" <|> symbol "\r\n"

/- A comment, up to the end of the line. -/
def comment : Rule Unit :=
  symbol "#" *> many (one "comment" isShown) *> succeed ()

/- The end of a line or of the text. -/
def lineEnd : Rule Unit := newline <|> endOfText

/- What may follow a statement on its line. -/
def trailing : Rule Unit := ws *> optional comment *> lineEnd

/- Blanks, comments and ends of lines. -/
def gap : Rule Unit :=
  many ((blank *> succeed ()) <|> newline <|> comment) *>
    succeed ()

------------------------------------------------------------
-- Strings
------------------------------------------------------------

/- What stands in double quotes without an escape. -/
def plainChar : Rule Char :=
  one "character" (fun c => isShown c && c != '"' && c != '\\')

/- What stands in single quotes. -/
def literalChar : Rule Char :=
  one "character" (fun c => isShown c && c != '\'')

/- The character with a given number. -/
def scalar
    (n : Nat) : Except String Char :=
  if h : n.isValidChar then .ok (Char.ofNatAux n h)
  else .error "scalar value"

/- Exactly so many hexadecimal digits. -/
def hexDigits : Nat → Rule (List Char)
  | 0 => succeed []
  | k + 1 =>
      (fun c cs => c :: cs) <$> one "hex digit" isHexDigit <*>
        hexDigits k

/- A character by its number in hexadecimal. -/
def scalarEscape
    (mark : Char)
    (width : Nat) : Rule Char :=
  check scalar
    (ofDigits 16 <$> (literal [mark] *> hexDigits width))

/- A letter that stands for a character. -/
def shortEscape
    (mark : Char)
    (c : Char) : Rule Char :=
  literal [mark] *> succeed c

/- An escape. -/
def escape : Rule Char :=
  symbol "\\" *>
    (shortEscape 'b' '\x08' <|> shortEscape 'f' '\x0c' <|>
      shortEscape 'n' '\n' <|> shortEscape 'r' '\r' <|>
      shortEscape 't' '\t' <|> exactly '\\' <|> exactly '"' <|>
      scalarEscape 'u' 4 <|> scalarEscape 'U' 8)

/- A string in double quotes. -/
def basicString : Rule String :=
  String.ofList <$>
    (symbol "\"" *> many (plainChar <|> escape) <* symbol "\"")

/- A string in single quotes. -/
def literalString : Rule String :=
  String.ofList <$> (symbol "'" *> many literalChar <* symbol "'")

/-
  One or two quotes inside a string of several lines, which a
  character other than a quote follows.
-/
def innerQuotes
    (quote : Char) : Rule (List Char) :=
  let other := followedBy (one "character" (fun c => c != quote))
  (literal [quote, quote] *> other *> succeed [quote, quote]) <|>
    (literal [quote] *> other *> succeed [quote])

/-
  The end of a string of several lines: three quotes, behind
  up to two that belong to the string.
-/
def closingQuotes
    (quote : Char) : Rule (List Char) :=
  let delimiter := [quote, quote, quote]
  (literal (quote :: quote :: delimiter) *>
      succeed [quote, quote]) <|>
    (literal (quote :: delimiter) *> succeed [quote]) <|>
    (literal delimiter *> succeed [])

/- The end of a line inside a string. -/
def lineBreak : Rule (List Char) := newline *> succeed ['\n']

/- A backslash that ends a line, with all blanks behind it. -/
def continuation : Rule (List Char) :=
  symbol "\\" *> ws *> newline *>
    many ((blank *> succeed ()) <|> newline) *> succeed []

/- A string of several lines. -/
def longString
    (quote : Char)
    (piece : Rule (List Char)) : Rule String :=
  (fun pieces last =>
      String.ofList (pieces.flatMap id ++ last)) <$>
    (literal [quote, quote, quote] *> optional newline *>
      many (piece <|> innerQuotes quote)) <*>
    closingQuotes quote

/- A string of several lines in double quotes. -/
def longBasicString : Rule String :=
  longString '"'
    (((fun c => [c]) <$> plainChar) <|> continuation <|>
      ((fun c => [c]) <$> escape) <|> lineBreak)

/- A string of several lines in single quotes. -/
def longLiteralString : Rule String :=
  longString '\'' (((fun c => [c]) <$> literalChar) <|> lineBreak)

/- A string. -/
def string : Rule String :=
  longBasicString <|> basicString <|> longLiteralString <|>
    literalString

------------------------------------------------------------
-- Keys
------------------------------------------------------------

/- How deep keys and values may nest. -/
def nestingLimit : Nat := 79

/- A key without quotes. -/
def bareKey : Rule String :=
  String.ofList <$>
    many1
      (one "key" (fun c =>
        c.isAlphanum || c = '-' || c = '_'))

/- One part of a key. -/
def simpleKey : Rule String :=
  basicString <|> literalString <|> bareKey

/- The parts of a key, with points between them. -/
def path : Rule (List String) :=
  check
    (fun parts =>
      if parts.length ≤ nestingLimit then .ok parts
      else .error "shorter key")
    (sepBy1 (ws *> simpleKey <* ws) (symbol "."))

/- A key: the parts before the last, and the last. -/
def key : Rule (List String × String) :=
  check
    (fun parts =>
      match parts.getLast? with
      | some last => .ok (parts.dropLast, last)
      | none => .error "key")
    path

------------------------------------------------------------
-- Numbers
------------------------------------------------------------

/- Digits, with single underscores between them. -/
def digitsOf
    (d : Rule Char) : Rule (List Char) :=
  (fun c cs => c :: cs) <$> d <*>
    many (d <|> (symbol "_" *> d))

/- A decimal without needless zeros in front. -/
def plainDecimal : Rule (List Char) :=
  (followedBy (one "digit" (fun c => '1' ≤ c && c ≤ '9')) *>
      digitsOf digit) <|>
    ((fun c => [c]) <$> digit)

/- A sign, if it is a minus; a plus is left out. -/
def minus : Rule (List Char) :=
  (fun s => if s = some '-' then ['-'] else []) <$>
    optional sign

/- A whole number that 64 bits hold. -/
def bounded
    (n : Int) : Except String Json :=
  if -(twoTo 63 : Int) ≤ n ∧ n < (twoTo 63 : Int) then
    .ok (.num (.whole n))
  else .error "smaller number"

/- A whole number in a base other than ten. -/
def basedInteger
    (mark : String)
    (base : Nat)
    (isDigit : Char → Bool) : Rule Json :=
  check (fun cs => bounded (ofDigits base cs))
    (symbol mark *> digitsOf (one "digit" isDigit))

/- A whole number in base ten. -/
def decimalInteger : Rule Json :=
  check
    (fun v =>
      bounded
        (if v.1.isEmpty then (Decimal.ofDigits v.2 : Int)
        else -(Decimal.ofDigits v.2 : Int)))
    (seq minus plainDecimal)

/- A whole number. -/
def integer : Rule Json :=
  basedInteger "0x" 16 isHexDigit <|>
    basedInteger "0o" 8 (fun c => '0' ≤ c && c ≤ '7') <|>
    basedInteger "0b" 2 (fun c => c = '0' || c = '1') <|>
    decimalInteger

/- A fraction. -/
def fraction : Rule (List Char) :=
  (fun cs => '.' :: cs) <$> (symbol "." *> digitsOf digit)

/- A power of ten. -/
def power : Rule (List Char) :=
  (fun s cs => 'e' :: s ++ cs) <$>
    ((symbol "e" <|> symbol "E") *> minus) <*> digitsOf digit

/- A number with a fraction or a power of ten. -/
def decimalFloat : Rule Json :=
  check
    (fun cs =>
      match Binary64.ofText cs with
      | .infinite false => .error "smaller number"
      | x => .ok (.num (.real x)))
    ((fun s n tail => s ++ n ++ tail) <$> minus <*>
      plainDecimal <*>
      (power <|>
        ((fun f p => f ++ p.getD []) <$> fraction <*>
          optional power)))

/-
  A number that is not finite.  No setting takes one, so they
  are not told apart.
-/
def endlessFloat : Rule Json :=
  optional sign *> (symbol "inf" <|> symbol "nan") *>
    succeed (.num (.real (.infinite false)))

/- A number that need not be whole. -/
def float : Rule Json := decimalFloat <|> endlessFloat

/- A truth value. -/
def boolean : Rule Json :=
  (symbol "true" *> succeed (.bool true)) <|>
    (symbol "false" *> succeed (.bool false))

------------------------------------------------------------
-- Dates and Times
------------------------------------------------------------

/- Exactly so many digits, as a number within bounds. -/
def clockNumber
    (width least most : Nat) : Rule Nat :=
  let rec digits : Nat → Rule (List Char)
    | 0 => succeed []
    | k + 1 =>
        (fun c cs => c :: cs) <$> digit <*> digits k
  check
    (fun cs =>
      let n := Decimal.ofDigits cs
      if least ≤ n ∧ n ≤ most then .ok n
      else .error "number within bounds")
    (digits width)

/- The number of days in a month. -/
def daysIn
    (year month : Nat) : Nat :=
  if month = 2 then
    if year % 4 = 0 ∧ (year % 100 ≠ 0 ∨ year % 400 = 0) then 29
    else 28
  else if [4, 6, 9, 11].contains month then 30
  else 31

/- A day of the calendar. -/
def date : Rule Unit :=
  check
    (fun v =>
      if v.2.2 ≤ daysIn v.1 v.2.1 then .ok ()
      else .error "day")
    (seq (clockNumber 4 0 9999 <* symbol "-")
      (seq (clockNumber 2 1 12 <* symbol "-")
        (clockNumber 2 1 31)))

/- A time of day. -/
def time : Rule Unit :=
  clockNumber 2 0 23 *> symbol ":" *> clockNumber 2 0 59 *>
    symbol ":" *> clockNumber 2 0 60 *>
    optional (symbol "." *> many1 digit) *> succeed ()

/- How far a time is from that of the prime meridian. -/
def timeOffset : Rule Unit :=
  symbol "Z" <|> symbol "z" <|>
    (sign *> clockNumber 2 0 23 *> symbol ":" *>
      clockNumber 2 0 59 *> succeed ())

/- A date, a time or both. -/
def dateTime : Rule Json :=
  ((date *>
      optional
        ((symbol "T" <|> symbol "t" <|> symbol " ") *> time *>
          optional timeOffset) *> succeed ()) <|>
      time) *>
    succeed (.obj [("date-time", .null)])

------------------------------------------------------------
-- Values
------------------------------------------------------------

/- Items between brackets, a last comma allowed. -/
def array
    (item : Rule Json) : Rule Json :=
  Json.arr <$>
    (symbol "[" *>
      ((sepBy1 (gap *> item <* gap) (symbol ",") <*
          optional (symbol ",")) <|>
        succeed []) <*
      gap <* symbol "]")

/- A key, a value and blanks around them. -/
def assignment
    (item : Rule Json) :
    Rule ((List String × String) × Json) :=
  seq (key <* symbol "=" <* ws) (item <* ws)

/- A table of assignments. -/
def tableOf :
    List ((List String × String) × Json) →
      TomlTable → Option TomlTable
  | [], t => some t
  | ((parts, last), v) :: rest, t =>
      (t.assign? last v parts).bind (tableOf rest)

/- Assignments between braces, all on one line. -/
def inlineTable
    (item : Rule Json) : Rule Json :=
  check
    (fun pairs =>
      match tableOf pairs [] with
      | some t => .ok t.toJson
      | none => .error "new key")
    (literal ['\x7b'] *> sepBy (assignment item) (symbol ",") <*
      ws <* literal ['\x7d'])

/- A value that holds no others. -/
def scalarValue : Rule Json :=
  (Json.str <$> string) <|> dateTime <|> float <|> integer <|>
    boolean

/- A value in which so many brackets may be opened. -/
def value : Nat → Rule Json
  | 0 => scalarValue
  | k + 1 =>
      array (call k) <|> inlineTable (call k) <|> scalarValue

------------------------------------------------------------
-- Documents
------------------------------------------------------------

/- A line with an assignment. -/
def assignmentLine : Rule TomlStatement :=
  (fun p => .assign p.1.1 p.1.2 p.2) <$>
    (seq (key <* symbol "=" <* ws) (call nestingLimit) <* trailing)

/- A line with a header. -/
def headerLine : Rule TomlStatement :=
  (.item <$> (symbol "[[" *> path <* symbol "]]" <* trailing)) <|>
    (absent (symbol "[[") *>
      (.table <$> (symbol "[" *> path <* symbol "]" <* trailing)))

/- A line that says nothing. -/
def emptyLine : Rule TomlStatement :=
  ((comment *> lineEnd) <|> newline) *> succeed .nothing

/- A whole file. -/
def document : Rule (List TomlStatement) :=
  optional (literal ['\ufeff']) *> ws *>
    many
      ((emptyLine <|> headerLine <|> assignmentLine) <* ws)

/-
  The grammar.  A value inside another is behind a bracket,
  so no rule calls another before a character is read.
-/
def grammar : Grammar Nat Json where
  rule := value
  height := 1

end Toml

end TypeGraft
