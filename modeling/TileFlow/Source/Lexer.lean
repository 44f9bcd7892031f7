import TileFlow.Integer
import TileFlow.Source.Token

/-!
# The lexer

A source is cut into lexemes from left to right, each the longest that one of the lexical
classes matches. Blanks and comments are dropped, and every other lexeme is read as a token.

The classes, by their first character:

* blanks: one or more of space, tab, line feed and carriage return;
* comments: two slashes and the rest of the line;
* values and symbols: `%` or `@` and at least one name character;
* integers: decimal digits after an optional `-`, or hexadecimal digits after `0x`;
* texts: between double quotes, where a backslash takes the next character along, unless
  that is a line feed;
* identifiers: words joined by single dots;
* single punctuation marks.

Letters and digits are those of ASCII.

## Main definitions

* `scan`: the class and length of the lexeme at the start of a source.
* `Class.read`: the token of a lexeme.
* `tokenize`: the tokens of a source, or the first position at which none starts.
-/

namespace TileFlow.Source

/-- A character of a value name. -/
def isWordChar (c : Char) : Bool :=
  c.isAlphanum || c == '_'

/-- A character of a symbol name. -/
def isSymbolChar (c : Char) : Bool :=
  isWordChar c || c == '.' || c == '$'

/-- A character that starts a word of an identifier. -/
def isIdentStart (c : Char) : Bool :=
  c.isAlpha || c == '_'

/-- A character that continues a word of an identifier. -/
def isIdentChar (c : Char) : Bool :=
  isWordChar c || c == '$'

/-- A character between lexemes. -/
def isSpace (c : Char) : Bool :=
  c == ' ' || c == '\t' || c == '\n' || c == '\r'

/-- A digit of a hexadecimal literal. -/
def isHexDigit (c : Char) : Bool :=
  c.isDigit || ('a' ≤ c && c ≤ 'f') || ('A' ≤ c && c ≤ 'F')

/-- The lexical classes (in `Token`). -/
inductive Class where
  | blank
  | comment
  | value
  | symbol
  | decimal
  | hexadecimal
  | str
  | ident
  | mark
  deriving DecidableEq, Repr

/-- How many characters continue an identifier: word characters, and dots that a word
follows. -/
def identTail : List Char → Nat
  | [] => 0
  | c :: rest =>
    if isIdentChar c then identTail rest + 1
    else if c = '.' then
      match rest with
      | [] => 0
      | d :: more => if isIdentStart d then identTail more + 2 else 0
    else 0

/-- How many characters complete a text after its opening quote, the closing quote
included. -/
def textTail : List Char → Option Nat
  | [] => none
  | '"' :: _ => some 1
  | '\\' :: rest =>
    match rest with
    | [] => none
    | c :: more => if c = '\n' then none else (textTail more).map (· + 2)
  | _ :: rest => (textTail rest).map (· + 1)

/-- How many characters after an opening quote are complete items of a text: plain
characters, and backslashes with the character after them. -/
def textItems : List Char → Nat
  | [] => 0
  | '"' :: _ => 0
  | '\\' :: rest =>
    match rest with
    | [] => 0
    | c :: more => if c = '\n' then 0 else textItems more + 2
  | _ :: rest => textItems rest + 1

/-- The length of the longest run with a property at the start of a list. -/
def runLength (p : Char → Bool) (cs : List Char) : Nat :=
  (cs.takeWhile p).length

/-- A class for a first character and the number of characters that follow it, if there are
any. -/
def nonempty (k : Class) (n : Nat) : Option (Class × Nat) :=
  if n = 0 then none else some (k, n)

/-- The hexadecimal digits after `0x`, where `rest` follows the `0`. -/
def hexDigitsAfterX : List Char → Nat
  | 'x' :: rest => runLength isHexDigit rest
  | _ => 0

/-- The class of the lexeme that starts with `c`, and how many characters of `rest` belong to it (in
`Token`). -/
def scan (c : Char) (rest : List Char) : Option (Class × Nat) :=
  if isSpace c then some (.blank, runLength isSpace rest)
  else if c = '/' then
    if rest.head? = some '/' then some (.comment, runLength (· != '\n') rest) else none
  else if c = '%' then nonempty .value (runLength isWordChar rest)
  else if c = '@' then nonempty .symbol (runLength isSymbolChar rest)
  else if c = '-' then nonempty .decimal (runLength Char.isDigit rest)
  else if c.isDigit then
    if c = '0' ∧ hexDigitsAfterX rest ≠ 0 then some (.hexadecimal, hexDigitsAfterX rest + 1)
    else some (.decimal, runLength Char.isDigit rest)
  else if c = '"' then (textTail rest).map (.str, ·)
  else if isIdentStart c then some (.ident, identTail rest)
  else (Mark.ofChar? c).map fun _ => (.mark, 0)

/-- The number that a digit stands for. -/
def digitValue (c : Char) : Nat :=
  if c.isDigit then c.toNat - '0'.toNat
  else if 'a' ≤ c then c.toNat - 'a'.toNat + 10
  else c.toNat - 'A'.toNat + 10

/-- The number that digits stand for, the first being the most significant. -/
def numeral (base : Nat) (digits : List Char) : Nat :=
  digits.foldl (fun n c => n * base + digitValue c) 0

/-- An integer token, when the integer is in range. -/
def intToken (n : Int) : Option Token :=
  if Integer.Fits n then some (.int n) else none

/-- The characters that the inside of a text stands for (`unescape`): a backslash makes `n` a line
feed and `t` a tab, and leaves any other character as it is. -/
def unescape : List Char → List Char
  | [] => []
  | '\\' :: rest =>
    match rest with
    | [] => []
    | c :: more => (if c = 'n' then '\n' else if c = 't' then '\t' else c) :: unescape more
  | c :: rest => c :: unescape rest

/-- The token of a lexeme that is not dropped (in `Token`); integers out of range have none. -/
def Class.read (lexeme : List Char) : Class → Option Token
  | .value => some (.value (String.ofList lexeme.tail))
  | .symbol => some (.symbol (String.ofList lexeme.tail))
  | .decimal =>
    match lexeme with
    | '-' :: digits => intToken (-(numeral 10 digits : Int))
    | digits => intToken (numeral 10 digits)
  | .hexadecimal => intToken (numeral 16 (lexeme.drop 2))
  | .str => some (.str (String.ofList (unescape lexeme.tail.dropLast)))
  | .ident => some (.ident (String.ofList lexeme))
  | .mark => (lexeme.head?.bind Mark.ofChar?).map .mark
  | .blank => none
  | .comment => none

/-- Whether lexemes of a class are dropped. -/
def Class.isSkipped : Class → Bool
  | .blank => true
  | .comment => true
  | _ => false

/-- The number of bytes of a list of characters. -/
def byteLength : List Char → Nat
  | [] => 0
  | c :: cs => c.utf8Size + byteLength cs

/-- What stops the lexer (in `tokenize`): the byte at which no token starts, and the text found
there. -/
structure LexError where
  position : Nat
  input : String
  deriving DecidableEq, Repr

/-- What is wrong, without the place. -/
def LexError.message (e : LexError) : String :=
  "unexpected input " ++ Text.Quoted.encode e.input

/-- The text reported where no lexeme starts: one character, or an unfinished text up to its
last complete item. -/
def unmatched (c : Char) (rest : List Char) : List Char :=
  if c = '"' then c :: rest.take (textItems rest) else [c]

/-- The tokens of the characters from byte `offset` on (in `tokenize`). -/
def tokensFrom (offset : Nat) : List Char → Except LexError (List Located)
  | [] => .ok []
  | c :: rest =>
    match scan c rest with
    | none => .error ⟨offset, String.ofList (unmatched c rest)⟩
    | some (k, n) =>
      let lexeme := c :: rest.take n
      let stop := offset + byteLength lexeme
      if k.isSkipped then tokensFrom stop (rest.drop n)
      else
        match k.read lexeme with
        | none => .error ⟨offset, String.ofList lexeme⟩
        | some token => (tokensFrom stop (rest.drop n)).map (⟨token, offset, stop⟩ :: ·)
termination_by cs => cs.length
decreasing_by all_goals (simp only [List.length_drop, List.length_cons]; omega)

/-- The tokens of a source in order (`tokenize`). -/
def tokenize (source : String) : Except LexError (List Located) :=
  tokensFrom 0 source.toList

end TileFlow.Source
