import TileFlow.Text.Quoted

/-!
# Tokens

The words of the program notation: value names with `%`, symbols with `@`, integers, quoted
texts, identifiers with dots, and punctuation.

## Main definitions

* `Token`: one word of the notation.
* `Token.render`: its written form.
* `Located`: a token with the range of bytes it covers in the source.
-/

namespace TileFlow.Source

/-- The punctuation marks of the notation (in `Token`). -/
inductive Mark where
  | equals
  | leftParen
  | rightParen
  | leftBrace
  | rightBrace
  | leftBracket
  | rightBracket
  | comma
  | colon
  deriving DecidableEq, Repr

/-- The character of a punctuation mark. -/
def Mark.char : Mark → Char
  | .equals => '='
  | .leftParen => '('
  | .rightParen => ')'
  | .leftBrace => '\x7b'
  | .rightBrace => '\x7d'
  | .leftBracket => '['
  | .rightBracket => ']'
  | .comma => ','
  | .colon => ':'

/-- The punctuation mark written with a character. -/
def Mark.ofChar? : Char → Option Mark
  | '=' => some .equals
  | '(' => some .leftParen
  | ')' => some .rightParen
  | '\x7b' => some .leftBrace
  | '\x7d' => some .rightBrace
  | '[' => some .leftBracket
  | ']' => some .rightBracket
  | ',' => some .comma
  | ':' => some .colon
  | _ => none

/-- A word of the program notation (`Token`). Names are kept without their sigil. -/
inductive Token where
  | value (name : String)
  | symbol (name : String)
  | int (n : Int)
  | str (text : String)
  | ident (name : String)
  | mark (m : Mark)
  deriving DecidableEq, Repr

/-- The written form of a token (`fmt`). -/
def Token.render : Token → String
  | .value name => "%" ++ name
  | .symbol name => "@" ++ name
  | .int n => toString n
  | .str text => Text.Quoted.encode text
  | .ident name => name
  | .mark m => String.singleton m.char

/-- A token and the bytes of the source from `start` up to `stop` that it covers (`Spanned`). -/
structure Located where
  token : Token
  start : Nat
  stop : Nat
  deriving DecidableEq, Repr

end TileFlow.Source
