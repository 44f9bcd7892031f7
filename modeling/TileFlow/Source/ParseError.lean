import TileFlow.Source.Token

/-!
# Errors of the parser

The causes for which a token list is no program, each with the byte where it shows.

## Main definitions

* `ParseCause`: what is wrong.
* `ParseError`: a cause and its place.
* `ParseError.message`: the wording.
-/

namespace TileFlow.Source

/-- Why a token list is no program (in `error`). Where a token was expected, `found` is the one in
its place, or `none` at the end. -/
inductive ParseCause where
  | unterminatedRegion
  | expectedMark (mark : Mark) (found : Option Token)
  | expectedOperation (found : Option Token)
  | expectedAttributeName
  | expectedValue (found : Option Token)
  | undefinedValue (name : String)
  | redefinedValue (name : String)
  | trailing (found : Option Token)
  deriving DecidableEq, Repr

/-- A cause and the byte of the source where it shows. -/
structure ParseError where
  cause : ParseCause
  offset : Nat
  deriving DecidableEq, Repr

/-- How a found token is named (`describe_current`). -/
def describe : Option Token → String
  | some t => "'" ++ t.render ++ "'"
  | none => "end of input"

/-- The wording of a cause. -/
def ParseCause.message : ParseCause → String
  | .unterminatedRegion => "unterminated region"
  | .expectedMark mark found =>
    "expected '" ++ String.singleton mark.char ++ "', got " ++ describe found
  | .expectedOperation found => "expected operation name, got " ++ describe found
  | .expectedAttributeName => "expected attribute name"
  | .expectedValue found => "expected a value, got " ++ describe found
  | .undefinedValue name => "use of undefined value %" ++ name
  | .redefinedValue name => "redefinition of value %" ++ name
  | .trailing found => "unexpected " ++ describe found ++ " after module"

/-- The wording of an error (in `error`). -/
def ParseError.message (e : ParseError) : String :=
  e.cause.message ++ " at byte " ++ toString e.offset

end TileFlow.Source
