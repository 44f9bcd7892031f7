/-!
# Patterns

A pattern is a text in which a question mark stands for any character, an asterisk for any text,
and brackets for one of the characters between them. A quoted character stands for itself.

## Main definitions

* `Element`, `compile`: what the characters of a pattern come to.
* `fits`: whether a text fits a pattern.
* `dropStart`, `dropEnd`: a text without a part that fits.
-/

namespace TileFlow.Script.Pattern

/-- A character of a pattern, and whether it is quoted. -/
structure PatternChar where
  char : Char
  quoted : Bool := false
  deriving DecidableEq, Repr

/-- A set of characters between brackets: single ones, ranges and named classes. -/
inductive Member where
  | range (low high : Char)
  | named (name : String)
  deriving DecidableEq, Repr

/-- What one or more characters of a pattern stand for. -/
inductive Element where
  | literal (c : Char)
  | any
  | many
  | set (negated : Bool) (members : List Member)
  deriving DecidableEq, Repr

/-- Whether a character is in the class of a name. -/
def isInClass (c : Char) : String → Bool
  | "alpha" => c.isAlpha
  | "digit" => c.isDigit
  | "alnum" => c.isAlphanum
  | "upper" => c.isUpper
  | "lower" => c.isLower
  | "space" => " \t\n\r\x0b\x0c".toList.contains c
  | "blank" => c == ' ' || c == '\t'
  | "cntrl" => c.toNat < 32 || c.toNat == 127
  | "print" => 32 ≤ c.toNat && c.toNat < 127
  | "graph" => 33 ≤ c.toNat && c.toNat < 127
  | "punct" => 33 ≤ c.toNat && c.toNat < 127 && !c.isAlphanum
  | "xdigit" => c.isDigit || "abcdefABCDEF".toList.contains c
  | _ => false

/-- Whether a name is that of a class. -/
def isClassName (name : String) : Bool :=
  ["alpha", "digit", "alnum", "upper", "lower", "space", "blank", "cntrl", "print", "graph",
    "punct", "xdigit"].contains name

/-- Whether a character is a member of a set. -/
def Member.contains (c : Char) : Member → Bool
  | .range low high => low ≤ c && c ≤ high
  | .named name => isInClass c name

/-- Whether a character fits an element that stands for one. -/
def Element.fitsChar (c : Char) : Element → Bool
  | .literal d => c = d
  | .any => true
  | .many => false
  | .set negated members => members.any (·.contains c) != negated

/-! ### Reading patterns -/

/-- Whether a character has a meaning of its own in a pattern. -/
def PatternChar.isSpecial (p : PatternChar) (c : Char) : Bool :=
  p.char == c && !p.quoted

/-- The class that starts after an opening bracket inside of brackets, and what follows it. -/
def readClass (pattern : List PatternChar) : Option (Member × List PatternChar) :=
  match pattern with
  | colon :: rest =>
    if colon.isSpecial ':' then
      let name := rest.takeWhile (·.char.isAlpha)
      match rest.drop name.length with
      | a :: b :: rest =>
        let name := String.ofList (name.map (·.char))
        if a.isSpecial ':' ∧ b.isSpecial ']' ∧ isClassName name then some (.named name, rest)
        else none
      | _ => none
    else none
  | [] => none

/-- One member of a set whose first character was read, and what follows it. -/
def readMember (c : PatternChar) (rest : List PatternChar) : Member × List PatternChar :=
  match if c.isSpecial '[' then readClass rest else none with
  | some found => found
  | none =>
    match rest with
    | dash :: high :: rest' =>
      if dash.isSpecial '-' ∧ ¬ high.isSpecial ']' then (.range c.char high.char, rest')
      else (.range c.char c.char, rest)
    | _ => (.range c.char c.char, rest)

/-- The members up to the closing bracket, and what follows it. The first character is a member
even if it is a bracket. -/
def readMembers : Nat → Bool → List PatternChar → Option (List Member × List PatternChar)
  | 0, _, _ | _, _, [] => none
  | n + 1, isFirst, c :: rest =>
    if c.isSpecial ']' ∧ ¬ isFirst then some ([], rest)
    else
      let (member, rest) := readMember c rest
      (readMembers n false rest).map fun (members, rest) => (member :: members, rest)

/-- The set after an opening bracket, and what follows it. -/
def readSet (pattern : List PatternChar) : Option (Element × List PatternChar) :=
  let negated := (pattern.head?.map (·.isSpecial '!')).getD false
  let rest := if negated then pattern.drop 1 else pattern
  (readMembers rest.length true rest).map fun (members, rest) => (.set negated members, rest)

/-- The elements of at most a number of characters. -/
def compileUpTo : Nat → List PatternChar → List Element
  | 0, _ | _, [] => []
  | n + 1, c :: rest =>
    if c.isSpecial '*' then .many :: compileUpTo n rest
    else if c.isSpecial '?' then .any :: compileUpTo n rest
    else
      match if c.isSpecial '[' then readSet rest else none with
      | some (element, rest) => element :: compileUpTo n rest
      | none => .literal c.char :: compileUpTo n rest

/-- The elements of a pattern. -/
def compile (pattern : List PatternChar) : List Element :=
  compileUpTo pattern.length pattern

/-- Whether a pattern can fit more than one text. -/
def isGeneral (pattern : List PatternChar) : Bool :=
  (compile pattern).any fun
    | .literal _ => false
    | _ => true

/-! ### Fitting -/

/-- A list and what is left of it after each of its elements. -/
def suffixes {α : Type} : List α → List (List α)
  | [] => [[]]
  | a :: rest => (a :: rest) :: suffixes rest

/-- Whether a text fits a pattern. -/
def fits : List Element → List Char → Bool
  | [], s => s.isEmpty
  | .many :: pattern, s => (suffixes s).any (fits pattern)
  | _ :: _, [] => false
  | element :: pattern, c :: s => element.fitsChar c && fits pattern s

/-- A text without the part at its start that fits a pattern, the longest or the shortest. -/
def dropStart (longest : Bool) (pattern : List Element) (s : List Char) : List Char :=
  let lengths := List.range (s.length + 1)
  match (if longest then lengths.reverse else lengths).find? fun n => fits pattern (s.take n) with
  | some n => s.drop n
  | none => s

/-- A text without the part at its end that fits a pattern, the longest or the shortest. -/
def dropEnd (longest : Bool) (pattern : List Element) (s : List Char) : List Char :=
  let lengths := List.range (s.length + 1)
  match (if longest then lengths else lengths.reverse).find? fun n => fits pattern (s.drop n) with
  | some n => s.take n
  | none => s

end TileFlow.Script.Pattern
