import TileFlow.Text.CaseTable

/-!
# Letter case

Full case conversion of texts: a letter may become several (`ß` becomes `SS`), and a capital
sigma at the end of a word becomes the final form `ς`.

## Main definitions

* `toUpper`, `toLower`: a text in one case.
-/

namespace TileFlow.Text

/-- The image of a character above the ASCII range under a pair of case tables. -/
def mapCase (shifts : Array CaseShift) (expansions : Array (Nat × List Nat)) (c : Char) :
    List Char :=
  match expansions.find? (·.1 == c.toNat) with
  | some (_, image) => image.map Char.ofNat
  | none =>
    match shifts.find? (·.covers c.toNat) with
    | some shift => [Char.ofNat (c.toNat + shift.distance).toNat]
    | none => [c]

/-- The upper-case form of a character. -/
def upperChars (c : Char) : List Char :=
  if c.toNat < 0x80 then [c.toUpper] else mapCase upperShifts upperExpansions c

/-- The lower-case form of a character outside any context. -/
def lowerChars (c : Char) : List Char :=
  if c.toNat < 0x80 then [c.toLower] else mapCase lowerShifts lowerExpansions c

/-- A text with every letter in upper case. -/
def toUpper (s : String) : String :=
  String.ofList (s.toList.flatMap upperChars)

/-- Whether the first character that is not ignored for case is a cased one. -/
def startsCased (cs : List Char) : Bool :=
  match cs.dropWhile caseIgnorable.contains with
  | c :: _ => cased.contains c
  | [] => false

/-- The lower-case form of a text, given the characters before it, nearest first: a capital
sigma after a cased letter and before none takes its final form. -/
def lowerFrom (before : List Char) : List Char → List Char
  | [] => []
  | c :: rest =>
    (if c = 'Σ' then (if startsCased before && !startsCased rest then ['ς'] else ['σ'])
      else lowerChars c) ++ lowerFrom (c :: before) rest

/-- A text with every letter in lower case. -/
def toLower (s : String) : String :=
  String.ofList (lowerFrom [] s.toList)

end TileFlow.Text
