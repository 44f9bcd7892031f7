/-!
# Sets of characters by their boundaries

A property of characters that changes only at a few code points is stored as the ascending
list of the code points at which it changes: it fails below the first boundary, holds from
the first to the second, fails again up to the third, and so on. Blank characters, those with
the property `White_Space`, are such a set; they are removed at the margins of texts.

## Main definitions

* `CharSet`: the boundaries of a property.
* `CharSet.contains`: whether a character has the property.
* `isBlank`: whether a character is white space.
* `trim`, `trimEnd`: a text without its blank margins.
-/

namespace TileFlow.Text

/-- A set of characters, given by the code points at which membership changes. -/
structure CharSet where
  boundaries : Array Nat

namespace CharSet

/-- Membership flips at each boundary that is not above the character. -/
def contains (s : CharSet) (c : Char) : Bool :=
  s.boundaries.foldl (fun inside b => if b ≤ c.toNat then !inside else inside) false

end CharSet

/-- The characters with the property `White_Space`. -/
def blanks : CharSet := ⟨#[
  0x9, 0xe, 0x20, 0x21, 0x85, 0x86, 0xa0, 0xa1, 0x1680, 0x1681, 0x2000, 0x200b, 0x2028, 0x202a,
  0x202f, 0x2030, 0x205f, 0x2060, 0x3000, 0x3001
]⟩

/-- A blank character separates and is never read. -/
def isBlank (c : Char) : Bool :=
  blanks.contains c

/-- A list of characters without the blanks at its end. -/
def trimEndChars (cs : List Char) : List Char :=
  (cs.reverse.dropWhile isBlank).reverse

/-- A text without the blanks at its end. -/
def trimEnd (s : String) : String :=
  String.ofList (trimEndChars s.toList)

/-- A text without the blanks at its start and at its end. -/
def trim (s : String) : String :=
  String.ofList (trimEndChars (s.toList.dropWhile isBlank))

end TileFlow.Text
