/-!
# Text out of bytes

Bytes that should be a text in UTF-8 may have invalid pieces. Each longest piece that starts
like a character, but does not go on like one, is shown as one replacement character.

## Main definitions

* `decodeLossy`: the text of bytes, with replacements.
-/

namespace TileFlow.Text

/-- The length of the character that a byte starts, or zero if it starts none. -/
def utf8Width (b : UInt8) : Nat :=
  if b < 0x80 then 1 else if b < 0xc2 then 0 else if b < 0xe0 then 2
  else if b < 0xf0 then 3 else if b < 0xf5 then 4 else 0

/-- Whether a byte can follow the first one of a character. Too long forms, surrogates and
numbers past the last character are left out here. -/
def canBeSecond (lead b : UInt8) : Bool :=
  let low : UInt8 := if lead = 0xe0 then 0xa0 else if lead = 0xf0 then 0x90 else 0x80
  let high : UInt8 := if lead = 0xed then 0x9f else if lead = 0xf4 then 0x8f else 0xbf
  low ≤ b && b ≤ high

/-- The bytes that belong to the character that the first byte starts. -/
def continuation (lead : UInt8) (rest : List UInt8) : List UInt8 :=
  match rest with
  | [] => []
  | b :: more =>
    if 2 ≤ utf8Width lead && canBeSecond lead b then
      b :: (more.take (utf8Width lead - 2)).takeWhile fun c => 0x80 ≤ c && c ≤ 0xbf
    else []

/-- The character that some bytes are, if they are one. -/
def character? (lead : UInt8) (tail : List UInt8) : Option Char :=
  if utf8Width lead = tail.length + 1 then
    (String.fromUTF8? ⟨(lead :: tail).toArray⟩).bind (·.toList.head?)
  else none

/-- The characters of at most a number of bytes, with replacements for invalid pieces. -/
def decodeChars : Nat → List UInt8 → List Char
  | 0, _ | _, [] => []
  | n + 1, lead :: rest =>
    let tail := continuation lead rest
    (character? lead tail).getD '\ufffd' :: decodeChars n (rest.drop tail.length)

/-- The text of bytes, with a replacement character for each invalid piece. -/
def decodeLossy (bytes : List UInt8) : String :=
  String.ofList (decodeChars bytes.length bytes)

end TileFlow.Text
