/-!
# Hexadecimal numerals

Lower-case hexadecimal numerals of natural numbers, of words with a fixed number of digits,
and of signed 64-bit integers by their two's complement.

## Main definitions

* `hex`: the shortest numeral.
* `hexPadded`: a numeral with leading zeros up to a width.
* `hexAddress`: a signed 64-bit integer with the mark `0x`.
-/

namespace TileFlow.Text

/-- The shortest hexadecimal numeral of a number. -/
def hex (n : Nat) : String :=
  String.ofList (Nat.toDigits 16 n)

/-- A hexadecimal numeral of at least `width` digits. -/
def hexPadded (width n : Nat) : String :=
  let digits := Nat.toDigits 16 n
  String.ofList (List.replicate (width - digits.length) '0' ++ digits)

/-- A signed 64-bit integer in two's complement, after the mark `0x`. -/
def hexAddress (n : Int) : String :=
  "0x" ++ hex (n % 0x10000000000000000).toNat

end TileFlow.Text
