/-!
# Rounding of quotients

Quotients are rounded to whole numbers, and to numbers with 53 binary digits. A half goes to
the even neighbour in both.

## Main definitions

* `roundHalfEven`: the whole number nearest to a quotient.
* `nearestBinary`: the number with 53 binary digits nearest to a quotient.
* `fixedPlaces`: a quotient with a fixed number of decimal places.
-/

namespace TileFlow.Text

/-- The whole number nearest to `n / d`; of two, the even one. -/
def roundHalfEven (n d : Nat) : Nat :=
  let below := n / d
  let twice := 2 * (n % d)
  if twice < d then below
  else if d < twice then below + 1
  else below + below % 2

/-- The exponent of the largest power of two that is at most `n / d`, for positive numbers. -/
def binaryExponent (n d : Nat) : Int :=
  let e : Int := (n.log2 : Int) - d.log2
  if n <<< (-e).toNat < d <<< e.toNat then e - 1 else e

/-- A fraction that is the number with 53 binary digits nearest to `n / d`. The denominator is a
power of two. -/
def nearestBinary (n d : Nat) : Nat × Nat :=
  if n = 0 then (0, 1)
  else
    let shift := 52 - binaryExponent n d
    let digits := roundHalfEven (n <<< shift.toNat) (d <<< (-shift).toNat)
    (digits <<< (-shift).toNat, 1 <<< shift.toNat)

/-- A numeral with leading zeros up to a width. -/
def zeroPadded (width n : Nat) : String :=
  let digits := Nat.toDigits 10 n
  String.ofList (List.replicate (width - digits.length) '0' ++ digits)

/-- `n / d` with a fixed number of decimal places. -/
def fixedPlaces (places n d : Nat) : String :=
  let unit := Nat.pow 10 places
  let scaled := roundHalfEven (n * unit) d
  toString (scaled / unit) ++ "." ++ zeroPadded places (scaled % unit)

/-- A text with blanks before it up to a width. -/
def padLeft (width : Nat) (s : String) : String :=
  String.ofList (List.replicate (width - s.length) ' ') ++ s

/-- A text with blanks after it up to a width. -/
def padRight (width : Nat) (s : String) : String :=
  s ++ String.ofList (List.replicate (width - s.length) ' ')

end TileFlow.Text
