import TileFlow.Shell.Arithmetic
import TileFlow.Text.Rounding
import TileFlow.Shell.Streams

/-!
# Arguments of the shell's own commands

Options are letters behind a dash, of which several can stand together. The value of an option is
the rest of its argument, or the next one. A form says how a number or a text is written: with a
sign, with zeros or blanks up to a width, with at least or at most a number of digits or
characters.

## Main definitions

* `Form`: how something is written.
* `Form.writeText`, `Form.writeSigned`, `Form.writeUnsigned`, `Form.writeReal`: what it is
  written as.
* `takeReal`: the number at the start of a text with a decimal point.
* `Sh.options`: the options before the other arguments.
* `Sh.count`, `Sh.integer`: the number that an argument is.
* `singleQuoted`: a text as it can be read back.
-/

namespace TileFlow.Script

/-! ### Forms -/

/-- A power of ten. -/
def powerOfTen (n : Nat) : Nat :=
  Nat.pow 10 n

/-- How something is written. -/
structure Form where
  flags : List Char := []
  width : Nat := 0
  precision : Option Nat := none
  conversion : Char := 's'
  deriving Repr

namespace Form

/-- Whether a form has a flag. -/
def has (f : Form) (c : Char) : Bool :=
  f.flags.contains c

/-- A text with blanks up to the width. -/
def pad (f : Form) (cs : List Char) : List Char :=
  let blanks := List.replicate (f.width - cs.length) ' '
  if f.has '-' then cs ++ blanks else blanks ++ cs

/-- A sign and digits with zeros between them, or blanks around them, up to the width. -/
def padNumber (f : Form) (zeros : Bool) (sign digits : List Char) : List Char :=
  if zeros && f.has '0' && !f.has '-' then
    sign ++ List.replicate (f.width - sign.length - digits.length) '0' ++ digits
  else f.pad (sign ++ digits)

/-- A text, of which a form may take only the start. -/
def writeText (f : Form) (s : String) : String :=
  let cs := s.toList
  String.ofList (f.pad (match f.precision with
    | some n => cs.take n
    | none => cs))

/-- The sign of a number. -/
def sign (f : Form) (negative : Bool) : List Char :=
  if negative then ['-'] else if f.has '+' then ['+'] else if f.has ' ' then [' '] else []

/-- The digits of a number, with zeros up to the precision. A precision of zero writes nothing
for zero. -/
def digits (f : Form) (base n : Nat) : List Char :=
  let digits := if n = 0 ∧ f.precision = some 0 then [] else Nat.toDigits base n
  List.replicate (f.precision.getD 0 - digits.length) '0' ++ digits

/-- A number with its sign. -/
def writeSigned (f : Form) (n : Int) : String :=
  String.ofList
    (f.padNumber f.precision.isNone (f.sign (n < 0)) (f.digits 10 n.natAbs))

/-- A number without a sign, in the base of the conversion. -/
def writeUnsigned (f : Form) (n : Nat) : String :=
  let alternative := f.has '#'
  let (mark, digits) : List Char × List Char := match f.conversion with
    | 'o' =>
      let digits := f.digits 8 n
      ([], if alternative ∧ digits.head? ≠ some '0' then '0' :: digits else digits)
    | 'x' => (if alternative ∧ n ≠ 0 then ['0', 'x'] else [], f.digits 16 n)
    | 'X' =>
      (if alternative ∧ n ≠ 0 then ['0', 'X'] else [], (f.digits 16 n).map Char.toUpper)
    | _ => ([], f.digits 10 n)
  String.ofList (f.padNumber f.precision.isNone mark digits)

/-! ### Numbers with a decimal point -/

/-- Zeros before a numeral up to a number of digits. -/
def zeroFill (width n : Nat) : List Char :=
  let digits := Nat.toDigits 10 n
  List.replicate (width - digits.length) '0' ++ digits

/-- The digits before and after a point; without any after it, the point is only written if
asked for. -/
def pointed (always : Bool) (whole fraction : List Char) : List Char :=
  if fraction.isEmpty then (if always then whole ++ ['.'] else whole)
  else whole ++ '.' :: fraction

/-- `n / d` with a number of places. -/
def positional (always : Bool) (places n d : Nat) : List Char :=
  let unit := powerOfTen places
  let scaled := Text.roundHalfEven (n * unit) d
  pointed always (Nat.toDigits 10 (scaled / unit))
    (if places = 0 then [] else zeroFill places (scaled % unit))

/-- The exponent of the largest power of ten that is at most `n / d`, searched for from a first
guess in a number of steps. -/
def decimalExponent (n d : Nat) : Nat → Int → Int
  | 0, e => e
  | steps + 1, e =>
    if n * powerOfTen (-e).toNat < d * powerOfTen e.toNat then decimalExponent n d steps (e - 1)
    else if d * powerOfTen (e + 1).toNat ≤ n * powerOfTen (-(e + 1)).toNat then
      decimalExponent n d steps (e + 1)
    else e

/-- The digits of `n / d` that stand before an exponent, with a number of places, and the
exponent. -/
def scientificDigits (places n d : Nat) : Nat × Int :=
  if n = 0 then (0, 0)
  else
    let guess := ((n.log2 : Int) - d.log2) * 3 / 10
    let e := decimalExponent n d 700 guess
    let shift : Int := places - e
    let scaled := Text.roundHalfEven (n * powerOfTen shift.toNat) (d * powerOfTen (-shift).toNat)
    if scaled = powerOfTen (places + 1) then (powerOfTen places, e + 1) else (scaled, e)

/-- The text of an exponent. -/
def exponentText (upper : Bool) (e : Int) : List Char :=
  [if upper then 'E' else 'e', if e < 0 then '-' else '+'] ++ zeroFill 2 e.natAbs

/-- A text of digits without zeros at the end of its fraction. -/
def dropZeros (cs : List Char) : List Char :=
  if cs.contains '.' then
    ((cs.reverse.dropWhile (· == '0')).dropWhile (· == '.')).reverse
  else cs

/-- `n / d` with an exponent. -/
def scientific (always strips upper : Bool) (places n d : Nat) : List Char :=
  let (scaled, e) := scientificDigits places n d
  let digits := zeroFill (places + 1) scaled
  let text := pointed always (digits.take 1) (digits.drop 1)
  (if strips then dropZeros text else text) ++ exponentText upper e

/-- `n / d` in the shorter of both forms. -/
def general (always upper : Bool) (precision n d : Nat) : List Char :=
  let precision := max 1 precision
  let (_, e) := scientificDigits (precision - 1) n d
  if e < -4 ∨ (precision : Int) ≤ e then
    scientific always (!always) upper (precision - 1) n d
  else
    let text := positional always ((precision : Int) - 1 - e).toNat n d
    if always then text else dropZeros text

/-- A number with a decimal point or an exponent. -/
def writeReal (f : Form) (negative : Bool) (n d : Nat) : String :=
  let places := f.precision.getD 6
  let always := f.has '#'
  let text := match f.conversion with
    | 'e' => scientific always false false places n d
    | 'E' => scientific always false true places n d
    | 'g' => general always false places n d
    | 'G' => general always true places n d
    | _ => positional always places n d
  String.ofList (f.padNumber true (f.sign negative) text)

end Form

/-- A number as a sign and a fraction of a numerator and a denominator. -/
structure Decimal where
  negative : Bool := false
  numerator : Nat := 0
  denominator : Nat := 1

/-- The number at the start of a text, rounded to 53 binary digits, and what follows it. -/
def takeReal (cs : List Char) : Option (Decimal × List Char) :=
  let (negative, cs) := Arithmetic.takeSign (cs.dropWhile Arithmetic.isBlank)
  let whole := cs.takeWhile Char.isDigit
  let rest := cs.drop whole.length
  let fraction := match rest with
    | '.' :: rest => rest.takeWhile Char.isDigit
    | _ => []
  let rest := match rest with
    | '.' :: after => if whole.isEmpty ∧ fraction.isEmpty then rest else after.drop fraction.length
    | _ => rest
  if whole.isEmpty ∧ fraction.isEmpty then none
  else
    let digits := (whole ++ fraction).foldl (fun n c => n * 10 + (c.toNat - '0'.toNat)) 0
    let (exponent, rest) : Int × List Char := match rest with
      | c :: after =>
        let (below, power) := Arithmetic.takeSign after
        let found := power.takeWhile Char.isDigit
        if (c = 'e' ∨ c = 'E') ∧ ¬ found.isEmpty then
          let n : Int := ((String.ofList (found.take 6)).toNat?.getD 0 : Nat)
          (if below then -n else n, power.drop found.length)
        else (0, rest)
      | [] => (0, [])
    let power : Int := max (-400) (min 400 (exponent - fraction.length))
    let (n, d) := Text.nearestBinary (digits * powerOfTen power.toNat) (powerOfTen (-power).toNat)
    some ({ negative, numerator := n, denominator := d }, rest)

/-! ### Arguments -/

/-- What the letters behind a dash ask for. -/
inductive Letters where
  | done (found : List (Char × String))
  /-- The last option has its value in the next argument. -/
  | wants (found : List (Char × String)) (option : Char)
  | unknown (option : Char)

/-- The letters with one more before them. -/
def Letters.cons (c : Char) : Letters → Letters
  | .done found => .done ((c, "") :: found)
  | .wants found option => .wants ((c, "") :: found) option
  | .unknown option => .unknown option

/-- Reads letters, of which those in `valued` have values. -/
def readLetters (plain valued : List Char) : List Char → Letters
  | [] => .done []
  | c :: rest =>
    if plain.contains c then (readLetters plain valued rest).cons c
    else if valued.contains c then
      if rest.isEmpty then .wants [] c else .done [(c, String.ofList rest)]
    else .unknown c

/-- A text between single quotes. Those that it has itself stand between double ones. -/
def singleQuoted (s : String) : String :=
  let rec go (n : Nat) (cs : List Char) : List Char :=
    let plain := cs.takeWhile (· != '\'')
    let rest := cs.drop plain.length
    let quotes := rest.takeWhile (· == '\'')
    let first := '\'' :: plain ++ ['\'']
    match n with
    | 0 => first
    | n + 1 =>
      if rest.isEmpty then first
      else
        let after := rest.drop quotes.length
        first ++ '"' :: quotes ++ ['"'] ++ (if after.isEmpty then [] else go n after)
  String.ofList (go s.length s.toList)

namespace Sh

/-- The options before the other arguments, in their order, and what follows them. -/
def options (plain valued : List Char) : List String → Sh (List (Char × String) × List String)
  | [] => return ([], [])
  | arg :: rest =>
    match arg.toList with
    | ['-', '-'] => return ([], rest)
    | '-' :: letters =>
      if letters.isEmpty then return ([], arg :: rest)
      else
        match readLetters plain valued letters with
        | .done found => do
          let (more, rest) ← options plain valued rest
          return (found ++ more, rest)
        | .unknown c => fail s!"Illegal option -{c}"
        | .wants found c =>
          match rest with
          | [] => fail s!"No arg for -{c} option"
          | value :: rest => do
            let (more, rest) ← options plain valued rest
            return (found ++ (c, value) :: more, rest)
    | _ => return ([], arg :: rest)

/-- The arguments of a command without options. -/
def operands (args : List String) : Sh (List String) := do
  return (← options [] [] args).2

/-- The number that an argument is. -/
def integer (text : String) : Sh Int := do
  match Arithmetic.decimal? text with
  | some n => return n.toInt
  | none => fail s!"Illegal number: {text}"

/-- The number that an argument is, which must not be negative or large. -/
def count (text : String) : Sh Nat := do
  let n ← integer text
  if 0 ≤ n ∧ n < 2147483648 then return n.toNat else fail s!"Illegal number: {text}"

/-- Writes a text to the output. -/
def writeOutput (text : String) : Sh Bool :=
  write 1 text

/-- Writes a text to the output of a command of the shell itself, and gives its exit code. -/
def answer (text : String) (status : Nat := 0) : Sh Nat := do
  if ← writeOutput text then return status
  else
    let name := (← shell).commandName.getD ""
    warn s!"{name}: I/O error"
    return status ||| 1

end Sh

end TileFlow.Script
