import TileFlow.Shell.Builtin.Arguments

/-!
# Commands that print

One command prints its arguments as they are, but for escapes. The other prints a format, in
which directives stand for the arguments. A format is used again as long as there are arguments
left.

## Main definitions

* `unescape`: a text with its escapes replaced.
* `Directive`, `readFormat`: the parts of a format.
* `Builtin.echo`, `Builtin.printf`: the two commands.
-/

namespace TileFlow.Script

/-! ### Escapes -/

/-- The character that a letter behind a backslash stands for. -/
def escapeOf? : Char → Option Char
  | 'a' => some '\x07'
  | 'b' => some '\x08'
  | 'e' => some '\x1b'
  | 'f' => some '\x0c'
  | 'n' => some '\n'
  | 'r' => some '\x0d'
  | 't' => some '\t'
  | 'v' => some '\x0b'
  | '\\' => some '\\'
  | _ => none

/-- Whether a character is an octal digit. -/
def isOctal (c : Char) : Bool :=
  '0' ≤ c && c ≤ '7'

/-- The byte that up to three octal digits at the start of a text stand for, and what follows
them. -/
def takeOctal (cs : List Char) : Char × List Char :=
  let digits := (cs.take 3).takeWhile isOctal
  let n := digits.foldl (fun n c => n * 8 + (c.toNat - '0'.toNat)) 0
  (ByteText.ofByte (UInt8.ofNat n), cs.drop digits.length)

/-- What a backslash and the text behind it come to, and what follows. A backslash without a
meaning stands for itself. -/
def takeEscape (cs : List Char) : Char × List Char :=
  match cs with
  | [] => ('\\', [])
  | c :: rest =>
    if isOctal c then takeOctal cs
    else
      match escapeOf? c with
      | some e => (e, rest)
      | none => ('\\', cs)

/-- The characters of a text of at most a length with its escapes replaced, and whether one of
them ends all printing. -/
def unescapeUpTo : Nat → List Char → List Char × Bool
  | 0, _ | _, [] => ([], false)
  | n + 1, '\\' :: rest =>
    match rest with
    | 'c' :: _ => ([], true)
    | _ =>
      let (c, rest) := match rest with
        | '0' :: d :: more => if isOctal d then takeOctal (d :: more) else takeEscape rest
        | _ => takeEscape rest
      let (cs, ends) := unescapeUpTo n rest
      (c :: cs, ends)
  | n + 1, c :: rest =>
    let (cs, ends) := unescapeUpTo n rest
    (c :: cs, ends)

/-- A text with its escapes replaced, and whether one of them ends all printing. -/
def unescape (s : String) : String × Bool :=
  let (cs, ends) := unescapeUpTo s.length s.toList
  (String.ofList cs, ends)

/-! ### Formats -/

/-- A width or a precision: given, or taken from an argument. -/
inductive Extent where
  | given (n : Nat)
  | argument

/-- A part of a format. -/
inductive Directive where
  | literal (c : Char)
  | convert (flags : List Char) (width : Extent) (precision : Option Extent) (conversion : Char)
  /-- A directive that does not exist, with its text. -/
  | invalid (text : List Char)
  /-- A directive without its last character. -/
  | unfinished

/-- The width or precision at the start of a text, and what follows it. -/
def takeExtent (cs : List Char) : Extent × List Char :=
  match cs with
  | '*' :: rest => (.argument, rest)
  | _ =>
    let digits := cs.takeWhile Char.isDigit
    (.given ((String.ofList digits).toNat?.getD 0), cs.drop digits.length)

/-- The directive behind a percent sign, and what follows it. -/
def takeDirective (cs : List Char) : Directive × List Char :=
  let flags := cs.takeWhile "#-+ 0".toList.contains
  let (width, rest) := takeExtent (cs.drop flags.length)
  let (precision, rest) : Option Extent × List Char := match rest with
    | '.' :: rest =>
      let (precision, rest) := takeExtent rest
      (some precision, rest)
    | _ => (none, rest)
  match rest with
  | [] => (.unfinished, [])
  | c :: after =>
    if "bcsdiouxXeEfFgG".toList.contains c then (.convert flags width precision c, after)
    else (.invalid ('%' :: cs.take (cs.length - after.length)), [])

/-- The parts of a format of at most a length. -/
def readFormat : Nat → List Char → List Directive
  | 0, _ | _, [] => []
  | n + 1, c :: rest =>
    match c, rest with
    | '\\', _ =>
      let (e, rest) := takeEscape rest
      .literal e :: readFormat n rest
    | '%', '%' :: rest => .literal '%' :: readFormat n rest
    | '%', _ =>
      let (d, rest) := takeDirective rest
      d :: readFormat n rest
    | _, _ => .literal c :: readFormat n rest

/-! ### Arguments -/

/-- What is printed so far, the last text first, with the arguments that are left and the exit
code. -/
structure Printing where
  printed : List String := []
  args : List String
  status : Nat := 0

/-- Printing, which ends early where an escape says so. -/
abbrev Print := StateT Printing Sh

namespace Print

/-- Prints a text. -/
def put (text : String) : Print Unit :=
  modify fun p => { p with printed := text :: p.printed }

/-- The next argument, if there is one. -/
def argument : Print (Option String) := do
  match (← get).args with
  | [] => return none
  | arg :: rest =>
    modify fun p => { p with args := rest }
    return some arg

/-- Complains of an argument. -/
def complain (message : String) : Print Unit := do
  Sh.warn message
  modify fun p => { p with status := 1 }

/-- Complains of a number that does not end where its argument does. -/
def checkEnd (arg : String) (rest : Option (List Char)) : Print Unit :=
  match rest with
  | some [] => pure ()
  | some _ => complain s!"{arg}: not completely converted"
  | none => if arg = "" then pure () else complain s!"{arg}: expected numeric value"

/-- The code of the character behind a quote. -/
def quotedCode? (arg : String) : Option Nat :=
  match arg.toList with
  | '"' :: rest | '\'' :: rest => some ((rest.head?.map Char.toNat).getD 0)
  | _ => none

/-- The next argument as a number within limits. -/
def number (low high : Int) : Print Int := do
  match ← argument with
  | none => return 0
  | some arg =>
    match quotedCode? arg with
    | some code => return code
    | none =>
      match Arithmetic.takeSigned Arithmetic.takeNumber arg.toList with
      | none =>
        checkEnd arg none
        return 0
      | some (n, rest) =>
        if rest.isEmpty ∧ (n < low ∨ high < n) then
          complain s!"{arg}: Numerical result out of range"
        checkEnd arg (some rest)
        return max low (min high n)

/-- The next argument as a number with a sign. -/
def signed : Print Int :=
  number Int64.minValue.toInt Int64.maxValue.toInt

/-- The next argument as a number without a sign; a negative one wraps around. -/
def unsigned : Print Nat := do
  let n ← number (-(UInt64.size - 1 : Int)) (UInt64.size - 1 : Int)
  return (n % UInt64.size).toNat

/-- The next argument as a number with a decimal point. -/
def real : Print Decimal := do
  match ← argument with
  | none => return {}
  | some arg =>
    match quotedCode? arg with
    | some code => return { numerator := code }
    | none =>
      match takeReal arg.toList with
      | none =>
        checkEnd arg none
        return {}
      | some (r, rest) =>
        checkEnd arg (some rest)
        return r

/-- A width or a precision. -/
def extent : Extent → Print Int
  | .given n => return n
  | .argument => signed

/-- Prints a part of a format, and says whether all printing ends with it. -/
def directive : Directive → Print Bool
  | .literal c => do
    put (String.singleton c)
    return false
  | .invalid text => do
    Sh.warn s!"{String.ofList text}: invalid directive"
    modify fun p => { p with status := 2 }
    return true
  | .unfinished => do
    Sh.warn "missing format character"
    modify fun p => { p with status := 2 }
    return true
  | .convert flags width precision conversion => do
    let width ← extent width
    let precision ← precision.mapM extent
    let form : Form :=
      { flags := if width < 0 then '-' :: flags else flags
        width := width.natAbs
        precision := precision.bind fun n => if n < 0 then none else some n.toNat
        conversion }
    if conversion = 'b' then
      let (text, ends) := unescape ((← argument).getD "")
      put (form.writeText text)
      return ends
    else
      put (← match conversion with
        | 'c' => do
          let c := (((← argument).getD "").toList.head?).getD '\x00'
          pure ({ form with precision := none }.writeText (String.singleton c))
        | 's' => do pure (form.writeText ((← argument).getD ""))
        | 'd' | 'i' => do pure (form.writeSigned (← signed))
        | 'o' | 'u' | 'x' | 'X' => do pure (form.writeUnsigned (← unsigned))
        | _ => do
          let r ← real
          pure (form.writeReal r.negative r.numerator r.denominator))
      return false

/-- Prints parts of a format until all printing ends. -/
def directives : List Directive → Print Bool
  | [] => return false
  | d :: rest => do if ← directive d then return true else directives rest

/-- Prints a format, again as long as it takes arguments and there are some left. -/
def format (parts : List Directive) : Nat → Print Unit
  | 0 => return ()
  | n + 1 => do
    let before := (← get).args.length
    let ended ← directives parts
    let after := (← get).args.length
    if ended ∨ after = 0 ∨ after = before then return () else format parts n

end Print

namespace Builtin

/-- Prints the arguments with blanks between them. Only a first argument `-n` is an option: it
leaves the end of the line out. -/
def echo (args : List String) : Sh Nat := do
  let (lineEnd, args) := match args with
    | "-n" :: rest => ("", rest)
    | _ => ("\n", args)
  let rec texts : List String → List String
    | [] => [lineEnd]
    | arg :: rest =>
      match unescape arg with
      | (text, true) => [text]
      | (text, false) => text :: (if rest.isEmpty then [lineEnd] else " " :: texts rest)
  Sh.answer (String.join (texts args))

/-- Prints a format with arguments. -/
def printf (args : List String) : Sh Nat := do
  match ← Sh.operands args with
  | [] => Sh.fail "usage: printf format [arg ...]"
  | source :: args =>
    let parts := readFormat source.length source.toList
    let ((), p) ← (Print.format parts (args.length + 1)).run { args }
    Sh.answer (String.join p.printed.reverse) p.status

end Builtin

end TileFlow.Script
