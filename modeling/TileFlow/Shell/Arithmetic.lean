/-!
# Arithmetic expressions

Expressions over whole numbers of 64 bits, with the operators of the language that most shells
take them from. Variables are numbers written out, and may be assigned to.

## Main definitions

* `BinaryOp`, `UnaryOp`: the operators.
* `evaluate`: the value of the expression that a text is.
* `number?`, `decimal?`: the number that a text is.
-/

namespace TileFlow.Script.Arithmetic

/-- Operators between two numbers. -/
inductive BinaryOp where
  | mul | div | mod | add | sub | shl | shr | lt | le | gt | ge | eq | ne | and | xor | or
  deriving DecidableEq, Repr

/-- Operators before a number. -/
inductive UnaryOp where
  | plus | minus | not | complement
  deriving DecidableEq, Repr

/-- What can be wrong with an expression. -/
inductive Fault where
  | expected (what : String)
  | divisionByZero
  deriving DecidableEq, Repr

/-- The wording of a fault. -/
def Fault.message : Fault → String
  | .expected what => s!"expecting {what}"
  | .divisionByZero => "division by zero"

/-! ### Numbers -/

/-- The value of a digit in a base, if it is one. -/
def digit? (base : Nat) (c : Char) : Option Nat :=
  let value := if c.isDigit then c.toNat - '0'.toNat
    else if 'a' ≤ c ∧ c ≤ 'z' then c.toNat - 'a'.toNat + 10
    else if 'A' ≤ c ∧ c ≤ 'Z' then c.toNat - 'A'.toNat + 10
    else base
  if value < base then some value else none

/-- The number at the start of a text in a base, and what follows it. -/
def takeDigits (base : Nat) (cs : List Char) : Nat × List Char :=
  let digits := cs.takeWhile fun c => (digit? base c).isSome
  (digits.foldl (fun n c => n * base + (digit? base c).getD 0) 0, cs.drop digits.length)

/-- The number at the start of a text and what follows it. A zero before it makes it octal, a
zero and an `x` hexadecimal. -/
def takeNumber (cs : List Char) : Nat × List Char :=
  match cs with
  | '0' :: x :: c :: rest =>
    if (x = 'x' ∨ x = 'X') ∧ (digit? 16 c).isSome then takeDigits 16 (c :: rest)
    else takeDigits 8 cs
  | '0' :: _ => takeDigits 8 cs
  | _ => takeDigits 10 cs

/-- The nearest number of 64 bits. -/
def clamp (n : Int) : Int64 :=
  Int64.ofInt (max Int64.minValue.toInt (min Int64.maxValue.toInt n))

/-- Whether a character is a blank between numbers. -/
def isBlank (c : Char) : Bool :=
  " \t\n\r\x0b\x0c".toList.contains c

/-- A text without its sign, and whether it has a minus sign. -/
def takeSign : List Char → Bool × List Char
  | '-' :: rest => (true, rest)
  | '+' :: rest => (false, rest)
  | cs => (false, cs)

/-- A number that may have blanks before it, and what follows it, for a function that takes the
digits. Without any digits there is no number. -/
def takeSigned (digits : List Char → Nat × List Char) (cs : List Char) :
    Option (Int × List Char) :=
  let (negative, unsigned) := takeSign (cs.dropWhile isBlank)
  let (n, rest) := digits unsigned
  if rest.length = unsigned.length then none
  else some (if negative then -(n : Int) else n, rest)

/-- A number of 64 bits, if it is small enough to be one. -/
def bounded? (n : Int) : Option Int64 :=
  if (clamp n).toInt = n then some (clamp n) else none

/-- The number that a text is, for a function that takes the digits. Blanks may stand around
it. -/
def wholeNumber? (digits : List Char → Nat × List Char) (s : String) : Option Int64 :=
  (takeSigned digits s.toList).bind fun (n, rest) =>
    if rest.all isBlank then bounded? n else none

/-- The number that the value of a variable is. A blank value counts as zero. -/
def number? (s : String) : Option Int64 :=
  if s.toList.all isBlank then some 0 else wholeNumber? takeNumber s

/-- The number that a text of decimal digits is. -/
def decimal? (s : String) : Option Int64 :=
  wholeNumber? (takeDigits 10) s

/-! ### Tokens -/

/-- Numbers, names and operators. -/
inductive Token where
  | number (n : Int64)
  | name (s : String)
  | mark (s : String)
  deriving DecidableEq, Repr

/-- The operators, longer ones before those that they start with. -/
def marks : List String :=
  ["<<=", ">>=", "<<", ">>", "<=", ">=", "==", "!=", "&&", "||", "+=", "-=", "*=", "/=", "%=",
    "&=", "^=", "|=", "<", ">", "&", "^", "|", "=", "+", "-", "*", "/", "%", "(", ")", "!", "~",
    "?", ":"]

/-- The tokens of at most a number of characters. A character that none starts with is a token
that fits nowhere. -/
def tokensUpTo : Nat → List Char → List Token
  | 0, _ | _, [] => []
  | n + 1, c :: rest =>
    if c = ' ' ∨ c = '\t' ∨ c = '\n' then tokensUpTo n rest
    else if c.isDigit then
      let (value, rest) := takeNumber (c :: rest)
      .number (clamp value) :: tokensUpTo n rest
    else if c.isAlpha ∨ c = '_' then
      let name := (c :: rest).takeWhile fun c => c.isAlphanum || c == '_'
      .name (String.ofList name) :: tokensUpTo n ((c :: rest).drop name.length)
    else
      match marks.find? fun mark => mark.toList.isPrefixOf (c :: rest) with
      | some mark => .mark mark :: tokensUpTo n ((c :: rest).drop mark.length)
      | none => .mark (String.singleton c) :: tokensUpTo n rest

/-! ### Values -/

/-- One or zero, for true or false. -/
def ofBool (b : Bool) : Int64 :=
  if b then 1 else 0

/-- The number of places to shift by. -/
def shiftAmount (b : Int64) : Int64 :=
  b &&& 63

/-- The value of an operator; there is none for a division by zero. -/
def BinaryOp.apply (op : BinaryOp) (a b : Int64) : Option Int64 :=
  match op with
  | .mul => some (a * b)
  | .div => if b = 0 then none else some (a / b)
  | .mod => if b = 0 then none else some (a % b)
  | .add => some (a + b)
  | .sub => some (a - b)
  | .shl => some (a <<< shiftAmount b)
  | .shr => some (a >>> shiftAmount b)
  | .lt => some (ofBool (a < b))
  | .le => some (ofBool (a ≤ b))
  | .gt => some (ofBool (b < a))
  | .ge => some (ofBool (b ≤ a))
  | .eq => some (ofBool (a == b))
  | .ne => some (ofBool (a != b))
  | .and => some (a &&& b)
  | .xor => some (a ^^^ b)
  | .or => some (a ||| b)

/-- The value of an operator before a number. -/
def UnaryOp.apply (op : UnaryOp) (a : Int64) : Int64 :=
  match op with
  | .plus => a
  | .minus => -a
  | .not => ofBool (a == 0)
  | .complement => ~~~a

/-! ### Evaluating expressions -/

/-- What expressions need to know: the values of variables, how they are set, and what becomes
of a fault. -/
structure Variables (m : Type → Type) where
  value : String → m Int64
  assign : String → Int64 → m Unit
  fault : Fault → m Int64

/-- Evaluation over the tokens that are left. -/
abbrev Evaluation (m : Type → Type) := StateT (List Token) m

section

variable {m : Type → Type} [Monad m] (v : Variables m)

/-- The end of evaluation at a fault. -/
def fail (f : Fault) : Evaluation m Int64 :=
  StateT.lift (v.fault f)

/-- The next token, if it is one of some marks. -/
def takeMark? (wanted : List String) : Evaluation m (Option String) := do
  match ← get with
  | .mark mark :: rest =>
    if wanted.contains mark then
      set rest
      return some mark
    else return none
  | _ => return none

/-- The binary operators, those that bind tightest first. -/
def levels : List (List (String × BinaryOp)) :=
  [[("*", .mul), ("/", .div), ("%", .mod)], [("+", .add), ("-", .sub)],
    [("<<", .shl), (">>", .shr)], [("<", .lt), ("<=", .le), (">", .gt), (">=", .ge)],
    [("==", .eq), ("!=", .ne)], [("&", .and)], [("^", .xor)], [("|", .or)]]

/-- The operator that a mark assigns with, if it assigns: none for a plain value. -/
def assignOp? (mark : String) : Option (Option BinaryOp) :=
  if mark = "=" then some none
  else
    (levels.flatten.find? fun (name, _) => ["==", "!=", "<=", ">="].all (· != mark) &&
      name ++ "=" == mark).map fun (_, op) => some op

/-- The value of an operator between two numbers, which counts if `live`. -/
def applyLive (live : Bool) (op : BinaryOp) (a b : Int64) : Evaluation m Int64 :=
  if live then
    match op.apply a b with
    | some c => return c
    | none => fail v .divisionByZero
  else return b

/-- The value of an operand, for a function that evaluates what is between parentheses. Nothing
is looked up unless it is `live`. -/
def operand (self : Evaluation m Int64) (live : Bool) : Nat → Evaluation m Int64
  | 0 => fail v (.expected "primary")
  | n + 1 => do
    match ← get with
    | .number value :: rest =>
      set rest
      return value
    | .name name :: rest =>
      set rest
      if live then StateT.lift (v.value name) else return 0
    | .mark mark :: rest =>
      set rest
      match mark with
      | "(" =>
        let x ← self
        match ← takeMark? [")"] with
        | some _ => return x
        | none => fail v (.expected "')'")
      | "+" => return UnaryOp.plus.apply (← operand self live n)
      | "-" => return UnaryOp.minus.apply (← operand self live n)
      | "!" => return UnaryOp.not.apply (← operand self live n)
      | "~" => return UnaryOp.complement.apply (← operand self live n)
      | _ => fail v (.expected "primary")
    | [] => fail v (.expected "primary")

/-- The value of operands of a level with its operators between them, from the left. -/
def chain (operand : Evaluation m Int64) (live : Bool) (ops : List (String × BinaryOp)) :
    Nat → Int64 → Evaluation m Int64
  | 0, x => return x
  | n + 1, x => do
    match ← takeMark? (ops.map (·.1)) with
    | none => return x
    | some mark =>
      let y ← operand
      chain operand live ops n (← applyLive v live ((ops.lookup mark).getD .add) x y)

/-- The value of an expression of binary operators, for the levels that bind tighter than its
own. -/
def levelled (operand : Evaluation m Int64) (live : Bool) :
    List (List (String × BinaryOp)) → Evaluation m Int64
  | [] => operand
  | ops :: tighter => do
    let x ← levelled operand live tighter
    chain v (levelled operand live tighter) live ops (← get).length x

/-- The value of expressions of which all must be true, up to the first that is not. -/
def both (inner : Bool → Evaluation m Int64) : Nat → Bool → Evaluation m Int64
  | 0, live => inner live
  | n + 1, live => do
    let x ← inner live
    match ← takeMark? ["&&"] with
    | some _ =>
      let y ← both inner n (live && x != 0)
      return ofBool (x != 0 && y != 0)
    | none => return x

/-- The value of expressions of which one must be true, up to the first that is. -/
def either (inner : Bool → Evaluation m Int64) : Nat → Bool → Evaluation m Int64
  | 0, live => inner live
  | n + 1, live => do
    let x ← inner live
    match ← takeMark? ["||"] with
    | some _ =>
      let y ← either inner n (live && x == 0)
      return ofBool (x != 0 || y != 0)
    | none => return x

/-- The name that the tokens from here on assign to, if they start so. -/
def takeAssigned? : Evaluation m (Option (String × Option BinaryOp)) := do
  match ← get with
  | .name name :: .mark mark :: rest =>
    match assignOp? mark with
    | some op =>
      set rest
      return some (name, op)
    | none => return none
  | _ => return none

/-- Gives a variable a value, to which an operator may add what it had. -/
def assignWith (name : String) (op : Option BinaryOp) (b : Int64) : Evaluation m Int64 := do
  let value ← match op with
    | none => pure b
    | some op => applyLive v true op (← StateT.lift (v.value name)) b
  StateT.lift (v.assign name value)
  return value

/-- The value of a choice between two expressions, or of what stands before its question mark,
for a function that evaluates the expressions inside of it. -/
def choice (self : Bool → Evaluation m Int64) : Nat → Bool → Evaluation m Int64
  | 0, _ => fail v (.expected "primary")
  | n + 1, live => do
    let size := (← get).length
    let tight (live : Bool) : Evaluation m Int64 :=
      levelled v (operand v (self live) live (size + 1)) live levels.reverse
    let x ← either (both tight size) size live
    match ← takeMark? ["?"] with
    | none => return x
    | some _ =>
      let yes ← self (live && x != 0)
      match ← takeMark? [":"] with
      | some _ =>
        let no ← choice self n (live && x == 0)
        return if x != 0 then yes else no
      | none => fail v (.expected "':'")

/-- The value of an expression whose parts are nested at most to a depth. Parts on which the
value does not depend are read, but not evaluated. -/
def expression : Nat → Bool → Evaluation m Int64
  | 0, _ => fail v (.expected "primary")
  | depth + 1, live => do
    match ← takeAssigned? with
    | some (name, op) =>
      let b ← expression depth live
      if live then assignWith v name op b else return b
    | none => choice v (expression depth) (depth + 1) live

/-- The value of the expression that a text is. -/
def evaluate (s : String) : m Int64 := do
  let tokens := tokensUpTo s.toList.length s.toList
  let (x, rest) ← (expression v (tokens.length + 1) true).run tokens
  if rest.isEmpty then return x else v.fault (.expected "EOF")

end

end TileFlow.Script.Arithmetic
