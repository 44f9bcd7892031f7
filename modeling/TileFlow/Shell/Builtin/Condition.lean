import TileFlow.Shell.Builtin.Arguments

/-!
# Conditions

A condition is read from arguments: tests of texts, numbers and files, joined by operators. A text
that could be an operator is an operand where the arguments around it say so.

## Main definitions

* `Operator`, `Operator.ofText?`: the operators.
* `isTrue`: the value of a condition.
* `Builtin.test`: the command that tests it.
-/

namespace TileFlow.Script

namespace Condition

/-- The operators of conditions. -/
inductive Operator where
  | unary (letter : Char)
  | binary (name : String)
  | not
  | and
  | or
  | opening
  | closing
  deriving DecidableEq, Repr

/-- The letters of tests of one operand. -/
def unaryLetters : List Char :=
  "rwxefdcbpugkstznhOGLS".toList

/-- The tests of two operands. -/
def binaryNames : List String :=
  ["=", "!=", "<", ">", "-eq", "-ne", "-gt", "-ge", "-lt", "-le", "-nt", "-ot", "-ef"]

/-- The operator that a text is, if it is one. -/
def Operator.ofText? (text : String) : Option Operator :=
  if binaryNames.contains text then some (.binary text)
  else
    match text.toList with
    | ['!'] => some .not
    | ['('] => some .opening
    | [')'] => some .closing
    | ['-', 'a'] => some .and
    | ['-', 'o'] => some .or
    | ['-', c] => if unaryLetters.contains c then some (.unary c) else none
    | _ => none

/-- Whether a text is the name of a test of two operands. -/
def isBinary (text : String) : Bool :=
  binaryNames.contains text

/-- What an argument is. -/
inductive Item where
  | operator (op : Operator)
  | operand
  | nothing
  deriving DecidableEq

/-- Whether an argument that could be a test of one operand is an operand itself, given the
arguments behind it. -/
def isOperand : List String → Bool
  | [] => true
  | [_] => false
  | second :: _ => isBinary second

/-- What the first of some arguments is. -/
def itemOf : List String → Item
  | [] => .nothing
  | arg :: rest =>
    match Operator.ofText? arg with
    | some (.unary c) => if isOperand rest then .operand else .operator (.unary c)
    | some .opening => if rest.isEmpty then .operand else .operator .opening
    | some op => .operator op
    | none => .operand

/-! ### Tests -/

/-- What a path leads to, if it leads to something. -/
def nodeAt? (path : String) : Sh (Option Node) := do
  match (← Sh.world).files.locate (← Sh.shell).directory (ByteText.decode path) with
  | .ok (_, node) => return some node
  | .error _ => return none

/-- The value of a test of one operand. -/
def testOne (letter : Char) (operand : String) : Sh Bool := do
  match letter with
  | 'z' => return operand = ""
  | 'n' => return operand ≠ ""
  | 't' =>
    let _ ← Sh.integer operand
    return false
  | _ =>
    match ← nodeAt? operand, letter with
    | none, _ => return false
    | some _, 'e' | some _, 'r' | some _, 'w' | some _, 'O' | some _, 'G' => return true
    | some (.file _ executable), 'x' => return executable
    | some .directory, 'x' | some .directory, 'd' | some .directory, 's' => return true
    | some (.file ..), 'f' => return true
    | some (.file id _), 's' => return ¬ ((← Sh.world).files.contentsOf id).isEmpty
    | some (.device _), 'c' => return true
    | _, _ => return false

/-- Whether two paths lead to the same place. -/
def isSame (a b : String) : Sh Bool := do
  let s ← Sh.shell
  let files := (← Sh.world).files
  match files.locate s.directory (ByteText.decode a), files.locate s.directory (ByteText.decode b)
  with
  | .ok (k, _), .ok (l, _) => return k = l
  | _, _ => return false

/-- The value of a test of two operands. Files are all of the same age. -/
def testTwo (name a b : String) : Sh Bool := do
  let compare (holds : Int → Int → Bool) : Sh Bool := do
    let x ← Sh.integer a
    return holds x (← Sh.integer b)
  match name with
  | "=" => return a = b
  | "!=" => return a ≠ b
  | "<" => return a < b
  | ">" => return b < a
  | "-eq" => compare fun x y => x == y
  | "-ne" => compare fun x y => x != y
  | "-gt" => compare fun x y => y < x
  | "-ge" => compare fun x y => y ≤ x
  | "-lt" => compare fun x y => x < y
  | "-le" => compare fun x y => x ≤ y
  | "-ef" => isSame a b
  | _ => return false

/-! ### Expressions -/

/-- Evaluation over arguments, the first of which is the one that it has come to. -/
abbrev Evaluation := StateT (List String) Sh

/-- Goes on by a number of arguments, and tells what is there. -/
def advance (count : Nat) : Evaluation Item := do
  modify (·.drop count)
  return itemOf (← get)

/-- What the next argument is. -/
def next : Evaluation Item := do
  return itemOf ((← get).drop 1)

/-- The argument that evaluation has come to. -/
def current : Evaluation String := do
  return ((← get).head?).getD ""

mutual

/-- The value of expressions of which one must be true. -/
def either : Nat → Item → Evaluation Bool
  | 0, _ => return false
  | n + 1, item => do
    let first ← both n item
    if (← next) = .operator .or then
      let second ← either n (← advance 2)
      return first || second
    else return first

/-- The value of expressions that must all be true. -/
def both : Nat → Item → Evaluation Bool
  | 0, _ => return false
  | n + 1, item => do
    let first ← negation n item
    if (← next) = .operator .and then
      let second ← both n (← advance 2)
      return first && second
    else return first

/-- The value of an expression that may be negated. -/
def negation : Nat → Item → Evaluation Bool
  | 0, _ => return false
  | n + 1, item => do
    if item = .operator .not then
      let following ← next
      if following ≠ .nothing then modify (·.drop 1)
      return !(← negation n following)
    else primary n item

/-- The value of a test, of an operand or of what is between parentheses. -/
def primary : Nat → Item → Evaluation Bool
  | 0, _ => return false
  | n + 1, item => do
    match item with
    | .nothing => return false
    | .operator .opening =>
      let inner ← advance 1
      if inner = .operator .closing then return false
      else
        let result ← either n inner
        if (← advance 1) = .operator .closing then return result
        else Sh.fail "closing paren expected"
    | .operator (.unary letter) =>
      let name ← current
      match (← get).drop 1 with
      | [] => Sh.fail s!"{name}: argument expected"
      | operand :: rest =>
        set (operand :: rest)
        testOne letter operand
    | _ =>
      match ← get with
      | a :: name :: rest =>
        if itemOf (name :: rest) = .operator (.binary name) then
          match rest with
          | [] => Sh.fail s!"{name}: argument expected"
          | b :: rest =>
            set (b :: rest)
            testTwo name a b
        else return a ≠ ""
      | [a] => return a ≠ ""
      | [] => return false

end

/-- The value of an expression that is all of some arguments. -/
def evaluateAll (item : Item) (args : List String) : Sh Bool := do
  let (result, rest) ← (either (8 * args.length + 8) item).run args
  match rest with
  | last :: _ :: _ => Sh.fail (if last = "" then "unexpected operator"
      else s!"{last}: unexpected operator")
  | _ => return result

/-- The value of a condition. Up to four arguments are read by their number first. -/
def isTrue : List String → Sh Bool
  | [] => return false
  | [a, name, b] => do
    if isBinary name then evaluateAll .operand [a, name, b]
    else if a = "(" ∧ b = ")" then evaluateAll (itemOf [name]) [name]
    else if a = "!" then return !(← isTrue [name, b])
    else evaluateAll (itemOf [a, name, b]) [a, name, b]
  | [a, b, c, d] => do
    if a = "(" ∧ d = ")" then evaluateAll (itemOf [b, c]) [b, c]
    else if a = "!" then return !(← isTrue [b, c, d])
    else evaluateAll (itemOf [a, b, c, d]) [a, b, c, d]
  | args => evaluateAll (itemOf args) args

end Condition

namespace Builtin

/-- Tests a condition. -/
def test (args : List String) : Sh Nat := do
  return if ← Condition.isTrue args then 0 else 1

/-- Tests a condition that ends in a closing bracket. -/
def bracket (args : List String) : Sh Nat := do
  if args.getLast? = some "]" then test args.dropLast else Sh.fail "missing ]"

end Builtin

end TileFlow.Script
