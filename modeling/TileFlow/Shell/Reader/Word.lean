import TileFlow.Shell.Command

/-!
# Reading words

A reader goes through the characters of a script and counts its lines. A backslash at the end of
a line joins it to the next one, everywhere but between single quotes. A text that a redirection
refers to stands on the lines below the command. It is read when the reader comes to the end of the
command's line, and set aside under its index.

What a character means in a word depends on what surrounds it: quotes keep blanks, braces end at
a closing brace, an arithmetic expression ends at two closing parentheses. A piece of a word may
hold commands and other words again. How those are read is left open here, in a function that
reads the parts of a script.

## Main definitions

* `SyntaxError`: why a script cannot be read on.
* `Token`: words and operators.
* `Reader`, `Reading`: a place in a script, and what is read from there.
* `peek`, `take`: the next character.
* `Ground`: what surrounds a piece.
* `Part`, `ReadPart`: the parts of a script that hold each other.
* `readPieces`: the pieces up to the end of what surrounds them.
-/

namespace TileFlow.Script

/-! ### Characters -/

/-- Why a script cannot be read on, and where. -/
structure SyntaxError where
  line : Nat
  message : String
  deriving DecidableEq, Repr

/-- A word or an operator. -/
inductive Token where
  | word (w : Word)
  | reserved (name : String)
  | redirection (stream : Nat) (kind : RedirectKind) (stripTabs : Bool)
  | operator (name : String)
  | newline
  | endOfFile

/-- How a token is called in a complaint. -/
def Token.describe : Token → String
  | .word _ => "word"
  | .reserved name | .operator name => s!"\"{name}\""
  | .redirection .. => "redirection"
  | .newline => "newline"
  | .endOfFile => "end of file"

/-- A text that a redirection refers to and that is still to be read. -/
structure AwaitedDocument where
  index : Nat
  lastLine : String
  /-- Whether nothing in the text stands for other text. -/
  literal : Bool
  stripTabs : Bool

/-- A place in a script. -/
structure Reader where
  rest : List Char
  line : Nat := 1
  /-- A token that was read and not used. -/
  unread : Option Token := none
  awaited : List AwaitedDocument := []
  documents : Array Word := #[]

/-- What is read from a place, and the place after it. -/
abbrev Reading := StateT Reader (Except SyntaxError)

namespace Reader

/-- The end of reading, with its cause. -/
def refuse {α : Type} (message : String) : Reading α := do
  throw ⟨(← get).line, message⟩

/-- The end of reading at a token that cannot stand there. -/
def refuseToken {α : Type} (found : Token) (wanted : Option String := none) : Reading α :=
  refuse <| match wanted with
    | some name => s!"{found.describe} unexpected (expecting \"{name}\")"
    | none => s!"{found.describe} unexpected"

/-- The lines that end in a backslash, joined to what follows. -/
def joinLines : Nat → List Char → Nat × List Char
  | line, '\\' :: '\n' :: rest => joinLines (line + 1) rest
  | line, rest => (line, rest)

/-- The next character as it stands. -/
def takeRaw : Reading (Option Char) := do
  let r ← get
  match r.rest with
  | [] => return none
  | c :: rest =>
    set { r with rest, line := if c = '\n' then r.line + 1 else r.line }
    return some c

/-- The next character, which is left to be read. -/
def peek : Reading (Option Char) := do
  let r ← get
  let (line, rest) := joinLines r.line r.rest
  set { r with line, rest }
  return rest.head?

/-- The next character. -/
def take : Reading (Option Char) := do
  let _ ← peek
  takeRaw

/-- Whether the next character is the given one, which is read then. -/
def takeIf (c : Char) : Reading Bool := do
  if (← peek) = some c then
    let _ ← takeRaw
    return true
  else return false

/-- How many characters are left. -/
def remaining : Reading Nat := do
  return (← get).rest.length

/-- Takes turns until one ends the repetition. Each turn but the last reads something, so that
there are at most as many as characters, and one more for the end. -/
def repeated {α β : Type} (turn : α → Reading (Turn α β)) (start : α) : Reading β := do
  repeatUpTo (refuse "input too long") turn ((← remaining) + 2) start

/-- The characters from here on that fulfil a condition. -/
def takeWhile (p : Char → Bool) : Reading (List Char) := do
  let found ← repeated (α := List Char) (fun found => do
    match ← peek with
    | some c =>
      if p c then
        let _ ← takeRaw
        return .again (c :: found)
      else return .done found
    | none => return .done found) []
  return found.reverse

/-- Gives back a token that was read. -/
def putBack (t : Token) : Reading Unit :=
  modify fun r => { r with unread := some t }

end Reader

/-! ### Words -/

/-- What surrounds a piece. -/
inductive Ground where
  /-- Nothing: the piece is part of a word among others. -/
  | word
  /-- Nothing, in a word in which nothing stands for other text. -/
  | mark
  | quotes
  | braces
  /-- Braces in which blanks and single quotes stand for themselves. -/
  | quotedBraces (inDocument : Bool)
  /-- A whole text. -/
  | document
  /-- The parentheses of an arithmetic expression. -/
  | arithmetic
  deriving DecidableEq

namespace Ground

/-- Whether what stands here is treated like what stands between double quotes. -/
def isQuoted : Ground → Bool
  | .quotes | .quotedBraces _ | .document | .arithmetic => true
  | _ => false

/-- Why there cannot be an end of the script here, if there cannot. -/
def endError? : Ground → Option String
  | .quotes | .quotedBraces false => some "Unterminated quoted string"
  | .braces | .quotedBraces true => some "Missing '\x7d'"
  | .arithmetic => some "Missing '))'"
  | .word | .mark | .document => none

/-- What surrounds the text behind the name of a parameter between braces. The patterns of what
is dropped are read like words. -/
def forUsage (g : Ground) : Usage → Ground
  | .dropStart _ | .dropEnd _ => .braces
  | _ =>
    match g with
    | .quotes | .arithmetic => .quotedBraces false
    | .document => .quotedBraces true
    | .quotedBraces inDocument => .quotedBraces inDocument
    | _ => .braces

end Ground

/-- Where a list of commands ends. -/
inductive ListEnd where
  /-- At the end of a line. -/
  | line
  /-- At a token that no command starts with, after at least one command. -/
  | block
  /-- At a token that ends a block. -/
  | possiblyEmpty
  deriving DecidableEq

/-- The parts of a script that hold each other. -/
inductive Part where
  | pieces (ground : Ground)
  | commands (listEnd : ListEnd)
  /-- A command on this line or below, which is the body of a function. -/
  | body

/-- What a part is read as. -/
abbrev Part.Value : Part → Type
  | .pieces _ => Word
  | _ => Command

/-- A function that reads parts. -/
abbrev ReadPart := (p : Part) → Reading p.Value

namespace Reader

/-! ### Output of commands -/

/-- Reads a part with no text awaited from before, which goes on being awaited after it. -/
def withoutAwaited {α : Type} (x : Reading α) : Reading α := do
  let awaited := (← get).awaited
  modify fun r => { r with awaited := [] }
  let a ← x
  modify fun r => { r with awaited }
  return a

/-- The characters between backquotes, without the backslashes that protect characters there. -/
def backquoted (quoted : Bool) : Reading (List Char) := do
  let found ← repeated (α := List Char) (fun found => do
    match ← take with
    | none => refuse "EOF in backquote substitution"
    | some '\x60' => return .done found
    | some '\\' =>
      match ← takeRaw with
      | some c =>
        if c = '\\' ∨ c = '\x60' ∨ c = '$' ∨ (quoted ∧ c = '"') then return .again (c :: found)
        else return .again (c :: '\\' :: found)
      | none => return .again ('\\' :: found)
    | some c => return .again (c :: found)) []
  return found.reverse

/-- The commands between backquotes. Their lines are counted from one. -/
def readBackquoted (self : ReadPart) (quoted : Bool) : Reading Piece := do
  let inner ← backquoted quoted
  let r ← get
  set { r with rest := inner, line := 1, unread := none, awaited := [] }
  let commands ← self (.commands .possiblyEmpty)
  modify fun s => { r with documents := s.documents }
  return .output commands

/-! ### Parameters -/

/-- The usage that a character stands for, if it stands for one. -/
def usage? (nullToo : Bool) : Char → Option Usage
  | '-' => some (.orElse nullToo)
  | '+' => some (.ifPresent nullToo)
  | '?' => some (.orFail nullToo)
  | '=' => some (.orAssign nullToo)
  | _ => none

/-- The usage after the name of a parameter between braces. Without one the braces end here. -/
def readUsage : Reading (Option Usage) := do
  match ← take with
  | some '\x7d' => return none
  | some ':' => return some (((← take).bind (usage? true)).getD .unknown)
  | some '%' => return some (.dropEnd (← takeIf '%'))
  | some '#' => return some (.dropStart (← takeIf '#'))
  | some c => return some ((usage? false c).getD .unknown)
  | none => return some .unknown

/-- A parameter between braces from its name on. -/
def readNamed (self : ReadPart) (g : Ground) (name : List Char) : Reading Piece := do
  let name := String.ofList name
  match ← readUsage with
  | none => return .parameter name .value []
  | some usage => return .parameter name usage (← self (.pieces (g.forUsage usage)))

/-- What is left of braces that name no parameter. -/
def readUnknown (self : ReadPart) (g : Ground) : Reading Piece := do
  return .parameter "" .unknown (← self (.pieces (g.forUsage .unknown)))

/-- The name of a parameter of several characters, if one starts here. -/
def readLongName (first : Char) : Reading (Option (List Char)) := do
  if isNameStart first then return some (← takeWhile isNameChar)
  else if first.isDigit then return some (← takeWhile Char.isDigit)
  else return none

/-- The length of a parameter, whose name must be all that is left. -/
def readLength (self : ReadPart) (g : Ground) (name : List Char) : Reading Piece := do
  if ← takeIf '\x7d' then return .parameter (String.ofList name) .length []
  else readUnknown self g

/-- What stands between braces after a number sign: the length of a parameter, or the number of
arguments. -/
def readCount (self : ReadPart) (g : Ground) : Reading Piece := do
  match ← peek with
  | none | some '\x7d' => readNamed self g ['#']
  | some c =>
    match ← readLongName c with
    | some name => readLength self g name
    | none =>
      let r ← get
      let _ ← takeRaw
      if (← peek) = some '\x7d' then
        if isSpecialParameter c then readLength self g [c]
        else readUnknown self g
      else
        set r
        readNamed self g ['#']

/-- What stands between braces. -/
def readBraced (self : ReadPart) (g : Ground) : Reading Piece := do
  match ← peek with
  | none | some '\x7d' => readUnknown self g
  | some c =>
    match ← readLongName c with
    | some name => readNamed self g name
    | none =>
      let _ ← takeRaw
      if c = '#' then readCount self g
      else if isSpecialParameter c then readNamed self g [c]
      else readUnknown self g

/-- What a dollar sign starts. -/
def readDollar (self : ReadPart) (g : Ground) : Reading Piece := do
  match ← peek with
  | some '(' =>
    let _ ← takeRaw
    if ← takeIf '(' then return .arithmetic (← self (.pieces .arithmetic))
    else
      let commands ← withoutAwaited (self (.commands .possiblyEmpty))
      match (← get).unread with
      | some (.operator ")") =>
        modify fun r => { r with unread := none }
        return .output commands
      | some t => refuseToken t (some ")")
      | none => refuse "end of file unexpected (expecting \")\")"
  | some '\x7b' =>
    let _ ← takeRaw
    readBraced self g
  | some c =>
    if isNameStart c then
      return .parameter (String.ofList (← takeWhile isNameChar)) .value []
    else if isSpecialParameter c then
      let _ ← takeRaw
      return .parameter (String.singleton c) .value []
    else return .char '$'
  | none => return .char '$'

/-! ### Pieces -/

/-- The pieces so far, the last one first, with what else the meaning of a character depends
on: whether it is between quotes inside of quoted braces, and how many parentheses are open. -/
structure Scan where
  pieces : List Piece := []
  innerQuotes : Bool := false
  depth : Nat := 0

/-- The pieces with one more. -/
def Scan.add (s : Scan) (p : Piece) : Scan :=
  { s with pieces := p :: s.pieces }

/-- What a backslash and the character after it are. -/
def escapedPieces (g : Ground) (c : Char) : List Piece :=
  let protectable : List Char := match g with
    | .document => ['\\', '\x60', '$']
    | .quotedBraces _ => ['\\', '\x60', '$', '"', '\x7d']
    | _ => ['\\', '\x60', '$', '"']
  if ¬ g.isQuoted ∨ protectable.contains c then [.escaped c] else [.escaped c, .escaped '\\']

/-- The pieces between single quotes. -/
def readLiteral : Reading Word := do
  let found ← repeated (α := Word) (fun found => do
    match ← takeRaw with
    | none => refuse "Unterminated quoted string"
    | some '\'' => return .done found
    | some c => return .again (.char c :: found)) []
  return found.reverse

/-- Whether a character ends a word. -/
def endsWord (c : Char) : Bool :=
  "\n \t&;<>|()".toList.contains c

/-- One turn of reading pieces, at a character that ends nothing. -/
def readOne (self : ReadPart) (g : Ground) (s : Scan) (c : Char) :
    Reading (Turn Scan Word) := do
  let _ ← takeRaw
  match c with
  | '\\' =>
    match ← takeRaw with
    | some c => return .again { s with pieces := escapedPieces g c ++ s.pieces }
    | none => return .again (s.add (.escaped '\\'))
  | '$' =>
    if g = .mark then return .again (s.add (.char c))
    else return .again (s.add (← readDollar self g))
  | '\x60' =>
    if g = .mark then return .again (s.add (.escaped c))
    else return .again (s.add (← readBackquoted self g.isQuoted))
  | '\'' =>
    if g.isQuoted then return .again (s.add (.char c))
    else return .again (s.add (.quoted (← readLiteral)))
  | '"' =>
    match g with
    | .quotedBraces _ => return .again { s with innerQuotes := !s.innerQuotes }
    | .document | .arithmetic => return .again (s.add (.char c))
    | .mark | .word | .braces | .quotes =>
      return .again (s.add (.quoted (← self (.pieces .quotes))))
  | _ => return .again (s.add (.char c))

/-- One turn of reading the pieces of an arithmetic expression, at a parenthesis. -/
def readParenthesis (s : Scan) (c : Char) : Reading (Turn Scan Word) := do
  let _ ← takeRaw
  if c = '(' then return .again { s.add (.char c) with depth := s.depth + 1 }
  else if 0 < s.depth then return .again { s.add (.char c) with depth := s.depth - 1 }
  else if ← takeIf ')' then return .done s.pieces.reverse
  else return .again (s.add (.char c))

/-- One turn of reading pieces. -/
def readTurn (self : ReadPart) (g : Ground) (s : Scan) : Reading (Turn Scan Word) := do
  match ← peek with
  | none =>
    match g.endError? with
    | some message => refuse message
    | none => return .done s.pieces.reverse
  | some c =>
    match g with
    | .word | .mark =>
      if endsWord c then return .done s.pieces.reverse else readOne self g s c
    | .quotes =>
      if c = '"' then
        let _ ← takeRaw
        return .done s.pieces.reverse
      else readOne self g s c
    | .braces | .quotedBraces _ =>
      if c = '\x7d' ∧ ¬ s.innerQuotes then
        let _ ← takeRaw
        return .done s.pieces.reverse
      else readOne self g s c
    | .arithmetic =>
      if c = '(' ∨ c = ')' then readParenthesis s c else readOne self g s c
    | .document => readOne self g s c

/-- The pieces up to the end of what surrounds them. -/
def readPieces (self : ReadPart) (g : Ground) : Reading Word :=
  repeated (readTurn self g) {}

end Reader

end TileFlow.Script
